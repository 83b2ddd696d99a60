import Template.Proofs.Outlines
import Template.Proofs.Quoting
import Template.Proofs.RoundTrip

/-! What tells documents apart: canonical sources, and outlines. -/
namespace Template

open Token

def Element.IsFinite (e : Element) : Prop := e.isInfinite = false ∧ e.isNaN = false

variable {a b : Element} {as bs : List Element} {x y : List Char} {c d : Content} {depth : Nat}

theorem Element.kind_injective (h : a.kind = b.kind) : a = b := by
  have ha := ofToken_of_kind (t := ⟨a.kind, {}, 0⟩) (e := a) rfl
  have hb := ofToken_of_kind (t := ⟨a.kind, {}, 0⟩) (e := b) h
  exact Except.ok.inj (ha.symm.trans hb)

/-- The text of a finite element is told from what follows by the space between them. -/
theorem Element.source_append_inj (ha : a.IsFinite) (hb : b.IsFinite) (hx : Separated x)
    (hy : Separated y) (h : a.source ++ x = b.source ++ y) : a = b ∧ x = y := by
  have hleft := Lexeme.ofTag_source ha.1 ha.2 hx
  rw [h, Lexeme.ofTag_source hb.1 hb.2 hy, Lexeme.mk.injEq, Except.ok.injEq] at hleft
  obtain ⟨-, hrest, hkind⟩ := hleft
  exact ⟨kind_injective hkind.symm, hrest.symm⟩

/-- Nothing follows, or the end of the line. -/
def EndsLine : List Char → Prop := EndsClass (· != '\n')

theorem EndsLine.separated (h : EndsLine x) : Separated x := by
  intro c hc
  rw [bne_eq_false_iff_eq.1 (h c hc)]
  rfl

theorem spacedSource_append_inj (has : ∀ e ∈ as, e.IsFinite) (hbs : ∀ e ∈ bs, e.IsFinite)
    (hx : EndsLine x) (hy : EndsLine y) (h : spacedSource as ++ x = spacedSource bs ++ y) :
    as = bs ∧ x = y := by
  induction as generalizing bs with
  | nil =>
    cases bs with
    | nil => exact ⟨rfl, h⟩
    | cons b bs =>
      have hspace : x = ' ' :: (b.source ++ spacedSource bs ++ y) := by
        simpa [spacedSource] using h
      exact absurd (hx ' ' (hspace ▸ rfl)) (by decide)
  | cons a as ih =>
    cases bs with
    | nil =>
      have hspace : y = ' ' :: (a.source ++ spacedSource as ++ x) := by
        simpa [spacedSource] using h.symm
      exact absurd (hy ' ' (hspace ▸ rfl)) (by decide)
    | cons b bs =>
      obtain ⟨ha, has'⟩ := List.forall_mem_cons.1 has
      obtain ⟨hb, hbs'⟩ := List.forall_mem_cons.1 hbs
      have hboth : a.source ++ (spacedSource as ++ x) = b.source ++ (spacedSource bs ++ y) := by
        simpa [spacedSource] using h
      obtain ⟨rfl, hrest⟩ := Element.source_append_inj ha hb
        (separated_spaced Element.source as hx.separated)
        (separated_spaced Element.source bs hy.separated) hboth
      obtain ⟨rfl, hmore⟩ := ih has' hbs' hrest
      exact ⟨rfl, hmore⟩

/-- The end of a line, and the spaces in front of the next at a depth. -/
def indentation (depth : Nat) : List Char := '\n' :: List.replicate (2 * depth) ' '

theorem indentation_succ (depth : Nat) :
    indentation (depth + 1) = indentation depth ++ [' ', ' '] := by
  simp [indentation, Nat.mul_succ, List.replicate_succ']

/-- What may follow the parts at a depth: nothing, or a line that is not indented so far. -/
structure EndsParts (depth : Nat) (more : List Char) : Prop where
  endsLine : EndsLine more
  shallow : ¬ indentation depth <+: more

theorem endsParts_nil (depth : Nat) : EndsParts depth [] where
  endsLine := .nil _
  shallow := by simp [indentation]

theorem EndsParts.succ (h : EndsParts depth x) : EndsParts (depth + 1) x where
  endsLine := h.endsLine
  shallow hdeep := by
    rw [indentation_succ] at hdeep
    exact h.shallow ((List.prefix_append ..).trans hdeep)

namespace Content

theorem toList_line (depth : Nat) (node : Node) : '\n' :: (Outline.line depth node).toList =
    indentation depth ++ (Outline.heading node).toList := by
  simp [Outline.line, Outline.indent, indentation]

theorem outlined_text (value : String) (next : Content) : (text value next).outlined depth =
    indentation depth ++ ("Text ".toList ++ Quoted.enclose '"' value.toList ++
      next.outlined depth) := by
  rw [outlined, lines, List.flatMap_cons, toList_line, toList_heading_text, List.append_assoc]
  rfl

theorem outlined_echo (has : as ≠ []) (next : Content) : (echo as next).outlined depth =
    indentation depth ++ ("Echo".toList ++ spacedSource as ++ next.outlined depth) := by
  rw [outlined, lines, List.flatMap_cons, toList_line, toList_heading_echo has, List.append_assoc]
  rfl

theorem outlined_loop (head : Loop) (body next : Content) : (loop head body next).outlined depth =
    indentation depth ++ ("For".toList ++ spacedSource (.var head.counter :: head.operands) ++
      (body.outlined (depth + 1) ++ next.outlined depth)) := by
  rw [outlined, lines, List.flatMap_cons, List.flatMap_append, toList_line, toList_heading_loop,
    List.append_assoc]
  rfl

/-- What the line of the first part says begins with this letter. -/
def letter : Content → Option Char
  | nil => none
  | text _ _ => some 'T'
  | echo _ _ => some 'E'
  | loop _ _ _ => some 'F'

theorem letter_eq_none_iff : c.letter = none ↔ c = nil := by
  cases c <;> simp [letter]

theorem exists_outlined {l : Char} (h : c.letter = some l) (depth : Nat) :
    l ≠ ' ' ∧ ∃ rest, c.outlined depth = indentation depth ++ l :: rest := by
  cases c with
  | nil => cases h
  | text value next =>
    cases h
    rw [outlined_text]
    exact ⟨by decide, _, rfl⟩
  | echo elements next =>
    cases h
    rw [outlined, lines, List.flatMap_cons, toList_line, Outline.heading, String.toList_append,
      List.append_assoc, List.append_assoc]
    exact ⟨by decide, _, rfl⟩
  | loop head body next =>
    cases h
    rw [outlined_loop]
    exact ⟨by decide, _, rfl⟩

end Content

/-- The parts behind the body of a loop end that body. -/
theorem endsParts_outlined (c : Content) (hx : EndsParts depth x) :
    EndsParts (depth + 1) (c.outlined depth ++ x) := by
  cases hc : c.letter with
  | none =>
    rw [Content.letter_eq_none_iff.1 hc]
    exact hx.succ
  | some l =>
    obtain ⟨hl, rest, hc⟩ := Content.exists_outlined hc depth
    refine ⟨?_, ?_⟩
    · rw [hc]
      exact .cons rfl
    · rintro ⟨more, hmore⟩
      rw [hc, indentation_succ, List.append_assoc, List.append_assoc,
        List.append_cancel_left_eq] at hmore
      exact hl (List.cons.inj hmore).1.symm

/-- What ends parts is not where other parts begin. -/
theorem EndsParts.letter_eq_none (hx : EndsParts depth x) (h : x = c.outlined depth ++ y) :
    c.letter = none := by
  cases hc : c.letter with
  | none => rfl
  | some l =>
    obtain ⟨-, rest, hc⟩ := Content.exists_outlined hc depth
    refine (hx.shallow ⟨l :: rest ++ y, ?_⟩).elim
    rw [h, hc, List.append_assoc]

theorem letter_eq_of_outlined (hx : EndsParts depth x) (hy : EndsParts depth y)
    (h : c.outlined depth ++ x = d.outlined depth ++ y) : c.letter = d.letter := by
  cases hc : c.letter with
  | none =>
    rw [Content.letter_eq_none_iff.1 hc] at h
    exact (hx.letter_eq_none h).symm
  | some l =>
    cases hd : d.letter with
    | none =>
      rw [Content.letter_eq_none_iff.1 hd] at h
      rw [← hc, hy.letter_eq_none h.symm]
    | some m =>
      obtain ⟨-, rest, hc⟩ := Content.exists_outlined hc depth
      obtain ⟨-, rest', hd⟩ := Content.exists_outlined hd depth
      rw [hc, hd, List.append_assoc, List.append_assoc, List.append_cancel_left_eq] at h
      rw [(List.cons.inj h).1]

/-- The lines of the parts are told from what follows them, and determine the parts. -/
theorem outlined_append_inj (hc : c.WellFormed) (hd : d.WellFormed)
    (hcs : ∀ e ∈ c.elements, e.IsFinite) (hds : ∀ e ∈ d.elements, e.IsFinite)
    (hx : EndsParts depth x) (hy : EndsParts depth y)
    (h : c.outlined depth ++ x = d.outlined depth ++ y) : c = d ∧ x = y := by
  -- the first letter tells the sort of the first part, so the trees differ in no constructor
  induction c generalizing d depth x y with
  | nil =>
    cases d with
    | nil => exact ⟨rfl, h⟩
    | _ => cases letter_eq_of_outlined hx hy h
  | text value next ih =>
    cases d with
    | text value' next' =>
      simp only [Content.outlined_text, List.append_assoc, List.append_cancel_left_eq] at h
      obtain ⟨hvalue, hrest⟩ := Quoted.enclose_append_inj (.inl rfl) h
      obtain ⟨rfl, hmore⟩ := ih hc (d := next') hd hcs hds hx hy hrest
      rw [String.toList_inj.1 hvalue]
      exact ⟨rfl, hmore⟩
    | _ => cases letter_eq_of_outlined hx hy h
  | echo elements next ih =>
    cases d with
    | echo elements' next' =>
      obtain ⟨helements, hnext⟩ := List.forall_mem_append.1 hcs
      obtain ⟨helements', hnext'⟩ := List.forall_mem_append.1 hds
      simp only [Content.outlined_echo hc.1, Content.outlined_echo hd.1, List.append_assoc,
        List.append_cancel_left_eq] at h
      obtain ⟨rfl, hrest⟩ := spacedSource_append_inj helements helements'
        (endsParts_outlined next hx).endsLine (endsParts_outlined next' hy).endsLine h
      obtain ⟨rfl, hmore⟩ := ih hc.2 hd.2 hnext hnext' hx hy hrest
      exact ⟨rfl, hmore⟩
    | _ => cases letter_eq_of_outlined hx hy h
  | loop head body next ihb ihn =>
    cases d with
    | loop head' body' next' =>
      simp only [Content.elements, List.forall_mem_append] at hcs hds
      obtain ⟨hhead, hbody, hnext⟩ := hcs
      obtain ⟨hhead', hbody', hnext'⟩ := hds
      simp only [Content.outlined_loop, List.append_assoc, List.append_cancel_left_eq] at h
      have hinner := endsParts_outlined next hx
      have hinner' := endsParts_outlined next' hy
      obtain ⟨hheads, hrest⟩ := spacedSource_append_inj
        (List.forall_mem_cons.2 ⟨⟨rfl, rfl⟩, hhead⟩) (List.forall_mem_cons.2 ⟨⟨rfl, rfl⟩, hhead'⟩)
        (endsParts_outlined body hinner).endsLine (endsParts_outlined body' hinner').endsLine h
      obtain ⟨rfl, hbehind⟩ := ihb hc.2.1 hd.2.1 hbody hbody' hinner hinner' hrest
      obtain ⟨rfl, hmore⟩ := ihn hc.2.2 hd.2.2 hnext hnext' hx hy hbehind
      obtain ⟨hcounter, hoperands⟩ := List.cons.inj hheads
      obtain rfl := Loop.eq_of_operands_eq (Element.var.inj hcounter) hoperands
      exact ⟨rfl, hmore⟩
    | _ => cases letter_eq_of_outlined hx hy h

theorem eq_of_outline_eq (hc : c.WellFormed) (hd : d.WellFormed)
    (hcs : ∀ e ∈ c.elements, e.IsFinite) (hds : ∀ e ∈ d.elements, e.IsFinite)
    (h : c.document.outline = d.document.outline) : c.document = d.document := by
  have houtlined := congrArg String.toList h
  rw [outline_document, outline_document, List.append_cancel_left_eq] at houtlined
  obtain ⟨rfl, -⟩ := outlined_append_inj hc hd hcs hds (endsParts_nil 1) (endsParts_nil 1)
    (congrArg (· ++ []) houtlined)
  rfl

/-- Parsed documents without infinities and negative zeros are equal exactly if their canonical
sources are the same, and exactly if their outlines are. -/
theorem sameValue_iff_source_iff_outline {source source' : String} {d d' : Document}
    (hparse : Document.parse source = .ok d) (hparse' : Document.parse source' = .ok d')
    (hd : ∀ e ∈ d.elements, e.isInfinite = false ∧ e.isNegativeZero = false)
    (hd' : ∀ e ∈ d'.elements, e.isInfinite = false ∧ e.isNegativeZero = false) :
    (d.sameValue d' ↔ d.source = d'.source) ∧ (d.source = d'.source ↔ d.outline = d'.outline) := by
  obtain ⟨c, hc, rfl, hspaced, hnumbers⟩ := spaced_of_parse hparse
  obtain ⟨c', hc', rfl, hspaced', hnumbers'⟩ := spaced_of_parse hparse'
  have hsame : c.document.sameValue c'.document ↔ c.document = c'.document := by
    constructor
    · exact Document.eq_of_sameValue (fun e he => (hd e he).2) (fun e he => (hd' e he).2)
    · rintro heq
      rw [← heq]
      exact Document.sameValue_self ((Content.elements_document c).symm ▸ hnumbers)
  rw [Content.elements_document] at hd hd'
  have hsource : c.document.source = c'.document.source ↔ c.document = c'.document := by
    refine ⟨fun h => ?_, congrArg Document.source⟩
    have hread := parse_source_of_finite hc hspaced hnumbers fun e he => (hd e he).1
    rw [h, parse_source_of_finite hc' hspaced' hnumbers' fun e he => (hd' e he).1] at hread
    exact (Except.ok.inj hread).symm
  have houtline : c.document.outline = c'.document.outline ↔ c.document = c'.document := by
    refine ⟨eq_of_outline_eq hc hc' (fun e he => ?_) (fun e he => ?_), congrArg Document.outline⟩
    · exact ⟨(hd e he).1, hnumbers e he⟩
    · exact ⟨(hd' e he).1, hnumbers' e he⟩
  exact ⟨hsame.trans hsource.symm, hsource.trans houtline.symm⟩

/-- A string that holds what looks like a line of the outline is not mistaken for that line. -/
theorem source_and_outline_of_string : ∃ d d' d'',
    Document.parse "\x7b$= \"x\\n  Echo 1\" $\x7d" = .ok d ∧
    Document.parse "\x7b$=\"x\n  Echo 1\"$\x7d" = .ok d' ∧
    Document.parse "\x7b$= \"x\" $\x7d\x7b$= 1 $\x7d" = .ok d'' ∧
    (d.sameValue d' ∧ d.source = d'.source ∧ d.outline = d'.outline) ∧
    (d.sameValue d'' = false ∧ d.source ≠ d''.source ∧ d.outline ≠ d''.outline) := by
  have hparse : Document.parse "\x7b$= \"x\\n  Echo 1\" $\x7d" =
      .ok ⟨#[.root #[1], .echo [.string "x\n  Echo 1"]]⟩ := by
    decide +kernel
  have hparse' : Document.parse "\x7b$=\"x\n  Echo 1\"$\x7d" =
      .ok ⟨#[.root #[1], .echo [.string "x\n  Echo 1"]]⟩ := by
    decide +kernel
  have hparse'' : Document.parse "\x7b$= \"x\" $\x7d\x7b$= 1 $\x7d" =
      .ok ⟨#[.root #[1, 2], .echo [.string "x"], .echo [.int 1]]⟩ := by
    decide +kernel
  have hsame := sameValue_iff_source_iff_outline hparse hparse' (by decide) (by decide)
  have hother := sameValue_iff_source_iff_outline hparse hparse'' (by decide) (by decide)
  refine ⟨_, _, _, hparse, hparse', hparse'', ?_, ?_⟩
  · have hvalue := hsame.1.1 (by decide)
    exact ⟨by decide, hvalue, hsame.2.1 hvalue⟩
  · have hvalue := fun h => Bool.false_ne_true (hother.1.2 h)
    exact ⟨by decide, hvalue, fun h => hvalue (hother.2.2 h)⟩

end Template
