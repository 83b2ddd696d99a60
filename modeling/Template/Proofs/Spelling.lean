import Template.Proofs.Rereading

/-! Trees spelled out, with numerals in place of the words for infinities. -/
namespace Template

open Token Character

namespace Numeral

/-- One with 309 zeros, too large for any finite double. -/
def beyond (negative : Bool) : Numeral := ⟨negative, '1' :: List.replicate 309 '0', ['0']⟩

theorem wellFormed_beyond (negative : Bool) : (beyond negative).WellFormed where
  nonempty := List.cons_ne_nil _ _
  whole c hc := by
    rcases List.mem_cons.1 hc with rfl | hc
    · rfl
    · rw [List.eq_of_mem_replicate hc]
      rfl
  fraction c hc := by
    rw [List.mem_singleton.1 hc]
    rfl

theorem double_beyond (negative : Bool) :
    (beyond negative).double = .ofMagnitude negative Double.infinite := by
  cases negative <;> decide +kernel

end Numeral

/-- The element as it is read: as a canonical source has it, or as a numeral beyond all doubles. -/
def Element.spelling (e : Element) : List Char :=
  if e.isInfinite then (Numeral.beyond e.isNegativeInfinity).raw else e.source

/-- A tag with a name and elements, each behind a space. -/
def tagSpelling (name : Keyword) (es : List Element) : List Char :=
  ['{', '$', ' '] ++ name.text.toList ++ es.flatMap (' ' :: ·.spelling) ++ [' ', '$', '}']

def Content.spelling : Content → List Char
  | nil => []
  | text value next => Escape.encodeText value.toList ++ next.spelling
  | echo elements next => tagSpelling .echo elements ++ next.spelling
  | loop head body next =>
    tagSpelling .loop (.var head.counter :: head.operands) ++
      (body.spelling ++ (Source.endLoop ++ next.spelling))

variable {e : Element} {es : List Element} {c : Content} {name : Keyword} {p : Position}
  {more rest : List Char}

theorem Element.kind_eq_double_of_isInfinite (h : e.isInfinite) :
    e.kind = .double (.ofMagnitude e.isNegativeInfinity Double.infinite) := by
  cases e with
  | double x =>
    have hinfinite : x.isInfinite := h
    have hmagnitude : x.magnitude = Double.infinite := by
      simpa [Double.isInfinite] using hinfinite
    rw [kind, isNegativeInfinity, hinfinite, Bool.true_and, ← hmagnitude, Double.ofMagnitude_eta]
  | _ => cases h

theorem Element.spelling_infinity (negative : Bool) :
    (Element.double (.ofMagnitude negative Double.infinite)).spelling =
      (Numeral.beyond negative).raw := by
  cases negative <;> exact if_pos (by decide)

theorem Element.spelling_var (name : Name) : (Element.var name).spelling = name.text.toList := rfl

theorem Lexeme.ofTag_spelling (hnumber : e.isNaN = false) (hmore : Separated more) :
    ofTag false (e.spelling ++ more) = ⟨e.spelling, more, .ok e.kind⟩ := by
  by_cases hinfinite : e.isInfinite
  · have hfraction := ofTag_fraction false (Numeral.wellFormed_beyond e.isNegativeInfinity)
      (List.cons_ne_nil _ _) hmore
    rw [Element.spelling, if_pos hinfinite, hfraction, Numeral.double_beyond,
      Element.kind_eq_double_of_isInfinite hinfinite]
  · rw [Element.spelling, if_neg hinfinite]
    exact ofTag_source (Bool.not_eq_true _ ▸ hinfinite) hnumber hmore

theorem Lexeme.ofTag_name (name : Keyword) (hmore : Separated more) :
    ofTag true (name.text.toList ++ more) = ⟨name.text.toList, more, .ok (.keyword name)⟩ := by
  have hend := hmore.endsClass fun _ => isNameChar_eq_false_of_isBlank
  cases name with
  | loop => exact ofTag_word true ⟨"FOR", by decide⟩ hend
  | endLoop => exact ofTag_word true ⟨"END", by decide⟩ hend
  | echo => rfl

namespace Spot

variable {x y z : Spot} {ks ls : List Kind}

/-- The tokens from one spot to the other are of these kinds. -/
def Yields (x : Spot) (ks : List Kind) (y : Spot) : Prop :=
  ∃ marks, x.Gives marks y ∧ marks.map Prod.fst = ks

theorem Yields.nil : x.Yields [] x := ⟨[], .nil, rfl⟩

theorem Yields.append (h : x.Yields ks y) (h' : y.Yields ls z) : x.Yields (ks ++ ls) z := by
  obtain ⟨marks, hgives, rfl⟩ := h
  obtain ⟨marks', hgives', rfl⟩ := h'
  exact ⟨marks ++ marks', hgives.append hgives', List.map_append⟩

theorem yields_elements (hnumbers : ∀ e ∈ es, e.isNaN = false) (hmore : Separated more)
    (p : Position) : Yields ⟨.tag, false, p, es.flatMap (' ' :: ·.spelling) ++ more⟩
      (es.map Element.kind) ⟨.tag, false, p.after (es.flatMap (' ' :: ·.spelling)), more⟩ := by
  induction es generalizing p with
  | nil => exact .nil
  | cons e es ih =>
    obtain ⟨he, hes⟩ := List.forall_mem_cons.1 hnumbers
    have hlex := Lexeme.ofTag_spelling he (separated_spaced Element.spelling es hmore)
    have hfirst : Yields _ [e.kind] _ :=
      ⟨_, gives_lexeme (p := p) forall_blank_space hlex e.kind_ne_other, rfl⟩
    simpa using hfirst.append (ih hes _)

theorem yields_tag (hnumbers : ∀ e ∈ es, e.isNaN = false) (name : Keyword) (p : Position)
    (rest : List Char) : Yields ⟨.text, false, p, tagSpelling name es ++ rest⟩
      (tagKinds (.keyword name :: es.map Element.kind))
      ⟨.text, false, p.after (tagSpelling name es), rest⟩ := by
  have hclosing : Separated (' ' :: '$' :: '}' :: rest) := .cons rfl
  have hlex := Lexeme.ofTag_name name (separated_spaced Element.spelling es hclosing)
  obtain ⟨marks, helements, hkinds⟩ := yields_elements hnumbers hclosing _
  have hname := gives_lexeme (p := p.after ['{', '$']) forall_blank_space hlex (by simp)
  have htag := gives_enclosed (' ' :: name.text.toList ++ es.flatMap (' ' :: ·.spelling))
    forall_blank_space (by simpa using hname.append helements)
  refine ⟨_, by simpa [tagSpelling] using htag, ?_⟩
  simp [tagMarks, tagKinds, hkinds]

theorem atTag_spelling {c : Content} (hc : c.beginsWithText = false)
    (hmore : Escape.AtTag more) : Escape.AtTag (c.spelling ++ more) := by
  cases c with
  | nil => exact hmore
  | text value next => cases hc
  | echo elements next => exact .inr rfl
  | loop head body next => exact .inr rfl

/-- In front of a tag or the end of input, a spelling of the parts gives their tokens. -/
theorem yields_spelling (hspaced : c.Spaced) (hnumbers : ∀ e ∈ c.elements, e.isNaN = false)
    (p : Position) (more : List Char) (hmore : Escape.AtTag more) :
    Yields ⟨.text, false, p, c.spelling ++ more⟩ c.kinds
      ⟨.text, false, p.after c.spelling, more⟩ := by
  induction c generalizing p more with
  | nil => exact .nil
  | text value next ih =>
    obtain ⟨hvalue, hnext, hspaced⟩ := hspaced
    have hchars : value.toList ≠ [] := by simpa using hvalue
    have htag := atTag_spelling hnext hmore
    have htext := gives_text (p := p) (by simp [Escape.encodeText_ne_nil hchars])
      (Escape.ends_encodeText hchars htag) (Lexeme.ofText_encodeText value.toList htag)
    rw [String.ofList_toList] at htext
    have hfirst : Yields _ [.text value] _ := ⟨_, htext, rfl⟩
    simpa [Content.spelling, Content.kinds] using
      hfirst.append (ih hspaced hnumbers _ more hmore)
  | echo elements next ih =>
    obtain ⟨helements, hrest⟩ := List.forall_mem_append.1 hnumbers
    have htag := yields_tag helements .echo p (next.spelling ++ more)
    simpa [Content.spelling, Content.kinds, echoKinds] using
      htag.append (ih hspaced hrest _ more hmore)
  | loop head body next ihb ihn =>
    simp only [Content.elements, List.forall_mem_append] at hnumbers
    obtain ⟨hhead, hinner, hrest⟩ := hnumbers
    obtain ⟨hbody, hnext⟩ := hspaced
    have hoperands : ∀ e ∈ Element.var head.counter :: head.operands, e.isNaN = false :=
      List.forall_mem_cons.2 ⟨rfl, hhead⟩
    have hstart := yields_tag hoperands .loop p
      (body.spelling ++ (Source.endLoop ++ (next.spelling ++ more)))
    have hinside := hstart.append (ihb hbody hinner _ _ (.inr rfl))
    have hend := hinside.append ⟨_, gives_endLoop _ _, rfl⟩
    have hbehind := hend.append (ihn hnext hrest _ more hmore)
    simpa [Content.spelling, Content.kinds, Loop.kinds, endKinds, tagKinds, endMarks, tagMarks,
      Element.kind] using hbehind

end Spot

/-- Each spaced tree without doubles that are no numbers is what its spelling parses to. -/
theorem parse_spelling (hc : c.WellFormed) (hspaced : c.Spaced)
    (hnumbers : ∀ e ∈ c.elements, e.isNaN = false) :
    Document.parse (String.ofList c.spelling) = .ok c.document := by
  obtain ⟨marks, hgives, hkinds⟩ := Spot.yields_spelling hspaced hnumbers {} [] (.inl rfl)
  rw [List.append_nil] at hgives
  exact parse_of_gives hc hgives hkinds

end Template
