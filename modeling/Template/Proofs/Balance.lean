import Template.Proofs.Tiling

/-! Loops opened and closed: whether well-formed tags parse is a matter of counting. -/
namespace Template

open Token

/-- Literal text or one tag. -/
inductive Piece
  | text (value : String)
  | echo (elements : List Element)
  | loop (head : Loop)
  | endLoop
deriving DecidableEq

namespace Piece

def kinds : Piece → List Kind
  | text value => [.text value]
  | echo elements => echoKinds elements
  | loop head => head.kinds
  | endLoop => endKinds

/-- An echo is not empty, and a loop has operands of the right sorts. -/
def WellFormed : Piece → Prop
  | text _ | endLoop => True
  | echo elements => elements ≠ []
  | loop head => head.WellFormed

def opens : Piece → Bool
  | loop _ => true
  | text _ | echo _ | endLoop => false

def closes : Piece → Bool
  | endLoop => true
  | text _ | echo _ | loop _ => false

def openings (ps : List Piece) : Nat := ps.countP opens

def closings (ps : List Piece) : Nat := ps.countP closes

/-- Nowhere have more loops been closed than opened. -/
def Covered (ps : List Piece) : Prop := ∀ front, front <+: ps → closings front ≤ openings front

variable {p : Piece} {ps : List Piece}

theorem openings_concat (ps : List Piece) (p : Piece) :
    openings (ps ++ [p]) = openings ps + p.opens.toNat := by
  cases p <;> simp [openings, opens]

theorem closings_concat (ps : List Piece) (p : Piece) :
    closings (ps ++ [p]) = closings ps + p.closes.toNat := by
  cases p <;> simp [closings, closes]

theorem covered_nil : Covered [] := by
  intro front hfront
  rw [List.prefix_nil.1 hfront]
  exact Nat.le_refl 0

theorem Covered.le (h : Covered ps) : closings ps ≤ openings ps := h ps (List.prefix_refl ps)

theorem covered_concat_iff :
    Covered (ps ++ [p]) ↔ Covered ps ∧ closings (ps ++ [p]) ≤ openings (ps ++ [p]) := by
  constructor
  · intro h
    refine ⟨fun front hfront => ?_, h.le⟩
    exact h front (hfront.trans (List.prefix_append ps [p]))
  · rintro ⟨h, hle⟩ front hfront
    rcases List.prefix_concat_iff.1 hfront with rfl | hfront
    · exact hle
    · exact h front hfront

/-- Where more loops are closed than opened, there is a first end that has no loop to close. -/
theorem exists_first_stray (h : ¬ Covered ps) : ∃ before after, ps = before ++ .endLoop :: after ∧
    Covered before ∧ openings before < closings (before ++ [.endLoop]) := by
  induction ps using List.reverseRecOn with
  | nil => exact (h covered_nil).elim
  | append_singleton ps p ih =>
    by_cases hps : Covered ps
    · have hlt : openings (ps ++ [p]) < closings (ps ++ [p]) := by
        rw [covered_concat_iff, not_and, Nat.not_le] at h
        exact h hps
      have hle := hps.le
      rw [openings_concat, closings_concat] at hlt
      cases p with
      | endLoop =>
        refine ⟨ps, [], rfl, hps, ?_⟩
        rwa [closings_concat]
      | text value => exact (Nat.not_lt.2 hle hlt).elim
      | echo elements => exact (Nat.not_lt.2 hle hlt).elim
      | loop head =>
        simp only [opens, closes, Bool.toNat_true, Bool.toNat_false] at hlt
        omega
    · obtain ⟨before, after, rfl, hbefore⟩ := ih hps
      exact ⟨before, after ++ [p], by simp, hbefore⟩

end Piece

namespace OpenLoops

theorem length_numbers (loops : OpenLoops) : (numbers loops).length = loops.length := by
  induction loops with
  | nil => rfl
  | cons f outer ih => rw [numbers, List.length_cons, ih, List.length_cons]

end OpenLoops

namespace Builder

open Piece

variable {ps : List Piece} {p : Piece} {ts : List Token} {t : Token} {loops : OpenLoops}
  {c : Content}

/-- A piece changes how many loops are open by what it opens and closes. -/
theorem feedAll_piece (hp : p.WellFormed) (hclose : p.closes.toNat ≤ loops.length)
    (h : ts.map Token.kind = p.kinds) :
    ∃ loops' c', (inside loops c .between).feedAll ts = .ok (.ongoing (inside loops' c' .between)) ∧
      loops'.length + p.closes.toNat = loops.length + p.opens.toNat := by
  cases p with
  | text value =>
    obtain ⟨t, us, rfl, ht, hus⟩ := List.map_eq_cons_iff.1 h
    rw [List.map_eq_nil_iff] at hus
    subst hus
    rw [feedAll_cons (feed_of_step (.text rfl ht)), addLeaf_text]
    exact ⟨_, _, rfl, rfl⟩
  | echo elements => exact ⟨_, _, feedAll_echo hp h, rfl⟩
  | loop head => exact ⟨_, _, feedAll_loop hp h, rfl⟩
  | endLoop =>
    cases loops with
    | nil => cases hclose
    | cons f outer => exact ⟨_, _, feedAll_end h, rfl⟩

/-- The loops that are open behind some pieces are those opened and not closed. -/
theorem feedAll_pieces (hps : ∀ p ∈ ps, p.WellFormed) (hcovered : Covered ps)
    (h : ts.map Token.kind = ps.flatMap kinds) :
    ∃ loops c, initial.feedAll ts = .ok (.ongoing (inside loops c .between)) ∧
      loops.length + closings ps = openings ps := by
  induction ps using List.reverseRecOn generalizing ts with
  | nil =>
    rw [List.flatMap_nil, List.map_eq_nil_iff] at h
    subst h
    exact ⟨[], .nil, rfl, rfl⟩
  | append_singleton ps p ih =>
    rw [List.forall_mem_append, List.forall_mem_singleton] at hps
    obtain ⟨hcovered, hle⟩ := covered_concat_iff.1 hcovered
    rw [List.flatMap_append, List.flatMap_singleton] at h
    obtain ⟨us, vs, rfl, hus, hvs⟩ := List.map_eq_append_iff.1 h
    obtain ⟨loops, c, hfeed, hdepth⟩ := ih hps.1 hcovered hus
    rw [openings_concat, closings_concat] at hle
    have hclose : p.closes.toNat ≤ loops.length := by
      cases p with
      | endLoop =>
        simp only [opens, closes, Bool.toNat_true, Bool.toNat_false] at hle ⊢
        omega
      | _ => exact Nat.zero_le loops.length
    obtain ⟨loops', c', hfeed', hdepth'⟩ := feedAll_piece (c := c) hps.2 hclose hvs
    refine ⟨loops', c', ?_, ?_⟩
    · rw [feedAll_append hfeed, hfeed']
    · rw [openings_concat, closings_concat]
      omega

theorem feedAll_strayEnd (h : ts.map Token.kind = endKinds) : ∃ us t vs, ts = us ++ t :: vs ∧
    us.map Token.kind = [.tagOpen, .tagMark] ∧ t.kind = .keyword .endLoop ∧
    (inside [] c .between).feedAll ts = .error ⟨.strayEnd, t.span.start⟩ := by
  obtain ⟨t₁, t₂, us, t₃, t₄, rfl, h₁, h₂, hus, h₃, h₄⟩ := exists_of_map_tagKinds h
  obtain ⟨t, us, rfl, ht, hnil⟩ := List.map_eq_cons_iff.1 hus
  rw [List.map_eq_nil_iff] at hnil
  subst hnil
  refine ⟨[t₁, t₂], t, [t₃, t₄], rfl, by simp [h₁, h₂], ht, ?_⟩
  rw [List.append_assoc, feedAll_append (feedAll_open h₁ h₂), List.singleton_append,
    feedAll_enters (.endName ht), feedAll_enters (.closingEnd h₃)]
  simp [feedAll, feed, inside, closeLoop, OpenLoops.numbers, h₄]

theorem feedAll_eof (ht : t.kind = .eof) : (inside loops c .between).feedAll [t] =
    if loops = [] then .ok (.complete (loops.document c))
    else .error ⟨.openLoops loops.length, t.span.start⟩ := by
  cases loops with
  | nil => simp [feedAll, feed, feedBetween, finish, inside, OpenLoops.numbers, ht]
  | cons f outer =>
    simp [feedAll, feed, feedBetween, finish, inside, OpenLoops.numbers, OpenLoops.length_numbers, ht]

end Builder

/-- The end of input is found behind all characters of the source. -/
theorem Reader.Reads.place_of_eof {source : String} {ts : List Token} {t : Token} {s : Reader}
    (h : (ofSource source).Reads (ts ++ [t]) s) (ht : t.kind = .eof) :
    t.span.start = Position.after {} source.toList := by
  have hreads : ((ofSource source).keepBlanks false).Reads (ts ++ [t]) s := h
  obtain ⟨given, held, hs, htiles⟩ := hreads.tiles
  obtain rfl := hs.given_eq hreads ht
  exact (htiles.isBehind_of_eof ht).eq (Position.isBehind_nil.after source.toList)

section Parse

open Piece

variable {source : String} {ps : List Piece}

theorem exists_run_of_tokenKinds {ks : List Kind} (htokens : tokenKinds source = .ok (ks ++ [.eof])) :
    ∃ ts t s, (Reader.ofSource source).run.tokens = ts ++ [t] ∧
      ts.map Token.kind = ks ∧ t.kind = .eof ∧ (Reader.ofSource source).Reads (ts ++ [t]) s := by
  obtain ⟨-, hkinds⟩ := tokenKinds_eq_ok_iff.1 htokens
  obtain ⟨ts, us, hrun, hts, hus⟩ := List.map_eq_append_iff.1 hkinds
  obtain ⟨t, _, rfl, ht, hnil⟩ := List.map_eq_cons_iff.1 hus
  rw [List.map_eq_nil_iff] at hnil
  subst hnil
  obtain ⟨s, hreads, -⟩ := (Reader.ofSource source).reads_run
  exact ⟨ts, t, s, hrun, hts, ht, hrun ▸ hreads⟩

theorem parse_of_reads {ts : List Token} {s : Reader} (h : (Reader.ofSource source).Reads ts s) :
    Document.parse source =
      match Builder.initial.feedAll ts with
      | .error e => .error e
      | .ok (.complete d) => .ok d
      | .ok (.ongoing c) => c.feedFrom s :=
  Builder.feedFrom_of_reads h

/-- Where every end has a loop to close, the parse fails only for loops that are still open. -/
theorem parse_of_covered (hps : ∀ p ∈ ps, p.WellFormed)
    (htokens : tokenKinds source = .ok (ps.flatMap kinds ++ [.eof])) (hcovered : Covered ps) :
    (openings ps = closings ps → ∃ d, Document.parse source = .ok d) ∧
      (closings ps < openings ps → Document.parse source =
        .error ⟨.openLoops (openings ps - closings ps), Position.after {} source.toList⟩) := by
  obtain ⟨ts, t, s, hrun, hts, ht, hreads⟩ := exists_run_of_tokenKinds htokens
  obtain ⟨loops, c, hfeed, hdepth⟩ := Builder.feedAll_pieces hps hcovered hts
  rw [parse_of_reads hreads, Builder.feedAll_append hfeed, Builder.feedAll_eof ht]
  by_cases hloops : loops = []
  · subst hloops
    rw [List.length_nil, Nat.zero_add] at hdepth
    rw [if_pos rfl]
    refine ⟨fun _ => ⟨_, rfl⟩, fun hlt => ?_⟩
    omega
  · have hpos := List.length_pos_iff.2 hloops
    have hcount : loops.length = openings ps - closings ps := by omega
    rw [if_neg hloops, hreads.place_of_eof ht, hcount]
    refine ⟨fun heq => ?_, fun _ => rfl⟩
    omega

/-- The first end that has no loop to close stops the parse. -/
theorem parse_of_stray {before after : List Piece}
    (hps : ∀ p ∈ before ++ .endLoop :: after, p.WellFormed)
    (htokens : tokenKinds source = .ok ((before ++ .endLoop :: after).flatMap kinds ++ [.eof]))
    (hcovered : Covered before) (hstray : openings before < closings (before ++ [.endLoop])) :
    ∃ us t vs, (Reader.ofSource source).run.tokens = us ++ t :: vs ∧
      us.map Token.kind = before.flatMap kinds ++ [.tagOpen, .tagMark] ∧
      t.kind = .keyword .endLoop ∧ Document.parse source = .error ⟨.strayEnd, t.span.start⟩ := by
  obtain ⟨ts, e, s, hrun, hts, -, hreads⟩ := exists_run_of_tokenKinds htokens
  rw [List.flatMap_append, List.flatMap_cons] at hts
  obtain ⟨front, back, rfl, hfront, hback⟩ := List.map_eq_append_iff.1 hts
  obtain ⟨tag, back, rfl, htag, -⟩ := List.map_eq_append_iff.1 hback
  obtain ⟨loops, c, hfeed, hdepth⟩ :=
    Builder.feedAll_pieces (fun p hp => hps p (List.mem_append_left _ hp)) hcovered hfront
  obtain rfl : loops = [] := by
    rw [closings_concat, closes, Bool.toNat_true] at hstray
    exact List.eq_nil_of_length_eq_zero (by omega)
  obtain ⟨us, t, vs, rfl, hus, ht, hstop⟩ := Builder.feedAll_strayEnd (c := c) htag
  refine ⟨front ++ us, t, vs ++ back ++ [e], ?_, ?_, ht, ?_⟩
  · rw [hrun]
    simp
  · rw [List.map_append, hfront, hus]
  · have herror : Builder.initial.feedAll (front ++ (us ++ t :: vs)) =
        .error ⟨.strayEnd, t.span.start⟩ := by
      rw [Builder.feedAll_append hfeed, hstop]
    have hsplit : front ++ (us ++ t :: vs ++ back) ++ [e] =
        front ++ (us ++ t :: vs) ++ (back ++ [e]) := by
      simp
    rw [parse_of_reads hreads, hsplit, Builder.feedAll_append_error herror]

/-- When each tag is well-formed by itself, a source parses exactly if no end comes without a loop
to close and all loops are closed. Otherwise the first end without a loop is reported at its tag
name, or else the number of loops left open at the end of the source. -/
theorem parse_of_balance (hps : ∀ p ∈ ps, p.WellFormed)
    (htokens : tokenKinds source = .ok (ps.flatMap kinds ++ [.eof])) :
    ((∃ d, Document.parse source = .ok d) ↔ Covered ps ∧ openings ps = closings ps) ∧
    (¬ Covered ps → ∃ before after, ps = before ++ .endLoop :: after ∧ Covered before ∧
      openings before < closings (before ++ [.endLoop]) ∧
      ∃ us t vs, (Reader.ofSource source).run.tokens = us ++ t :: vs ∧
        us.map Token.kind = before.flatMap kinds ++ [.tagOpen, .tagMark] ∧
        t.kind = .keyword .endLoop ∧ Document.parse source = .error ⟨.strayEnd, t.span.start⟩) ∧
    (Covered ps → closings ps < openings ps → Document.parse source =
      .error ⟨.openLoops (openings ps - closings ps), Position.after {} source.toList⟩) := by
  have hstray : ¬ Covered ps → ∃ before after, ps = before ++ .endLoop :: after ∧ Covered before ∧
      openings before < closings (before ++ [.endLoop]) ∧
      ∃ us t vs, (Reader.ofSource source).run.tokens = us ++ t :: vs ∧
        us.map Token.kind = before.flatMap kinds ++ [.tagOpen, .tagMark] ∧
        t.kind = .keyword .endLoop ∧ Document.parse source = .error ⟨.strayEnd, t.span.start⟩ := by
    intro hcovered
    obtain ⟨before, after, rfl, hbefore, hlt⟩ := exists_first_stray hcovered
    exact ⟨before, after, rfl, hbefore, hlt, parse_of_stray hps htokens hbefore hlt⟩
  refine ⟨⟨?_, ?_⟩, hstray, fun hcovered => (parse_of_covered hps htokens hcovered).2⟩
  · rintro ⟨d, hparse⟩
    by_cases hcovered : Covered ps
    · refine ⟨hcovered, ?_⟩
      by_contra hne
      have hlt : closings ps < openings ps := Nat.lt_of_le_of_ne hcovered.le (Ne.symm hne)
      cases hparse.symm.trans ((parse_of_covered hps htokens hcovered).2 hlt)
    · obtain ⟨_, _, _, _, _, _, _, _, _, _, _, herror⟩ := hstray hcovered
      cases hparse.symm.trans herror
  · rintro ⟨hcovered, heq⟩
    exact (parse_of_covered hps htokens hcovered).1 heq

/-- An end in front of the loop, and a loop without an end. -/
theorem parse_of_balance_reversed :
    (∃ t : Token, t.kind = .keyword .endLoop ∧
      Document.parse "\x7b$END$\x7d\x7b$FOR i 1 2$\x7d" = .error ⟨.strayEnd, t.span.start⟩) ∧
    Document.parse "\x7b$FOR i 1 2$\x7da" = .error ⟨.openLoops 1, ⟨14, 1, 15⟩⟩ := by
  let head : Loop := ⟨⟨"i", by decide⟩, .int 1, .int 2, none⟩
  have hhead : head.WellFormed := by
    simp [head, Loop.WellFormed, Loop.operands, Element.isLoopOperand]
  have hstray : tokenKinds "\x7b$END$\x7d\x7b$FOR i 1 2$\x7d" =
      .ok ([.endLoop, .loop head].flatMap kinds ++ [.eof]) := by
    decide +kernel
  have hopen : tokenKinds "\x7b$FOR i 1 2$\x7da" =
      .ok ([.loop head, .text "a"].flatMap kinds ++ [.eof]) := by
    decide +kernel
  refine ⟨?_, ?_⟩
  · have hcovered : ¬ Covered [.endLoop, .loop head] := by
      intro h
      exact Nat.not_succ_le_zero 0 (h [.endLoop] ⟨[.loop head], rfl⟩)
    obtain ⟨-, hfirst, -⟩ := parse_of_balance (by simp [Piece.WellFormed, hhead]) hstray
    obtain ⟨_, _, -, -, -, _, t, _, -, -, ht, herror⟩ := hfirst hcovered
    exact ⟨t, ht, herror⟩
  · have hloop : Covered ([] ++ [.loop head]) := covered_concat_iff.2 ⟨covered_nil, by decide⟩
    have hcovered : Covered ([.loop head] ++ [.text "a"]) :=
      covered_concat_iff.2 ⟨hloop, by decide⟩
    obtain ⟨-, -, hlast⟩ := parse_of_balance (by simp [Piece.WellFormed, hhead]) hopen
    exact hlast hcovered (by decide)

end Parse

end Template
