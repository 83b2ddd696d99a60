import Template.Proofs.TokenStream

/-! Tokens tile their source. -/
namespace Template

open String Token Character

/-- The tokens mark the characters one behind the other. Between two of them there may be blanks,
inside a tag and if blanks are not kept. Only the end of input marks nothing. -/
inductive Tiles (keep : Bool) : List Char → List Token → Prop
  | nil : Tiles keep [] []
  | concat {given gap raw : List Char} {ts : List Token} {t : Token} (htiles : Tiles keep given ts)
      (hcovers : t.span.Covers (given ++ gap) raw) (hblank : ∀ c ∈ gap, isBlank c)
      (hgap : gap ≠ [] → keep = false ∧ EndsInTag (ts.map Token.kind))
      (hempty : raw = [] ↔ t.kind = .eof) : Tiles keep (given ++ gap ++ raw) (ts ++ [t])

/-- The byte at which the tokens end. -/
def stopOf (ts : List Token) : Nat := (ts.getLast?.map fun t => t.span.stop).getD 0

variable {keep : Bool} {given source cs : List Char} {ts us vs : List Token} {t : Token}

theorem stopOf_concat (ts : List Token) (t : Token) : stopOf (ts ++ [t]) = t.span.stop := by
  simp [stopOf]

namespace Tiles

theorem stopOf_eq (h : Tiles keep given ts) : stopOf ts = utf8Len given := by
  cases h with
  | nil => rfl
  | concat _ hcovers => rw [stopOf_concat, hcovers.stop]

theorem of_append (h : Tiles keep given (ts ++ us)) : ∃ front, front <+: given ∧
    Tiles keep front ts := by
  induction us using List.reverseRecOn generalizing given with
  | nil => exact ⟨given, List.prefix_refl _, by simpa using h⟩
  | append_singleton us u ih =>
    rw [← List.append_assoc] at h
    generalize hall : ts ++ us ++ [u] = all at h
    cases h with
    | nil => simp at hall
    | @concat front gap raw vs v htiles =>
      obtain ⟨rfl, -⟩ := List.append_inj' hall rfl
      obtain ⟨front', hpre, htiles'⟩ := ih htiles
      rw [List.append_assoc]
      exact ⟨front', hpre.trans (List.prefix_append _ _), htiles'⟩

/-- Without gaps the tokens' characters are all that has been given. -/
theorem flatMap_slice (h : Tiles true given ts) {rest : List Char} (hsource : given ++ rest = source) :
    ts.flatMap (fun t => t.span.slice source) = given := by
  induction h generalizing rest with
  | nil => rfl
  | @concat given gap raw ts t htiles hcovers hblank hgap hempty ih =>
    have hnil : gap = [] := by
      by_contra hne
      cases (hgap hne).1
    subst hnil
    rw [List.append_nil] at hcovers hsource ⊢
    rw [List.flatMap_append, ih (by rw [← hsource, List.append_assoc])]
    rw [← hsource, List.flatMap_singleton, hcovers.slice rest]

/-- The end of input is empty and lies behind all that has been given. -/
theorem offset_of_eof (h : Tiles keep given (ts ++ [t])) (ht : t.kind = .eof) :
    t.span.start.offset = utf8Len given ∧ t.span.stop = utf8Len given := by
  generalize hall : ts ++ [t] = all at h
  cases h with
  | nil => simp at hall
  | @concat given gap raw ts u htiles hcovers hblank hgap hempty =>
    obtain ⟨-, hu⟩ := List.append_inj' hall rfl
    obtain rfl := (List.cons.inj hu).1
    obtain rfl := hempty.2 ht
    exact ⟨by rw [List.append_nil, hcovers.start.offset], hcovers.stop⟩

theorem isBehind_of_eof (h : Tiles keep given (ts ++ [t])) (ht : t.kind = .eof) :
    t.span.start.IsBehind given := by
  generalize hall : ts ++ [t] = all at h
  cases h with
  | nil => simp at hall
  | @concat given gap raw ts u htiles hcovers hblank hgap hempty =>
    obtain ⟨-, hu⟩ := List.append_inj' hall rfl
    obtain rfl := (List.cons.inj hu).1
    obtain rfl := hempty.2 ht
    rw [List.append_nil]
    exact hcovers.start

theorem covers (h : Tiles keep given (us ++ t :: vs)) : ∃ before gap raw,
    before ++ gap ++ raw <+: given ∧ utf8Len before = stopOf us ∧
    t.span.Covers (before ++ gap) raw ∧ (∀ c ∈ gap, isBlank c) ∧
    (gap ≠ [] → keep = false ∧ EndsInTag (us.map Token.kind)) := by
  have hsplit : us ++ t :: vs = (us ++ [t]) ++ vs := by simp
  rw [hsplit] at h
  obtain ⟨front, hpre, hfront⟩ := h.of_append
  generalize hall : us ++ [t] = all at hfront
  cases hfront with
  | nil => simp at hall
  | @concat before gap raw ts u htiles hcovers hblank hgap =>
    obtain ⟨rfl, hu⟩ := List.append_inj' hall rfl
    obtain rfl := (List.cons.inj hu).1
    exact ⟨before, gap, raw, hpre, htiles.stopOf_eq.symm, hcovers, hblank, hgap⟩

/-- What lies between a token and those before it. -/
theorem gap (h : Tiles keep given (us ++ t :: vs)) (hsource : given <+: source) :
    (us = [] → t.span.start.offset = 0) ∧ stopOf us ≤ t.span.start.offset ∧
      (keep = true → t.span.start.offset = stopOf us) ∧
      (∀ c ∈ takeBytes (t.span.start.offset - stopOf us) (dropBytes (stopOf us) source),
        isBlank c) ∧
      (stopOf us < t.span.start.offset → EndsInTag (us.map Token.kind)) := by
  obtain ⟨before, gap, raw, hpre, hstop, hcovers, hblank, hgap⟩ := h.covers
  obtain ⟨rest, rfl⟩ := hpre.trans hsource
  have hstart : t.span.start.offset = stopOf us + utf8Len gap := by
    rw [hcovers.start.offset, utf8Len_append, hstop]
  have hnone : gap = [] → t.span.start.offset = stopOf us := by
    rintro rfl
    rw [hstart, utf8Len_nil, Nat.add_zero]
  refine ⟨?_, by omega, ?_, ?_, ?_⟩
  · rintro rfl
    refine hnone ?_
    by_contra hne
    exact not_endsInTag_nil (hgap hne).2
  · rintro rfl
    refine hnone ?_
    by_contra hne
    cases (hgap hne).1
  · rw [hcovers.start.offset, ← hstop, List.append_assoc _ raw rest, takeBytes_between]
    exact hblank
  · intro hlt
    refine (hgap ?_).2
    intro hnil
    exact Nat.ne_of_gt hlt (hnone hnil)

end Tiles

namespace Reader

variable {r s : Reader} {source : String} {held : List Char}

theorem Reads.tiles (h : ((ofSource source).keepBlanks keep).Reads ts s) :
    ∃ given held, s.StandsAt source.toList given held ∧ Tiles keep given ts := by
  induction ts using List.reverseRecOn generalizing s with
  | nil =>
    cases h
    exact ⟨[], [], standsAt_start source keep, .nil⟩
  | append_singleton ts t ih =>
    obtain ⟨u, hts, hnext⟩ := h.of_concat
    obtain ⟨given, held, hu, htiles⟩ := ih hts
    obtain ⟨gap, raw, held', hcontinues, hs⟩ := standsAt_of_next_ok hu hnext
    have hgap : gap ≠ [] → keep = false ∧ EndsInTag (ts.map Token.kind) := by
      intro hne
      obtain ⟨hpending, hmode, hskips⟩ := hcontinues.skips hne
      obtain ⟨hbehind, hkeep⟩ := hts.behind
      exact ⟨hkeep.symm.trans hskips, hbehind.endsInTag hpending hmode⟩
    exact ⟨given ++ gap ++ raw, held', hs,
      .concat htiles hcontinues.covers hcontinues.blank hgap hcontinues.empty_iff⟩

theorem Step.of_eof (hr : r.StandsAt cs given held) (h : r.Step t s) (ht : t.kind = .eof) :
    r.pending = none ∧ r.mode = .text ∧ r.rest = [] ∧ s = { r with ended := true } := by
  cases h with
  | pending hpending => exact ((hr.pending t hpending).2.2 ht).elim
  | eof hpending hmode hrest => exact ⟨hpending, hmode, hrest, rfl⟩
  | opening => cases ht
  | text _ _ hne hends hlex =>
    obtain rfl : _ = Kind.eof := ht
    cases (Lexeme.ofText_eq_ok hne hends hlex).1
  | blanks => cases ht
  | closing => cases ht
  | inTag _ _ _ _ hlex =>
    obtain rfl : _ = Kind.eof := ht
    cases (Lexeme.ofTag_eq_ok hlex).1

theorem StandsAt.given_eq (hs : s.StandsAt source.toList given held)
    (h : ((ofSource source).keepBlanks keep).Reads (ts ++ [t]) s) (ht : t.kind = .eof) :
    given = source.toList := by
  obtain ⟨r, hts, hnext⟩ := h.of_concat
  obtain ⟨given', held', hr, -⟩ := hts.tiles
  obtain ⟨-, u, hstep, rfl⟩ := step_of_next hnext
  obtain ⟨hpending, -, hrest, rfl⟩ := hstep.of_eof hr ht
  have hsource := (hs.consumed_of_nothing hpending).2.source_eq
  rwa [hrest, List.append_nil] at hsource

/-- The tokens of a run tile the beginning of the source, and all of it if the run does not fail.
Each begins where the one before it ends, or behind blanks inside a tag that are left out. -/
theorem tokens_tile (source : String) (keep : Bool) :
    let run := ((ofSource source).keepBlanks keep).run
    ∃ given, given <+: source.toList ∧ Tiles keep given run.tokens ∧
      (run.failure = none → given = source.toList ∧ ∃ us t, run.tokens = us ++ [t] ∧
        t.kind = .eof ∧ t.span.start.offset = source.utf8ByteSize ∧
        t.span.stop = source.utf8ByteSize) ∧
      (∀ us t vs, run.tokens = us ++ t :: vs →
        (us = [] → t.span.start.offset = 0) ∧ stopOf us ≤ t.span.start.offset ∧
        (keep = true → t.span.start.offset = stopOf us) ∧
        (∀ c ∈ takeBytes (t.span.start.offset - stopOf us) (dropBytes (stopOf us) source.toList),
          isBlank c) ∧
        (stopOf us < t.span.start.offset → EndsInTag (us.map Token.kind))) ∧
      (keep = true → run.tokens.flatMap (fun t => t.span.slice source.toList) = given) := by
  intro run
  obtain ⟨s, hreads, hend⟩ := ((ofSource source).keepBlanks keep).reads_run
  obtain ⟨given, held, hs, htiles⟩ := hreads.tiles
  have hsource : given ++ (held ++ s.rest) = source.toList := by
    rw [← List.append_assoc, hs.consumed.source_eq]
  refine ⟨given, ⟨held ++ s.rest, hsource⟩, htiles, ?_, ?_, ?_⟩
  · intro hfailure
    obtain ⟨us, t, htokens, ht⟩ := hend hfailure
    rw [htokens] at hreads htiles
    obtain rfl := hs.given_eq hreads ht
    rw [← String.utf8Len_toList]
    exact ⟨rfl, us, t, htokens, ht, htiles.offset_of_eof ht⟩
  · intro us t vs hrun
    have htiles' : Tiles keep given (us ++ t :: vs) := hrun ▸ htiles
    exact htiles'.gap ⟨held ++ s.rest, hsource⟩
  · rintro rfl
    exact htiles.flatMap_slice hsource

/-- A tag with a blank before its name, which is left out. -/
theorem tokens_tile_blank :
    let run := ((ofSource "a\x7b$ é$\x7d").keepBlanks false).run
    run.failure = none ∧ Tiles false "a\x7b$ é$\x7d".toList run.tokens ∧
      ∃ us t vs, run.tokens = us ++ t :: vs ∧ stopOf us = 3 ∧ t.span.start.offset = 4 ∧
        EndsInTag (us.map Token.kind) := by
  intro run
  have hrun : run = ⟨[⟨.text "a", ⟨⟨0, 1, 1⟩, 1⟩⟩, ⟨.tagOpen, ⟨⟨1, 1, 2⟩, 2⟩⟩,
      ⟨.tagMark, ⟨⟨2, 1, 3⟩, 3⟩⟩] ++ ⟨.identifier "é", ⟨⟨4, 1, 5⟩, 6⟩⟩ ::
      [⟨.tagMark, ⟨⟨6, 1, 6⟩, 7⟩⟩, ⟨.tagClose, ⟨⟨7, 1, 7⟩, 8⟩⟩, ⟨.eof, ⟨⟨8, 1, 8⟩, 8⟩⟩],
      none⟩ := by
    decide +kernel
  have hfailure : run.failure = none := congrArg Run.failure hrun
  obtain ⟨given, -, htiles, hwhole, hgaps, -⟩ := tokens_tile "a\x7b$ é$\x7d" false
  obtain ⟨rfl, -⟩ := hwhole hfailure
  obtain ⟨-, -, -, -, htag⟩ := hgaps _ _ _ (congrArg Run.tokens hrun)
  exact ⟨hfailure, htiles, _, _, _, congrArg Run.tokens hrun, rfl, rfl, htag (by decide)⟩

end Reader

end Template
