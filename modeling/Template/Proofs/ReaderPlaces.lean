import Mathlib.Data.List.TakeWhile
import Template.Proofs.Places
import Template.Proofs.TokenRuns

/-! Where a reader stands in its source, and where its tokens and errors lie. -/
namespace Template

open String Token Character

namespace Reader

/-- The reader has come behind these characters of the source. -/
structure HasConsumed (r : Reader) (source consumed : List Char) : Prop where
  source_eq : consumed ++ r.rest = source
  position : r.position.IsBehind consumed

/-- The reader has consumed the characters `given` of tokens and blanks, and the characters `held`
of the token that is pending. -/
structure StandsAt (r : Reader) (source given held : List Char) : Prop where
  consumed : r.HasConsumed source (given ++ held)
  pending : ∀ t ∈ r.pending, t.span.Covers given held ∧ held ≠ [] ∧ t.kind ≠ .eof
  nothing : r.pending = none → held = []

/-- The token comes behind the characters `given` and a gap of blanks, and its own ones are `raw`.
Only in a tag does a reader leave out blanks, and not where it has a token pending. -/
structure Continues (r : Reader) (t : Token) (given gap raw : List Char) : Prop where
  covers : t.span.Covers (given ++ gap) raw
  blank : ∀ c ∈ gap, isBlank c
  skips : gap ≠ [] → r.pending = none ∧ r.mode = .tag ∧ r.keepsBlanks = false
  empty_iff : raw = [] ↔ t.kind = .eof

variable {r s : Reader} {t : Token} {e : LexicalError}
  {source consumed given held raw rest : List Char} {a b : Char} {k l : Kind} {mode : Mode}

theorem hasConsumed_ofSource (source : String) : (ofSource source).HasConsumed source.toList [] :=
  ⟨rfl, Position.isBehind_nil⟩

namespace HasConsumed

variable (h : r.HasConsumed source consumed)
include h

theorem advance (hrest : raw ++ rest = r.rest) :
    (r.advance raw rest).HasConsumed source (consumed ++ raw) where
  source_eq := by rw [← h.source_eq, ← hrest, List.append_assoc, Reader.advance]
  position := h.position.after raw

theorem afterBlanks : r.afterBlanks.HasConsumed source (consumed ++ r.blanks) :=
  h.advance List.takeWhile_append_dropWhile

theorem afterLexeme (hrest : raw ++ rest = r.rest) :
    (r.afterLexeme raw rest).HasConsumed source (consumed ++ raw) :=
  ⟨(h.advance hrest).source_eq, (h.advance hrest).position⟩

theorem dropBytes_eq : dropBytes r.position.offset source = r.rest := by
  rw [h.position.offset, ← h.source_eq, dropBytes_utf8Len]

theorem covers (raw : List Char) : (r.spanOf raw).Covers consumed raw :=
  ⟨h.position, (h.position.after raw).offset⟩

theorem standsAt (hpending : r.pending = none) : r.StandsAt source consumed [] where
  consumed := by rwa [List.append_nil]
  pending := by simp [hpending]
  nothing _ := rfl

theorem afterDelimiter (hrest : r.rest = a :: b :: rest) (hl : l ≠ .eof) :
    (r.afterDelimiter (a, k) (b, l) rest mode).StandsAt source (consumed ++ [a]) [b] := by
  have hfirst : (r.advance [a] (b :: rest)).HasConsumed source (consumed ++ [a]) :=
    h.advance hrest.symm
  have hsecond : (r.advance [a] (b :: rest)).position.IsBehind (consumed ++ [a]) := hfirst.position
  refine ⟨⟨?_, hsecond.after [b]⟩, ?_, by rintro ⟨⟩⟩
  · simp [← h.source_eq, hrest, Reader.afterDelimiter, Reader.advance]
  · rintro t ⟨⟩
    exact ⟨⟨hsecond, (hsecond.after [b]).offset⟩, List.cons_ne_nil _ _, hl⟩

/-- An error lies where the reader was or behind the characters that it has read. -/
theorem errorPlace (cause : LexicalError.Cause) (raw : List Char) :
    ∃ before, before <+: consumed ++ raw ∧ (r.errorPlace cause raw).IsBehind before := by
  rw [Reader.errorPlace]
  split
  · exact ⟨consumed, List.prefix_append .., h.position⟩
  · exact ⟨consumed ++ raw, List.prefix_refl _, h.position.after raw⟩

end HasConsumed

theorem standsAt_start (source : String) (keep : Bool) :
    ((ofSource source).keepBlanks keep).StandsAt source.toList [] [] :=
  HasConsumed.standsAt ⟨rfl, Position.isBehind_nil⟩ rfl

/-- With nothing pending, all that has been consumed has been given. -/
theorem StandsAt.consumed_of_nothing (h : r.StandsAt source given held)
    (hpending : r.pending = none) : held = [] ∧ r.HasConsumed source given := by
  obtain rfl := h.nothing hpending
  exact ⟨rfl, by simpa using h.consumed⟩

theorem isBlank_of_mem_blanks {c : Char} (h : c ∈ r.blanks) : isBlank c :=
  List.mem_takeWhile_imp h

theorem continues_at_once (hcovers : t.span.Covers given raw) (hempty : raw = [] ↔ t.kind = .eof) :
    r.Continues t given [] raw where
  covers := by simpa using hcovers
  blank := List.forall_mem_nil _
  skips h := (h rfl).elim
  empty_iff := hempty

theorem continues_behind_blanks (hpending : r.pending = none) (hmode : r.mode = .tag)
    (hkept : r.keepsBlanks → r.blanks = []) (hcovers : t.span.Covers (given ++ r.blanks) raw)
    (hempty : raw = [] ↔ t.kind = .eof) : r.Continues t given r.blanks raw where
  covers := hcovers
  blank _ := isBlank_of_mem_blanks
  skips h := by
    refine ⟨hpending, hmode, ?_⟩
    rw [Bool.eq_false_iff]
    exact fun hkeeps => h (hkept hkeeps)
  empty_iff := hempty

/-- A token that is given continues what has been given before it. -/
theorem Step.standsAt (hr : r.StandsAt source given held) (h : r.Step t s) :
    ∃ gap raw held', r.Continues t given gap raw ∧
      s.StandsAt source (given ++ gap ++ raw) held' := by
  cases h with
  | pending hpending =>
    obtain ⟨hcovers, hheld, hkind⟩ := hr.pending t hpending
    refine ⟨[], held, [], continues_at_once hcovers (iff_of_false hheld hkind), ?_⟩
    rw [List.append_nil]
    exact HasConsumed.standsAt ⟨hr.consumed.source_eq, hr.consumed.position⟩ rfl
  | eof hpending hmode hrest =>
    obtain ⟨rfl, hconsumed⟩ := hr.consumed_of_nothing hpending
    refine ⟨[], [], [], continues_at_once (hconsumed.covers []) (iff_of_true rfl rfl), ?_⟩
    rw [List.append_nil, List.append_nil]
    exact HasConsumed.standsAt ⟨hconsumed.source_eq, hconsumed.position⟩ hpending
  | opening hpending hmode hrest =>
    obtain ⟨rfl, hconsumed⟩ := hr.consumed_of_nothing hpending
    refine ⟨[], ['{'], ['$'], continues_at_once (hconsumed.covers ['{']) (by simp), ?_⟩
    rw [List.append_nil]
    exact hconsumed.afterDelimiter hrest (by simp)
  | @text raw rest kind hpending hmode hne hends hlex =>
    obtain ⟨rfl, hconsumed⟩ := hr.consumed_of_nothing hpending
    have happend := Lexeme.raw_append_ofText r.rest
    have hraw := Lexeme.raw_ofText_ne_nil hne hends
    rw [hlex] at happend hraw
    have hkind : kind ≠ .eof := by
      rintro rfl
      cases (Lexeme.ofText_eq_ok hne hends hlex).1
    refine ⟨[], raw, [], continues_at_once (hconsumed.covers raw) (iff_of_false hraw hkind), ?_⟩
    rw [List.append_nil]
    exact (hconsumed.afterLexeme happend).standsAt hpending
  | blanks hpending hmode hkeeps hblanks =>
    obtain ⟨rfl, hconsumed⟩ := hr.consumed_of_nothing hpending
    refine ⟨[], r.blanks, [], continues_at_once (hconsumed.covers r.blanks)
      (iff_of_false hblanks (by simp)), ?_⟩
    rw [List.append_nil]
    exact hconsumed.afterBlanks.standsAt hpending
  | closing hpending hmode hrest hkept =>
    obtain ⟨rfl, hconsumed⟩ := hr.consumed_of_nothing hpending
    refine ⟨r.blanks, ['$'], ['}'], continues_behind_blanks hpending hmode hkept
      (hconsumed.afterBlanks.covers ['$']) (by simp), ?_⟩
    exact hconsumed.afterBlanks.afterDelimiter hrest (by simp)
  | @inTag raw rest kind hpending hmode hne hclose hlex hkept =>
    obtain ⟨rfl, hconsumed⟩ := hr.consumed_of_nothing hpending
    have happend := Lexeme.raw_append_ofTag r.freshTag r.afterBlanks.rest
    have hraw : (Lexeme.ofTag r.freshTag r.afterBlanks.rest).raw ≠ [] :=
      Lexeme.raw_ofTag_ne_nil hne
    rw [hlex] at happend hraw
    have hkind : kind ≠ .eof := by
      rintro rfl
      cases (Lexeme.ofTag_eq_ok hlex).1
    refine ⟨r.blanks, raw, [], continues_behind_blanks hpending hmode hkept
      (hconsumed.afterBlanks.covers raw) (iff_of_false hraw hkind), ?_⟩
    exact (hconsumed.afterBlanks.afterLexeme happend).standsAt hpending

/-- A failure leaves nothing pending, and its place is one that the reader has passed. -/
theorem Fails.standsAt (hr : r.StandsAt source given held) (h : r.Fails e s) :
    ∃ moved, s.StandsAt source (given ++ moved) [] ∧
      ∃ before, before <+: given ++ moved ∧ e.place.IsBehind before := by
  cases h with
  | @text raw rest cause hpending hmode hlex =>
    obtain ⟨rfl, hconsumed⟩ := hr.consumed_of_nothing hpending
    have happend := Lexeme.raw_append_ofText r.rest
    rw [hlex] at happend
    exact ⟨raw, (hconsumed.afterLexeme happend).standsAt hpending, hconsumed.errorPlace cause raw⟩
  | openTag hpending hmode hrest hkept =>
    obtain ⟨rfl, hconsumed⟩ := hr.consumed_of_nothing hpending
    exact ⟨r.blanks, hconsumed.afterBlanks.standsAt hpending, _, List.prefix_refl _,
      hconsumed.afterBlanks.position⟩
  | @inTag raw rest cause hpending hmode hlex hkept =>
    obtain ⟨rfl, hconsumed⟩ := hr.consumed_of_nothing hpending
    have happend := Lexeme.raw_append_ofTag r.freshTag r.afterBlanks.rest
    rw [hlex] at happend
    refine ⟨r.blanks ++ raw, ?_⟩
    rw [← List.append_assoc]
    exact ⟨(hconsumed.afterBlanks.afterLexeme happend).standsAt hpending,
      hconsumed.afterBlanks.errorPlace cause raw⟩

theorem StandsAt.noted (h : r.StandsAt source given held) (last : Option Token) :
    ({ r with last := last } : Reader).StandsAt source given held :=
  ⟨⟨h.consumed.source_eq, h.consumed.position⟩, h.pending, h.nothing⟩

theorem standsAt_of_next_ok (hr : r.StandsAt source given held) (h : r.next = (.ok t, s)) :
    ∃ gap raw held', r.Continues t given gap raw ∧
      s.StandsAt source (given ++ gap ++ raw) held' := by
  obtain ⟨-, u, hstep, rfl⟩ := step_of_next h
  obtain ⟨gap, raw, held', hcontinues, hu⟩ := hstep.standsAt hr
  exact ⟨gap, raw, held', hcontinues, hu.noted (some t)⟩

/-- After a failure a reader stands where it has come to, and the error is placed no later. -/
theorem standsAt_of_next_error (hr : r.StandsAt source given held)
    (h : r.next = (.error e, s)) :
    ∃ moved held', s.StandsAt source (given ++ moved) held' ∧
      ∃ before, before <+: given ++ moved ++ held' ∧ e.place.IsBehind before := by
  rcases fails_of_next h with ⟨-, rfl, rfl⟩ | ⟨-, hfails⟩
  · refine ⟨[], held, ?_⟩
    rw [List.append_nil]
    exact ⟨hr, given ++ held, List.prefix_refl _, hr.consumed.position⟩
  · obtain ⟨moved, hs, before, hpre, hplace⟩ := hfails.standsAt hr
    refine ⟨moved, [], hs, before, ?_, hplace⟩
    rwa [List.append_nil]

theorem Reads.standsAt (hr : r.StandsAt source [] []) {ts : List Token} (h : r.Reads ts s) :
    ∃ given held, s.StandsAt source given held := by
  induction ts using List.reverseRecOn generalizing s with
  | nil =>
    cases h
    exact ⟨[], [], hr⟩
  | append_singleton ts t ih =>
    obtain ⟨u, hts, hnext⟩ := h.of_concat
    obtain ⟨given, held, hu⟩ := ih hts
    obtain ⟨gap, raw, held', -, hs⟩ := standsAt_of_next_ok hu hnext
    exact ⟨given ++ gap ++ raw, held', hs⟩

end Reader

end Template
