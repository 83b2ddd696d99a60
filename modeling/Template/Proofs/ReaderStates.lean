import Template.Proofs.Sessions

/-! The states that a reader in use can be in. -/
namespace Template

open Token Character

namespace Lexeme

variable {first : Bool} {cs raw rest : List Char} {kind : Kind}

theorem ne_nil_of_ofTag (h : ofTag first cs = ⟨raw, rest, .ok kind⟩) : cs ≠ [] := by
  rintro rfl
  cases h

/-- Only a token that stands for its character begins with a blank. -/
theorem endsClass_of_ofTag (h : ofTag first cs = ⟨raw, rest, .ok kind⟩)
    (hkind : ∀ c, kind ≠ .other c) : EndsClass isBlank cs := by
  intro c hc
  obtain ⟨ds, rfl⟩ := List.head?_eq_some_iff.1 hc
  rw [Bool.eq_false_iff]
  intro hblank
  rw [ofTag_eq_other (.inl hblank)] at h
  cases h
  exact hkind c rfl

theorem ne_closing_of_ofTag (h : ofTag first cs = ⟨raw, rest, .ok kind⟩)
    (hkind : ∀ c, kind ≠ .other c) (ds : List Char) : cs ≠ '$' :: '}' :: ds := by
  rintro rfl
  rw [ofTag_eq_other (.inr rfl)] at h
  cases h
  exact hkind '$' rfl

end Lexeme

namespace Reader

/-- The reader has come to its state by requests on the source, made in any order. -/
def InUseOn (r : Reader) (source : String) : Prop :=
  ∃ requests : List Request, ((ofSource source).session requests).2 = r

/-- What holds of the state of a reader in use. -/
structure Orderly (r : Reader) : Prop where
  /-- Since the half before it was given, neither the mode has been changed nor a tag been read. -/
  pending : ∀ t ∈ r.pending, (t.kind = .tagMark ∧ r.mode = .tag ∧ r.freshTag) ∨
    (t.kind = .tagClose ∧ r.mode = .text)
  freshTag : r.freshTag → r.mode = .tag
  ended : r.ended → r.rest = [] ∧ r.pending = none

/-- The next token is of this kind, it is read from the characters `raw`, and `more` is left. -/
def NextIs (r : Reader) (source : String) (kind : Kind) (raw more : List Char) : Prop :=
  ∃ t s, r.next = (.ok t, s) ∧ t.kind = kind ∧ t.span.slice source.toList = raw ∧ s.rest = more

variable {r s : Reader} {t : Token} {e : LexicalError} {source : String} {kind : Kind}
  {raw more : List Char}

theorem orderly_ofSource (source : String) : (ofSource source).Orderly where
  pending := by rintro t ⟨⟩
  freshTag := by rintro ⟨⟩
  ended := by rintro ⟨⟩

theorem orderly_of_pending (hpending : r.pending = none) (hfresh : r.freshTag → r.mode = .tag)
    (hended : r.ended = false) : r.Orderly where
  pending := by simp [hpending]
  freshTag := hfresh
  ended := by simp [hended]

theorem Step.orderly (hr : r.Orderly) (hended : r.ended = false) (h : r.Step t s) :
    s.Orderly := by
  cases h with
  | pending => exact orderly_of_pending rfl hr.freshTag hended
  | eof hpending _ hrest => exact ⟨hr.pending, hr.freshTag, fun _ => ⟨hrest, hpending⟩⟩
  | opening =>
    refine ⟨?_, fun _ => rfl, fun h => ?_⟩
    · rintro u ⟨⟩
      exact .inl ⟨rfl, rfl, rfl⟩
    · cases hended.symm.trans h
  | text hpending => exact orderly_of_pending hpending (by rintro ⟨⟩) hended
  | blanks hpending => exact orderly_of_pending hpending hr.freshTag hended
  | closing =>
    refine ⟨?_, by rintro ⟨⟩, fun h => ?_⟩
    · rintro u ⟨⟩
      exact .inr ⟨rfl, rfl⟩
    · cases hended.symm.trans h
  | inTag hpending => exact orderly_of_pending hpending (by rintro ⟨⟩) hended

theorem Fails.orderly (hr : r.Orderly) (hended : r.ended = false) (h : r.Fails e s) :
    s.Orderly := by
  cases h with
  | text hpending => exact orderly_of_pending hpending (by rintro ⟨⟩) hended
  | openTag hpending => exact orderly_of_pending hpending hr.freshTag hended
  | inTag hpending => exact orderly_of_pending hpending (by rintro ⟨⟩) hended

namespace Orderly

variable (hr : r.Orderly)
include hr

theorem next : r.next.2.Orderly := by
  rcases hnext : r.next with ⟨e | t, s⟩
  · rcases fails_of_next hnext with ⟨-, -, rfl⟩ | ⟨hended, hfails⟩
    · exact hr
    · exact hfails.orderly hr hended
  · obtain ⟨hended, u, hstep, rfl⟩ := step_of_next hnext
    have hu := hstep.orderly hr hended
    exact ⟨hu.pending, hu.freshTag, hu.ended⟩

theorem switchTo (mode : Mode) : (r.switchTo mode).Orderly where
  pending := by rintro t ⟨⟩
  freshTag h := by simpa [Reader.switchTo] using h
  ended h := ⟨(hr.ended h).1, rfl⟩

theorem perform (q : Request) : (r.perform q).2.Orderly := by
  cases q with
  | next =>
    have hnext := hr.next
    rcases h : r.next with ⟨e | t, s⟩ <;> simpa [Reader.perform, h] using hnext
  | last => cases h : r.last <;> simpa [Reader.perform, h] using hr
  | mode => exact hr
  | switchTo mode => exact hr.switchTo mode
  | keepBlanks keep => exact ⟨hr.pending, hr.freshTag, hr.ended⟩

end Orderly

/-- What is read in a tag, behind blanks that are left out. -/
theorem next_of_ofTag (hended : r.ended = false) (hpending : r.pending = none)
    (hmode : r.mode = .tag) (hkept : r.keepsBlanks → r.blanks = [])
    (hlex : Lexeme.ofTag r.freshTag r.afterBlanks.rest = ⟨raw, more, .ok kind⟩)
    (hkind : ∀ c, kind ≠ .other c) :
    r.next = (.ok ⟨kind, r.afterBlanks.spanOf raw⟩,
      { r.afterBlanks.afterLexeme raw more with
        last := some ⟨kind, r.afterBlanks.spanOf raw⟩ }) := by
  apply next_of_step hended
  apply Step.inTag hpending hmode (Lexeme.ne_nil_of_ofTag hlex) _ hlex hkept
  exact Lexeme.ne_closing_of_ofTag hlex hkind

/-- What fails to be read in a tag, behind blanks that are left out. -/
theorem next_of_ofTag_error {cause : LexicalError.Cause} (hended : r.ended = false)
    (hpending : r.pending = none) (hmode : r.mode = .tag) (hkept : r.keepsBlanks → r.blanks = [])
    (hne : r.afterBlanks.rest ≠ [])
    (hlex : Lexeme.ofTag r.freshTag r.afterBlanks.rest = ⟨raw, more, .error cause⟩) :
    r.next = (.error ⟨cause, r.afterBlanks.errorPlace cause raw⟩,
      r.afterBlanks.afterLexeme raw more) := by
  have hclose (ds : List Char) : r.afterBlanks.rest ≠ '$' :: '}' :: ds := by
    intro hrest
    rw [hrest, Lexeme.ofTag_eq_other (.inr rfl)] at hlex
    cases hlex
  have hlex' : Lexeme.ofTag r.afterBlanks.freshTag r.afterBlanks.rest =
    ⟨raw, more, .error cause⟩ := hlex
  simp only [next, hended, fetch, hpending, hmode, readTag_of_kept hkept,
    readTagToken_of_ne hne hclose, hlex', read]
  rfl

namespace InUseOn

variable (hr : r.InUseOn source)
include hr

theorem orderly : r.Orderly := by
  obtain ⟨requests, rfl⟩ := hr
  induction requests using List.reverseRecOn with
  | nil => exact orderly_ofSource source
  | append_singleton requests q ih =>
    rw [session_concat]
    exact ih.perform q

theorem perform (q : Request) : (r.perform q).2.InUseOn source := by
  obtain ⟨requests, rfl⟩ := hr
  exact ⟨requests ++ [q], congrArg Prod.snd (session_concat ..)⟩

/-- A reader in front of something has not ended. -/
theorem ended_eq (hrest : r.rest ≠ []) : r.ended = false := by
  rw [Bool.eq_false_iff]
  intro hended
  exact hrest (hr.orderly.ended hended).1

/-- Nothing is pending where something of a tag has been read. -/
theorem pending_eq_none (hmode : r.mode = .tag) (hfresh : r.freshTag = false) :
    r.pending = none := by
  rw [Option.eq_none_iff_forall_not_mem]
  intro t ht
  rcases hr.orderly.pending t ht with ⟨-, -, h⟩ | ⟨-, h⟩
  · cases hfresh.symm.trans h
  · cases hmode.symm.trans h

/-- The reader gives what is pending, and nothing else of it changes by that. -/
theorem reads_pending : ∃ s, r.Reads r.pending.toList s ∧ s.InUseOn source ∧ s.pending = none ∧
    s.mode = r.mode ∧ s.rest = r.rest := by
  cases hpending : r.pending with
  | none => exact ⟨r, .nil, hr, hpending, rfl, rfl⟩
  | some t =>
    have hended : r.ended = false := by
      rw [Bool.eq_false_iff]
      intro hended
      cases hpending.symm.trans (hr.orderly.ended hended).2
    have hnext := next_of_step hended (.pending hpending)
    have hs := hr.perform .next
    simp only [Reader.perform, hnext] at hs
    exact ⟨_, .cons hnext .nil, hs, rfl, rfl, rfl⟩

theorem standsAt : ∃ given held, r.StandsAt source.toList given held := by
  obtain ⟨requests, rfl⟩ := hr
  obtain ⟨given, held, hr, -⟩ := tracks_session source requests
  exact ⟨given, held, hr⟩

/-- With nothing pending, the span of what is read in a tag is a span of the source. -/
theorem slice_afterBlanks (hpending : r.pending = none) (happend : raw ++ more = r.afterBlanks.rest) :
    (r.afterBlanks.spanOf raw).slice source.toList = raw := by
  obtain ⟨given, held, hstands⟩ := hr.standsAt
  obtain ⟨-, hconsumed⟩ := hstands.consumed_of_nothing hpending
  have hslice := (hconsumed.afterBlanks.covers raw).slice more
  rwa [List.append_assoc, happend, hconsumed.afterBlanks.source_eq] at hslice

/-- With nothing pending, what stands in a tag at the front is the next token. -/
theorem nextIs (hmode : r.mode = .tag) (hpending : r.pending = none)
    (hrest : r.rest = raw ++ more)
    (hlex : Lexeme.ofTag r.freshTag (raw ++ more) = ⟨raw, more, .ok kind⟩)
    (hkind : ∀ c, kind ≠ .other c) : r.NextIs source kind raw more := by
  rw [← hrest] at hlex
  have hends := Lexeme.endsClass_of_ofTag hlex hkind
  have hfront : r.afterBlanks.rest = r.rest := hends.dropWhile
  have hended := hr.ended_eq (Lexeme.ne_nil_of_ofTag hlex)
  rw [← hfront] at hlex
  have hnext := next_of_ofTag hended hpending hmode (fun _ => hends.takeWhile) hlex hkind
  have hslice := hr.slice_afterBlanks hpending (hrest.symm.trans hfront.symm)
  exact ⟨_, _, hnext, rfl, hslice, rfl⟩

end InUseOn

end Reader

end Template
