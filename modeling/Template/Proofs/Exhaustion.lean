import Template.Proofs.Faults
import Template.Proofs.Sessions

/-! Readers that are used up: failures do not stop them from coming to the end of the source. -/
namespace Template

open String

/-- The request asks for a token, or says what is to be done with blanks. -/
def Request.readsOn : Request → Bool
  | .next | .keepBlanks _ => true
  | .last | .mode | .switchTo _ => false

/-- What is wrong when a token is asked for at the end of the source. -/
def Mode.lastCause : Mode → LexicalError.Cause
  | .text => .exhausted
  | .tag => .openTag

namespace Reader

/-- The reader stands at the end of its source, and in text it has given the end of input. -/
structure Spent (r : Reader) : Prop where
  rest : r.rest = []
  pending : r.pending = none
  ended_iff : r.ended ↔ r.mode = .text

/-- Of the units that a source comes to, `asked` requests for tokens have been made and `given`
tokens given, and no more remains than is left over. -/
structure Used (r : Reader) (units asked given : Nat) : Prop where
  ends : r.ended → r.Spent
  given : given + r.remaining ≤ units
  /-- A request that uses up nothing is made of a reader that is used up. -/
  asked : r.Spent ∨ asked + r.remaining ≤ units

variable {r s : Reader} {t : Token} {e : LexicalError} {q : Request} {requests more : List Request}
  {source : String} {units asked given : Nat}

theorem afterBlanks_of_empty (h : r.rest = []) : r.afterBlanks = r := by
  obtain ⟨_, _, _, _, _, _, _, _⟩ := r
  obtain rfl : _ = [] := h
  rfl

/-- A reader that is used up gives the error of its mode and stays as it is. -/
theorem Spent.next_eq (h : r.Spent) : r.next = (.error ⟨r.mode.lastCause, r.position⟩, r) := by
  cases hmode : r.mode with
  | text =>
    have hended : r.ended = true := h.ended_iff.2 hmode
    simp only [next, hended, if_true, Mode.lastCause]
  | tag =>
    have hended : r.ended = false := by
      rw [Bool.eq_false_iff]
      intro hended
      cases hmode.symm.trans (h.ended_iff.1 hended)
    have hblanks : r.blanks = [] := by
      rw [blanks, h.rest, List.takeWhile_nil]
    have hfetch : r.fetch = (.error ⟨.openTag, r.position⟩, r) := by
      simp only [fetch, h.pending, hmode, readTag_of_kept fun _ => hblanks,
        afterBlanks_of_empty h.rest, readTagToken, h.rest]
    simp only [next, hended, hfetch, Mode.lastCause]
    rfl

theorem Spent.perform (h : r.Spent) (hq : q.readsOn) :
    (r.perform q).2.Spent ∧ (r.perform q).2.mode = r.mode := by
  cases q with
  | next =>
    simp only [Reader.perform, h.next_eq]
    exact ⟨h, trivial⟩
  | keepBlanks keep => exact ⟨⟨h.rest, h.pending, h.ended_iff⟩, rfl⟩
  | last => cases hq
  | mode => cases hq
  | switchTo mode => cases hq

theorem spent_of_tag (hrest : r.rest = []) (hpending : r.pending = none) (hmode : r.mode = .tag)
    (hended : r.ended = false) : r.Spent where
  rest := hrest
  pending := hpending
  ended_iff := by simp [hmode, hended]

/-- A failure reads on, unless nothing is left in a tag. -/
theorem Fails.advances (hended : r.ended = false) (h : r.Fails e s) : ∃ moved : List Char,
    moved ++ s.rest = r.rest ∧ s.position = r.position.after moved ∧ s.pending = r.pending ∧
      s.ended = false ∧ (moved = [] → s.Spent) := by
  have hblanks : r.blanks ++ r.afterBlanks.rest = r.rest := List.takeWhile_append_dropWhile
  cases h with
  | @text raw rest cause hpending hmode hlex =>
    have happend := Lexeme.raw_append_ofText r.rest
    obtain ⟨fault, good, -, -, -, hraw, -⟩ := Lexeme.ofText_eq_error hlex
    rw [hlex] at happend
    refine ⟨raw, happend, rfl, rfl, hended, fun hnil => ?_⟩
    rw [hraw] at hnil
    exact (List.append_ne_nil_of_right_ne_nil good (List.cons_ne_nil '\\' []) hnil).elim
  | openTag hpending hmode hrest hkept =>
    exact ⟨r.blanks, hblanks, rfl, rfl, hended, fun _ => spent_of_tag hrest hpending hmode hended⟩
  | @inTag raw rest cause hpending hmode hlex hkept =>
    have happend := Lexeme.raw_append_ofTag r.freshTag r.afterBlanks.rest
    rw [hlex] at happend
    refine ⟨r.blanks ++ raw, ?_, ?_, rfl, hended, fun hnil => ?_⟩
    · rw [List.append_assoc]
      exact (congrArg (r.blanks ++ ·) happend).trans hblanks
    · exact Position.after_append.symm
    · obtain ⟨-, rfl⟩ := List.append_eq_nil_iff.1 hnil
      have hrest : r.afterBlanks.rest = [] := by
        by_contra hne
        exact Lexeme.raw_ofTag_ne_nil hne (congrArg Lexeme.raw hlex)
      rw [hrest] at happend
      exact spent_of_tag happend hpending hmode hended

/-- A request for a token that fails moves the reader on, or leaves it used up. -/
theorem advances_of_next_error (hends : r.ended → r.Spent) (h : r.next = (.error e, s)) :
    ∃ moved : List Char, moved ++ s.rest = r.rest ∧ s.position = r.position.after moved ∧
      s.pending = r.pending ∧ s.ended = r.ended ∧ (moved = [] → s.Spent) := by
  rcases fails_of_next h with ⟨hended, -, rfl⟩ | ⟨hended, hfails⟩
  · exact ⟨[], rfl, rfl, rfl, rfl, fun _ => hends hended⟩
  · obtain ⟨moved, hrest, hposition, hpending, hended', hspent⟩ := hfails.advances hended
    exact ⟨moved, hrest, hposition, hpending, hended'.trans hended.symm, hspent⟩

/-- A reader ends where it is used up. -/
theorem spent_of_next_ok (h : r.next = (.ok t, s)) (hended : s.ended) : s.Spent := by
  obtain ⟨hlive, u, hstep, rfl⟩ := step_of_next h
  have hsame : u.ended = r.ended → False := by
    intro hsame
    cases hended.symm.trans (hsame.trans hlive)
  cases hstep with
  | eof hpending hmode hrest => exact ⟨hrest, hpending, by simp [hmode]⟩
  | pending => exact (hsame rfl).elim
  | opening => exact (hsame rfl).elim
  | text => exact (hsame rfl).elim
  | blanks => exact (hsame rfl).elim
  | closing => exact (hsame rfl).elim
  | inTag => exact (hsame rfl).elim

namespace Used

theorem start (source : String) : (ofSource source).Used (source.length + 1) 0 0 := by
  have hremaining : (ofSource source).remaining = source.length + 1 := by
    rw [← String.length_toList]
    rfl
  exact ⟨by rintro ⟨⟩, by omega, .inr (by omega)⟩

variable (h : r.Used units asked given)
include h

theorem next_ok (hnext : r.next = (.ok t, s)) : s.Used units (asked + 1) (given + 1) := by
  have hlt := remaining_lt_of_next hnext
  have hgiven := h.given
  refine ⟨spent_of_next_ok hnext, by omega, .inr ?_⟩
  rcases h.asked with hspent | hasked
  · cases hspent.next_eq.symm.trans hnext
  · omega

theorem next_error (hnext : r.next = (.error e, s)) : s.Used units (asked + 1) given := by
  obtain ⟨moved, hrest, -, hpending, hended, hspent⟩ := advances_of_next_error h.ends hnext
  have hremaining : moved.length + s.remaining = r.remaining := by
    simp only [remaining, ← hrest, hpending, hended, List.length_append, Nat.add_assoc]
  have hgiven := h.given
  refine ⟨fun hs => ?_, by omega, ?_⟩
  · have hsame := (h.ends (hended ▸ hs)).next_eq.symm.trans hnext
    obtain rfl := congrArg Prod.snd hsame
    exact h.ends hs
  · by_cases hmoved : moved = []
    · exact .inl (hspent hmoved)
    · have hpos := List.length_pos_iff.2 hmoved
      rcases h.asked with hr | hasked
      · rw [hr.rest] at hrest
        exact (hmoved (List.append_eq_nil_iff.1 hrest).1).elim
      · exact .inr (by omega)

theorem keepBlanks (keep : Bool) : (r.keepBlanks keep).Used units asked given where
  ends hended := ((h.ends hended).perform (q := .keepBlanks keep) rfl).1
  given := h.given
  asked := h.asked.imp_left fun hspent => (hspent.perform (q := .keepBlanks keep) rfl).1

end Used

/-- How much of a source is used up behind some requests. -/
theorem used_session (source : String) (hrequests : ∀ q ∈ requests, q.readsOn) :
    ((ofSource source).session requests).2.Used (source.length + 1) (requests.count .next)
      (givenTokens ((ofSource source).session requests).1).length := by
  induction requests using List.reverseRecOn with
  | nil => exact .start source
  | append_singleton requests q ih =>
    rw [List.forall_mem_append, List.forall_mem_singleton] at hrequests
    have hused := ih hrequests.1
    rw [session_concat, List.count_append]
    cases q with
    | next =>
      rcases hnext : ((ofSource source).session requests).2.next with ⟨e | t, s⟩
      · have hnone : (Reply.failure e).token? = none := rfl
        simp only [perform, hnext, givenTokens_concat_of_none _ hnone]
        exact hused.next_error hnext
      · simp only [perform, hnext, givenTokens_concat_token, List.length_append]
        exact hused.next_ok hnext
    | keepBlanks keep =>
      rw [givenTokens_concat_of_none _ rfl]
      exact hused.keepBlanks keep
    | last => cases hrequests.2
    | mode => cases hrequests.2
    | switchTo mode => cases hrequests.2

theorem session_append (r : Reader) (requests more : List Request) :
    (r.session (requests ++ more)).2 = ((r.session requests).2.session more).2 := by
  induction more using List.reverseRecOn with
  | nil =>
    rw [List.append_nil]
    rfl
  | append_singleton more q ih => rw [← List.append_assoc, session_concat, session_concat, ih]

/-- A reader that is used up stays so, and in its mode. -/
theorem Spent.session (h : r.Spent) (hmore : ∀ q ∈ more, q.readsOn) :
    (r.session more).2.Spent ∧ (r.session more).2.mode = r.mode := by
  induction more using List.reverseRecOn with
  | nil => exact ⟨h, rfl⟩
  | append_singleton more q ih =>
    rw [List.forall_mem_append, List.forall_mem_singleton] at hmore
    obtain ⟨hspent, hmode⟩ := ih hmore.1
    obtain ⟨hspent', hmode'⟩ := hspent.perform hmore.2
    rw [session_concat]
    exact ⟨hspent', hmode'.trans hmode⟩

theorem position_session (source : String) (requests : List Request)
    (h : ((ofSource source).session requests).2.rest = []) :
    ((ofSource source).session requests).2.position = Position.after {} source.toList := by
  obtain ⟨given, held, hr, -⟩ := tracks_session source requests
  have hsource := hr.consumed.source_eq
  rw [h, List.append_nil] at hsource
  exact hr.consumed.position.eq (hsource ▸ Position.isBehind_nil.after _)

/-- Asking for tokens comes to an end, also when errors are passed over and blanks are now kept and
now left out. A failure moves the reader on or leaves it at the end of the source. There is at most
one token for each character, and one more. When a token has been asked for as often, each further
answer is the same error at the end of the source, the one that belongs to the mode. -/
theorem session_settles {replies : List Reply}
    (hsession : (ofSource source).session requests = (replies, r))
    (hrequests : ∀ q ∈ requests, q.readsOn) :
    (∀ e s, r.next = (.error e, s) → r.position.offset < s.position.offset ∨
      s.rest = [] ∧ s.position = Position.after {} source.toList) ∧
    (givenTokens replies).length ≤ source.length + 1 ∧
    (source.length + 1 ≤ requests.count .next → ∀ more : List Request, (∀ q ∈ more, q.readsOn) →
      let s := ((ofSource source).session (requests ++ more)).2
      s.mode = r.mode ∧
        s.next = (.error ⟨r.mode.lastCause, Position.after {} source.toList⟩, s)) := by
  have hused := used_session source hrequests
  have hplace := position_session source requests
  simp only [hsession] at hused hplace
  refine ⟨?_, ?_, ?_⟩
  · intro e s hnext
    obtain ⟨moved, hrest, hposition, -, -, hspent⟩ := advances_of_next_error hused.ends hnext
    by_cases hmoved : moved = []
    · have hend := (hspent hmoved).rest
      rw [hmoved, hend] at hrest
      rw [hmoved] at hposition
      exact .inr ⟨hend, hposition.trans (hplace hrest.symm)⟩
    · have hpos : utf8Len moved ≠ 0 := mt utf8Len_eq_zero.1 hmoved
      rw [hposition, Position.offset_after]
      exact .inl (by omega)
  · exact Nat.le_trans (Nat.le_add_right _ _) hused.given
  · intro hcount more hmore s
    have hspent : r.Spent := by
      rcases hused.asked with hspent | hasked
      · exact hspent
      · apply hused.ends
        cases hended : r.ended with
        | true => rfl
        | false =>
          simp only [remaining, hended, Bool.not_false, Bool.toNat_true] at hasked
          omega
    obtain ⟨hs, hmode⟩ := hspent.session hmore
    have hsame : s = (r.session more).2 := by
      have happend := session_append (ofSource source) requests more
      rwa [hsession] at happend
    rw [← hsame] at hs hmode
    have hend : s.position = Position.after {} source.toList :=
      position_session source (requests ++ more) hs.rest
    refine ⟨hmode, ?_⟩
    rw [hs.next_eq, hmode, hend]

/-- As many tokens as there can be, and a tag that stays open behind two errors. -/
theorem session_settles_delimiters :
    let requests : List Request := [.next, .next, .keepBlanks true, .next, .next, .next]
    let session := (ofSource "\x7b$$\x7d").session requests
    let more := (ofSource "\x7b$ \"").session ((requests ++ [.keepBlanks false]) ++ [.next])
    (givenTokens session.1).length = 5 ∧ session.2.next.1 = .error ⟨.exhausted, ⟨4, 1, 5⟩⟩ ∧
      more.2.next.1 = .error ⟨.openTag, ⟨4, 1, 5⟩⟩ := by
  intro requests session more
  have hrequests : ∀ q ∈ requests, q.readsOn := by decide
  have hclosed : (ofSource "\x7b$$\x7d").session requests = (_, _) := rfl
  have hopen : (ofSource "\x7b$ \"").session (requests ++ [.keepBlanks false]) = (_, _) := rfl
  obtain ⟨-, -, hlast⟩ := session_settles hclosed hrequests
  obtain ⟨-, -, hlast'⟩ := session_settles hopen (by decide)
  have hnext := (hlast (by decide) [] (by simp)).2
  have hnext' := (hlast' (by decide) [.next] (by decide)).2
  refine ⟨by decide +kernel, congrArg Prod.fst hnext, congrArg Prod.fst hnext'⟩

end Reader

end Template
