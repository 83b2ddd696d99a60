import Template.Proofs.Exhaustion
import Template.Proofs.ReaderStates
import Template.Proofs.Tiling

/-! What the state of a reader says of its session. -/
namespace Template

open Token

/-- The token that a request is answered with, if it is one for the next token. -/
def Request.newToken? : Request → Reply → Option Token
  | .next, .token t => some t
  | _, _ => none

def newTokens (requests : List Request) (replies : List Reply) : List Token :=
  (requests.zip replies).filterMap fun (q, reply) => q.newToken? reply

theorem newTokens_concat {requests : List Request} {replies : List Reply}
    (h : requests.length = replies.length) (q : Request) (reply : Reply) :
    newTokens (requests ++ [q]) (replies ++ [reply]) =
      newTokens requests replies ++ (q.newToken? reply).toList := by
  rw [newTokens, List.zip_append h, List.filterMap_append, newTokens]
  cases hnew : q.newToken? reply <;> simp [hnew]

namespace Reader

variable {r s : Reader} {t : Token} {q : Request} {reply : Reply} {requests : List Request}
  {replies : List Reply} {source : String} {cs given held : List Char}

/-- Only a new token takes the place of the one that is kept. -/
theorem last_perform (r : Reader) (q : Request) :
    (r.perform q).2.last = (q.newToken? (r.perform q).1).or r.last := by
  cases q with
  | next =>
    rcases hnext : r.next with ⟨e | t, s⟩
    · simp only [perform, hnext]
      exact last_of_next_error hnext
    · obtain ⟨-, u, -, rfl⟩ := step_of_next hnext
      simp only [perform, hnext]
      rfl
  | last => cases hlast : r.last <;> simp [perform, hlast, Request.newToken?]
  | mode => rfl
  | switchTo mode => rfl
  | keepBlanks keep => rfl

theorem next_of_ended (h : r.ended) : r.next = (.error ⟨.exhausted, r.position⟩, r) := by
  simp only [next, h, if_true]

theorem ended_perform (h : r.ended) (q : Request) : (r.perform q).2.ended := by
  cases q with
  | next =>
    simp only [perform, next_of_ended h]
    exact h
  | last => cases hlast : r.last <;> simpa [perform, hlast] using h
  | mode => exact h
  | switchTo mode => exact h
  | keepBlanks keep => exact h

/-- The reader ends when it gives the end of input. -/
theorem ended_of_newToken (hr : r.StandsAt cs given held) (h : r.perform q = (reply, s))
    (hnew : q.newToken? reply = some t) (ht : t.kind = .eof) : s.ended := by
  cases q with
  | next =>
    rcases hnext : r.next with ⟨e | u, v⟩
    · simp only [perform, hnext, Prod.mk.injEq] at h
      obtain ⟨rfl, rfl⟩ := h
      cases hnew
    · simp only [perform, hnext, Prod.mk.injEq] at h
      obtain ⟨rfl, rfl⟩ := h
      cases hnew
      obtain ⟨-, w, hstep, rfl⟩ := step_of_next hnext
      obtain ⟨-, -, -, rfl⟩ := hstep.of_eof hr ht
      rfl
  | last => cases hnew
  | mode => cases hnew
  | switchTo mode => cases hnew
  | keepBlanks keep => cases hnew

theorem length_session (r : Reader) (requests : List Request) :
    requests.length = (r.session requests).1.length := by
  induction requests using List.reverseRecOn with
  | nil => rfl
  | append_singleton requests q ih =>
    rw [session_concat, List.length_append, List.length_append, ih]
    rfl

/-- The token that is kept is the last one that has been given, if there is one. -/
theorem last_session (source : String) (requests : List Request) :
    ((ofSource source).session requests).2.last =
      (newTokens requests ((ofSource source).session requests).1).getLast? := by
  induction requests using List.reverseRecOn with
  | nil => rfl
  | append_singleton requests q ih =>
    have hlength := (ofSource source).length_session requests
    rw [session_concat, newTokens_concat hlength, last_perform, ih, List.getLast?_append]
    cases q.newToken? _ <;> rfl

theorem ended_session {source : String} {requests : List Request}
    (h : ∃ t ∈ newTokens requests ((ofSource source).session requests).1, t.kind = .eof) :
    ((ofSource source).session requests).2.ended := by
  induction requests using List.reverseRecOn with
  | nil =>
    obtain ⟨t, ⟨⟩, -⟩ := h
  | append_singleton requests q ih =>
    have hlength := (ofSource source).length_session requests
    obtain ⟨given, held, hr, -⟩ := tracks_session source requests
    rw [session_concat] at h ⊢
    rw [newTokens_concat hlength] at h
    obtain ⟨t, hmem, ht⟩ := h
    rcases List.mem_append.1 hmem with hbefore | hnew
    · exact ended_perform (ih ⟨t, hbefore, ht⟩) q
    · exact ended_of_newToken hr rfl (Option.mem_toList.1 hnew) ht

theorem ended_session_append (h : r.ended) (requests : List Request) :
    (r.session requests).2.ended := by
  induction requests using List.reverseRecOn with
  | nil => exact h
  | append_singleton requests q ih =>
    rw [session_concat]
    exact ended_perform ih q

/-- What is pending ends where the reader stands. -/
theorem InUseOn.stop_of_pending (hr : r.InUseOn source) (ht : t ∈ r.pending) :
    t.span.stop = r.position.offset := by
  obtain ⟨given, held, hstands⟩ := hr.standsAt
  obtain ⟨hcovers, -, -⟩ := hstands.pending t ht
  rw [hcovers.stop, hstands.consumed.position.offset]

/-- Whatever has been asked of a reader, failures included: a mark is pending only in a tag of which
nothing has been read, and a closing brace only in text, and either ends where the reader stands;
only in a tag can it be that nothing of it has been read; once the end of input has been given, the
reader is at the end of its source with nothing pending, and gives no token any more, whatever else
is asked; and the token it keeps, and answers with when asked for the last one, is the one that it
gave last, which no request changes but one that is answered with a new token. -/
theorem session_invariant (hsession : (ofSource source).session requests = (replies, r)) :
    (∀ t ∈ r.pending, t.span.stop = r.position.offset ∧
      ((t.kind = .tagMark ∧ r.mode = .tag ∧ r.freshTag) ∨
        (t.kind = .tagClose ∧ r.mode = .text))) ∧
    (r.freshTag → r.mode = .tag) ∧
    ((∃ t ∈ newTokens requests replies, t.kind = .eof) → ∀ more : List Request,
      let s := (r.session more).2
      s.rest = [] ∧ s.position = Position.after {} source.toList ∧ s.pending = none ∧
        s.next = (.error ⟨.exhausted, s.position⟩, s)) ∧
    r.last = (newTokens requests replies).getLast? ∧
    r.perform .last = (((newTokens requests replies).getLast?.map Reply.token).getD .nothing, r) ∧
    ∀ q reply s, r.perform q = (reply, s) → s.last = (q.newToken? reply).or r.last := by
  have hr : r.InUseOn source := ⟨requests, congrArg Prod.snd hsession⟩
  have hlast := last_session source requests
  have hends := @ended_session source requests
  simp only [hsession] at hlast hends
  refine ⟨fun t ht => ⟨hr.stop_of_pending ht, hr.orderly.pending t ht⟩, hr.orderly.freshTag, ?_,
    hlast, ?_, ?_⟩
  · intro heof more s
    have hended : s.ended := ended_session_append (hends heof) more
    have hsame : ((ofSource source).session (requests ++ more)).2 = s := by
      rw [session_append, hsession]
    have hs : s.InUseOn source := ⟨requests ++ more, hsame⟩
    obtain ⟨hrest, hpending⟩ := hs.orderly.ended hended
    have hplace := position_session source (requests ++ more)
    rw [hsame] at hplace
    exact ⟨hrest, hplace hrest, hpending, next_of_ended hended⟩
  · rw [← hlast]
    cases hkept : r.last <;> simp [perform, hkept]
  · rintro q reply s hperform
    have hkept := r.last_perform q
    rwa [hperform] at hkept

/-- A mark that is pending and then dropped, a failure, and modes set behind the end of input. -/
theorem session_invariant_dropped_half :
    let begun := (ofSource "\x7b$\\").session [.next]
    let requests : List Request := [.next, .switchTo .text, .next, .next, .switchTo .tag]
    let ended := (ofSource "\x7b$\\").session requests
    let mark : Token := ⟨.tagMark, ⟨⟨1, 1, 2⟩, 2⟩⟩
    let eof : Token := ⟨.eof, ⟨⟨3, 1, 4⟩, 3⟩⟩
    (begun.2.pending = some mark ∧ mark.span.stop = begun.2.position.offset ∧
      begun.2.mode = .tag ∧ begun.2.freshTag) ∧
    (newTokens requests ended.1).getLast? = some eof ∧ ended.2.last = some eof ∧
    (ended.2.session [.keepBlanks true, .switchTo .text]).2.next.1 =
      .error ⟨.exhausted, ⟨3, 1, 4⟩⟩ ∧
    (ended.2.perform .next).2.last = some eof := by
  intro begun requests ended mark eof
  have hbegun : (ofSource "\x7b$\\").session [.next] = (_, _) := rfl
  have hended : (ofSource "\x7b$\\").session requests = (_, _) := rfl
  obtain ⟨hpending, -, -, -, -, -⟩ := session_invariant hbegun
  obtain ⟨-, -, hover, hlast, -, hkept⟩ := session_invariant hended
  obtain ⟨hstop, ⟨-, hmode, hfresh⟩ | ⟨hclose, -⟩⟩ := hpending mark rfl
  · have hnew : (newTokens requests ended.1).getLast? = some eof := by
      decide +kernel
    obtain ⟨-, -, -, hnext⟩ := hover ⟨eof, List.mem_of_getLast? hnew, rfl⟩
      [.keepBlanks true, .switchTo .text]
    exact ⟨⟨rfl, hstop, hmode, hfresh⟩, hnew, hlast.trans hnew, congrArg Prod.fst hnext,
      (hkept .next _ _ rfl).trans (hlast.trans hnew)⟩
  · cases hclose

end Reader

end Template
