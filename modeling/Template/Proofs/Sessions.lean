import Template.Proofs.ReaderPlaces
import Template.Token.Session

/-! Places of tokens and of errors in a session. -/
namespace Template

open String Token

def Reply.token? : Reply → Option Token
  | .token t => some t
  | .failure _ | .mode _ | .nothing => none

def givenTokens (replies : List Reply) : List Token := replies.filterMap Reply.token?

/-- The token marks some of the characters, and none at the end of input only. -/
def Token.LiesIn (t : Token) (cs : List Char) : Prop :=
  ∃ before raw, before ++ raw <+: cs ∧ t.span.Covers before raw ∧ (raw = [] ↔ t.kind = .eof)

namespace Token.LiesIn

variable {t : Token} {cs ds : List Char}

theorem mono (h : t.LiesIn cs) (hpre : cs <+: ds) : t.LiesIn ds := by
  obtain ⟨before, raw, hraw, hcovers⟩ := h
  exact ⟨before, raw, hraw.trans hpre, hcovers⟩

theorem stop_le (h : t.LiesIn cs) : t.span.stop ≤ utf8Len cs := by
  obtain ⟨before, raw, hraw, hcovers, -⟩ := h
  rw [hcovers.stop]
  exact utf8Len_le_of_prefix hraw

theorem covers (h : t.LiesIn cs) :
    ∃ before raw, before ++ raw <+: cs ∧ t.span.Covers before raw := by
  obtain ⟨before, raw, hraw, hcovers, -⟩ := h
  exact ⟨before, raw, hraw, hcovers⟩

theorem start_le_stop (h : t.LiesIn cs) : t.span.start.offset ≤ t.span.stop := by
  obtain ⟨before, raw, -, hcovers, -⟩ := h
  exact hcovers.start_le_stop

theorem start_lt_stop (h : t.LiesIn cs) (hkind : t.kind ≠ .eof) :
    t.span.start.offset < t.span.stop := by
  obtain ⟨before, raw, -, hcovers, hempty⟩ := h
  exact hcovers.start_lt_stop (mt hempty.1 hkind)

end Token.LiesIn

theorem givenTokens_concat_token (replies : List Reply) (t : Token) :
    givenTokens (replies ++ [.token t]) = givenTokens replies ++ [t] := by
  simp [givenTokens, Reply.token?]

theorem givenTokens_concat_of_none {reply : Reply} (replies : List Reply)
    (h : reply.token? = none) : givenTokens (replies ++ [reply]) = givenTokens replies := by
  simp [givenTokens, h]

namespace Reader

/-- The replies to requests that are made one after the other, and the reader after them. -/
def session (r : Reader) (requests : List Request) : List Reply × Reader :=
  requests.foldl (fun (replies, s) q => (replies ++ [(s.perform q).1], (s.perform q).2)) ([], r)

/-- What a request can do at a place: a new token is given, the last one is repeated, or no token
is given. -/
inductive Answers (r : Reader) (source given : List Char) : Request → Reply → Reader → Prop
  | token {t : Token} {s : Reader} {gap raw held : List Char}
      (hcontinues : r.Continues t given gap raw)
      (hs : s.StandsAt source (given ++ gap ++ raw) held) (hlast : s.last = some t) :
      Answers r source given .next (.token t) s
  | repeated {t : Token} {held : List Char} (hs : r.StandsAt source given held)
      (hlast : r.last = some t) : Answers r source given .last (.token t) r
  | quiet {q : Request} {reply : Reply} {s : Reader} {moved held : List Char}
      (hreply : reply.token? = none) (hs : s.StandsAt source (given ++ moved) held)
      (hlast : s.last = r.last)
      (herror : ∀ e, reply = .failure e →
        ∃ before, before <+: given ++ moved ++ held ∧ e.place.IsBehind before) :
      Answers r source given q reply s

/-- The tokens that have been given mark characters before a place, and the reader keeps the last
of them. -/
structure Tracks (r : Reader) (given : List Char) (tokens : List Token) : Prop where
  lies : ∀ t ∈ tokens, t.LiesIn given
  last : r.last = tokens.getLast?

variable {r s : Reader} {t : Token} {e : LexicalError} {q : Request} {reply : Reply}
  {replies : List Reply} {tokens : List Token} {source given moved gap raw held : List Char}

theorem last_of_next_error (h : r.next = (.error e, s)) : s.last = r.last := by
  rcases fails_of_next h with ⟨-, -, rfl⟩ | ⟨-, hfails⟩
  · rfl
  · cases hfails <;> rfl

theorem answers_perform (hr : r.StandsAt source given held) (q : Request) :
    r.Answers source given q (r.perform q).1 (r.perform q).2 := by
  have hstay : r.StandsAt source (given ++ []) held := by rwa [List.append_nil]
  cases q with
  | next =>
    rcases hnext : r.next with ⟨e | t, s⟩
    · obtain ⟨moved, held', hs, hplace⟩ := standsAt_of_next_error hr hnext
      simp only [perform, hnext]
      refine .quiet rfl hs (last_of_next_error hnext) ?_
      rintro e ⟨⟩
      exact hplace
    · obtain ⟨-, u, -, rfl⟩ := step_of_next hnext
      obtain ⟨gap, raw, held', hcontinues, hs⟩ := standsAt_of_next_ok hr hnext
      simp only [perform, hnext]
      exact .token hcontinues hs rfl
  | last =>
    cases hlast : r.last with
    | none =>
      simp only [perform, hlast]
      exact .quiet rfl hstay rfl (by rintro e ⟨⟩)
    | some t =>
      simp only [perform, hlast]
      exact .repeated hr hlast
  | mode => exact .quiet rfl hstay rfl (by rintro e ⟨⟩)
  | switchTo mode =>
    have hs : (r.switchTo mode).StandsAt source (given ++ held) [] :=
      HasConsumed.standsAt ⟨hr.consumed.source_eq, hr.consumed.position⟩ rfl
    exact .quiet rfl hs rfl (by rintro e ⟨⟩)
  | keepBlanks keep =>
    have hs : (r.keepBlanks keep).StandsAt source (given ++ []) held :=
      ⟨⟨hstay.consumed.source_eq, hstay.consumed.position⟩, hstay.pending, hstay.nothing⟩
    exact .quiet rfl hs rfl (by rintro e ⟨⟩)

/-- A token that is given marks the last characters that have been given. -/
theorem Continues.liesIn (h : r.Continues t given gap raw) : t.LiesIn (given ++ gap ++ raw) :=
  ⟨given ++ gap, raw, List.prefix_refl _, h.covers, h.empty_iff⟩

theorem Tracks.answers (h : r.Tracks given (givenTokens replies))
    (hanswers : r.Answers source given q reply s) :
    ∃ given' held', s.StandsAt source given' held' ∧
      s.Tracks given' (givenTokens (replies ++ [reply])) := by
  cases hanswers with
  | @token t s gap raw held hcontinues hs hlast =>
    refine ⟨given ++ gap ++ raw, held, hs, ?_⟩
    rw [givenTokens_concat_token]
    refine ⟨?_, by simpa using hlast⟩
    rw [List.forall_mem_append, List.forall_mem_singleton]
    refine ⟨fun u hu => (h.lies u hu).mono ?_, hcontinues.liesIn⟩
    rw [List.append_assoc]
    exact List.prefix_append ..
  | @repeated t held hs hlast =>
    have hmem : t ∈ givenTokens replies := List.mem_of_getLast? (h.last.symm.trans hlast)
    refine ⟨given, held, hs, ?_⟩
    rw [givenTokens_concat_token]
    refine ⟨?_, by simpa using hlast⟩
    rw [List.forall_mem_append, List.forall_mem_singleton]
    exact ⟨h.lies, h.lies t hmem⟩
  | @quiet q reply s moved held hreply hs hlast herror =>
    refine ⟨given ++ moved, held, hs, ?_⟩
    rw [givenTokens_concat_of_none replies hreply]
    exact ⟨fun u hu => (h.lies u hu).mono (List.prefix_append given moved), hlast.trans h.last⟩

theorem session_concat (r : Reader) (requests : List Request) (q : Request) :
    r.session (requests ++ [q]) =
      ((r.session requests).1 ++ [((r.session requests).2.perform q).1],
        ((r.session requests).2.perform q).2) := by
  simp only [session, List.foldl_append, List.foldl_cons, List.foldl_nil]

theorem tracks_session (source : String) (requests : List Request) :
    ∃ given held,
      ((ofSource source).session requests).2.StandsAt source.toList given held ∧
      ((ofSource source).session requests).2.Tracks given
        (givenTokens ((ofSource source).session requests).1) := by
  induction requests using List.reverseRecOn with
  | nil =>
    refine ⟨[], [], (hasConsumed_ofSource source).standsAt rfl, ?_, rfl⟩
    rintro t ⟨⟩
  | append_singleton requests q ih =>
    obtain ⟨given, held, hr, htracks⟩ := ih
    rw [session_concat]
    exact htracks.answers (answers_perform hr q)

/-- Places in a session are right. A reader has consumed some characters of its source and its
position is the one behind them. A token lies in what has been consumed; a new one lies behind all
tokens given before it, and a repeated one is the last of them. An error is placed behind some of
the characters that have been consumed. -/
theorem session_placed {requests : List Request} {source : String}
    (hsession : (ofSource source).session requests = (replies, r))
    (hq : r.perform q = (reply, s)) :
    (∃ consumed, r.HasConsumed source.toList consumed) ∧
      ∃ consumed, s.HasConsumed source.toList consumed ∧
        (∀ t, reply = .token t →
          (∃ before raw, before ++ raw <+: consumed ∧ t.span.Covers before raw) ∧
          t.span.start.offset ≤ t.span.stop ∧ t.span.stop ≤ s.position.offset ∧
          (t.kind ≠ .eof → t.span.start.offset < t.span.stop) ∧
          ((q = .next ∧ ∀ u ∈ givenTokens replies, u.span.stop ≤ t.span.start.offset) ∨
            (q = .last ∧ (givenTokens replies).getLast? = some t))) ∧
        ∀ e, reply = .failure e → ∃ before, before <+: consumed ∧ e.place.IsBehind before := by
  obtain ⟨given, held, hr, htracks⟩ := tracks_session source requests
  simp only [hsession] at hr htracks
  have hanswers := answers_perform hr q
  simp only [hq] at hanswers
  refine ⟨⟨given ++ held, hr.consumed⟩, ?_⟩
  cases hanswers with
  | @token t s gap raw held' hcontinues hs hlast =>
    have hlies := hcontinues.liesIn.mono (List.prefix_append _ held')
    refine ⟨given ++ gap ++ raw ++ held', hs.consumed, ?_, by rintro e ⟨⟩⟩
    rintro t ⟨⟩
    refine ⟨hlies.covers, hlies.start_le_stop, ?_, hlies.start_lt_stop, .inl ⟨rfl, ?_⟩⟩
    · rw [hs.consumed.position.offset]
      exact hlies.stop_le
    · intro u hu
      rw [hcontinues.covers.start.offset]
      exact ((htracks.lies u hu).mono (List.prefix_append ..)).stop_le
  | @repeated t held' hs hlast =>
    have hmem : t ∈ givenTokens replies := List.mem_of_getLast? (htracks.last.symm.trans hlast)
    have hlies := (htracks.lies t hmem).mono (List.prefix_append given held')
    refine ⟨given ++ held', hs.consumed, ?_, by rintro e ⟨⟩⟩
    rintro t ⟨⟩
    refine ⟨hlies.covers, hlies.start_le_stop, ?_, hlies.start_lt_stop,
      .inr ⟨rfl, htracks.last.symm.trans hlast⟩⟩
    rw [hs.consumed.position.offset]
    exact hlies.stop_le
  | @quiet q reply s moved held' hreply hs hlast herror =>
    refine ⟨given ++ moved ++ held', hs.consumed, ?_, herror⟩
    rintro t rfl
    cases hreply

/-- Text goes on behind half a delimiter that was given and the other half, which was dropped. -/
theorem session_placed_dropped_half :
    let (replies, r) := (ofSource "é\x7b$é").session [.next, .next, .switchTo .text, .last]
    let (reply, s) := r.perform .next
    reply = .token ⟨.text "é", ⟨⟨4, 1, 4⟩, 6⟩⟩ ∧ (∃ consumed, s.HasConsumed "é\x7b$é".toList consumed) ∧
      givenTokens replies = [⟨.text "é", ⟨⟨0, 1, 1⟩, 2⟩⟩, ⟨.tagOpen, ⟨⟨2, 1, 2⟩, 3⟩⟩,
        ⟨.tagOpen, ⟨⟨2, 1, 2⟩, 3⟩⟩] ∧ ∀ u ∈ givenTokens replies, u.span.stop ≤ 4 := by
  have hsession : (ofSource "é\x7b$é").session [.next, .next, .switchTo .text, .last] = (_, _) :=
    rfl
  obtain ⟨-, consumed, hconsumed, htoken, -⟩ := session_placed (q := .next) hsession rfl
  obtain ⟨-, -, -, -, ⟨-, hbehind⟩ | ⟨hlast, -⟩⟩ := htoken ⟨.text "é", ⟨⟨4, 1, 4⟩, 6⟩⟩ (by rfl)
  · exact ⟨by rfl, ⟨consumed, hconsumed⟩, by rfl, hbehind⟩
  · cases hlast

end Reader

end Template
