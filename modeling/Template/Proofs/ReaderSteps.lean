import Template.Token.Run

/-! What one answer of a reader can be. -/
namespace Template

open Character

namespace Reader

/-- The reader after both halves of a delimiter, the second of which is still to be given. -/
def afterDelimiter (r : Reader) (first second : Char × Token.Kind) (rest : List Char)
    (mode : Mode) : Reader :=
  { (r.advance [first.1] rest).advance [second.1] rest with
    mode
    freshTag := mode == .tag
    pending := some ⟨second.2, (r.advance [first.1] rest).spanOf [second.1]⟩ }

def afterLexeme (r : Reader) (raw rest : List Char) : Reader :=
  { r.advance raw rest with freshTag := false }

/-- How a reader gives a token. The last token is not yet noted. -/
inductive Step (r : Reader) : Token → Reader → Prop
  | pending {t : Token} (hpending : r.pending = some t) : Step r t { r with pending := none }
  | eof (hpending : r.pending = none) (hmode : r.mode = .text) (hrest : r.rest = []) :
      Step r ⟨.eof, r.spanOf []⟩ { r with ended := true }
  | opening {rest : List Char} (hpending : r.pending = none) (hmode : r.mode = .text)
      (hrest : r.rest = '{' :: '$' :: rest) :
      Step r ⟨.tagOpen, r.spanOf ['{']⟩
        (r.afterDelimiter ('{', .tagOpen) ('$', .tagMark) rest .tag)
  | text {raw rest : List Char} {kind : Token.Kind} (hpending : r.pending = none)
      (hmode : r.mode = .text) (hne : r.rest ≠ []) (hends : Escape.text.ends r.rest = false)
      (hlex : Lexeme.ofText r.rest = ⟨raw, rest, .ok kind⟩) :
      Step r ⟨kind, r.spanOf raw⟩ (r.afterLexeme raw rest)
  | blanks (hpending : r.pending = none) (hmode : r.mode = .tag) (hkeeps : r.keepsBlanks)
      (hblanks : r.blanks ≠ []) :
      Step r ⟨.blanks (String.ofList r.blanks), r.spanOf r.blanks⟩ r.afterBlanks
  | closing {rest : List Char} (hpending : r.pending = none) (hmode : r.mode = .tag)
      (hrest : r.afterBlanks.rest = '$' :: '}' :: rest)
      (hkept : r.keepsBlanks → r.blanks = []) :
      Step r ⟨.tagMark, r.afterBlanks.spanOf ['$']⟩
        (r.afterBlanks.afterDelimiter ('$', .tagMark) ('}', .tagClose) rest .text)
  | inTag {raw rest : List Char} {kind : Token.Kind} (hpending : r.pending = none)
      (hmode : r.mode = .tag) (hne : r.afterBlanks.rest ≠ [])
      (hclose : ∀ more, r.afterBlanks.rest ≠ '$' :: '}' :: more)
      (hlex : Lexeme.ofTag r.freshTag r.afterBlanks.rest = ⟨raw, rest, .ok kind⟩)
      (hkept : r.keepsBlanks → r.blanks = []) :
      Step r ⟨kind, r.afterBlanks.spanOf raw⟩ (r.afterBlanks.afterLexeme raw rest)

/-- Where an error is reported that stopped the reading behind the characters `raw`. -/
def errorPlace (r : Reader) (cause : LexicalError.Cause) (raw : List Char) : Position :=
  if cause.isOfLiteral then r.position else r.position.after raw

/-- How a reader fails before its end. -/
inductive Fails (r : Reader) : LexicalError → Reader → Prop
  | text {raw rest : List Char} {cause : LexicalError.Cause} (hpending : r.pending = none)
      (hmode : r.mode = .text) (hlex : Lexeme.ofText r.rest = ⟨raw, rest, .error cause⟩) :
      Fails r ⟨cause, r.errorPlace cause raw⟩ (r.afterLexeme raw rest)
  | openTag (hpending : r.pending = none) (hmode : r.mode = .tag)
      (hrest : r.afterBlanks.rest = []) (hkept : r.keepsBlanks → r.blanks = []) :
      Fails r ⟨.openTag, r.afterBlanks.position⟩ r.afterBlanks
  | inTag {raw rest : List Char} {cause : LexicalError.Cause} (hpending : r.pending = none)
      (hmode : r.mode = .tag)
      (hlex : Lexeme.ofTag r.freshTag r.afterBlanks.rest = ⟨raw, rest, .error cause⟩)
      (hkept : r.keepsBlanks → r.blanks = []) :
      Fails r ⟨cause, r.afterBlanks.errorPlace cause raw⟩ (r.afterBlanks.afterLexeme raw rest)

variable {r s : Reader} {t : Token} {e : LexicalError} {lexeme : Lexeme}

theorem read_eq_ok (h : r.read lexeme = (.ok t, s)) :
    ∃ raw rest kind, lexeme = ⟨raw, rest, .ok kind⟩ ∧ t = ⟨kind, r.spanOf raw⟩ ∧
      s = r.afterLexeme raw rest := by
  obtain ⟨raw, rest, outcome⟩ := lexeme
  cases outcome with
  | error cause => cases h
  | ok kind =>
    cases h
    exact ⟨raw, rest, kind, rfl, rfl, rfl⟩

theorem ends_eq_false_of_ne {cs : List Char} (h : ∀ more, cs ≠ '{' :: '$' :: more) :
    Escape.text.ends cs = false := by
  simp only [Escape.text]

theorem step_of_readText (hpending : r.pending = none) (hmode : r.mode = .text)
    (h : r.readText = (.ok t, s)) : r.Step t s := by
  unfold readText at h
  split at h
  · next hrest =>
    cases h
    exact .eof hpending hmode hrest
  · next hrest =>
    cases h
    exact .opening hpending hmode hrest
  · next hne hopen =>
    obtain ⟨raw, rest, kind, hlex, rfl, rfl⟩ := read_eq_ok h
    exact .text hpending hmode hne (ends_eq_false_of_ne hopen) hlex

theorem step_of_readTag (hpending : r.pending = none) (hmode : r.mode = .tag)
    (h : r.readTag = (.ok t, s)) : r.Step t s := by
  unfold readTag at h
  split at h
  · next hblanks =>
    simp only [Bool.and_eq_true, Bool.not_eq_true', List.isEmpty_eq_false_iff] at hblanks
    cases h
    exact .blanks hpending hmode hblanks.1 hblanks.2
  · next hblanks =>
    have hkept : r.keepsBlanks → r.blanks = [] := by
      intro hkeeps
      simpa [hkeeps] using hblanks
    unfold readTagToken at h
    split at h
    · cases h
    · next hrest =>
      cases h
      exact .closing hpending hmode hrest hkept
    · next hne hclose =>
      obtain ⟨raw, rest, kind, hlex, rfl, rfl⟩ := read_eq_ok h
      exact .inTag hpending hmode hne hclose hlex hkept

theorem read_eq_error (h : r.read lexeme = (.error e, s)) :
    ∃ raw rest cause, lexeme = ⟨raw, rest, .error cause⟩ ∧ e = ⟨cause, r.errorPlace cause raw⟩ ∧
      s = r.afterLexeme raw rest := by
  obtain ⟨raw, rest, outcome⟩ := lexeme
  cases outcome with
  | ok kind => cases h
  | error cause =>
    cases h
    exact ⟨raw, rest, cause, rfl, rfl, rfl⟩

theorem fails_of_readText (hpending : r.pending = none) (hmode : r.mode = .text)
    (h : r.readText = (.error e, s)) : r.Fails e s := by
  unfold readText at h
  split at h
  · cases h
  · cases h
  · obtain ⟨raw, rest, cause, hlex, rfl, rfl⟩ := read_eq_error h
    exact .text hpending hmode hlex

theorem fails_of_readTag (hpending : r.pending = none) (hmode : r.mode = .tag)
    (h : r.readTag = (.error e, s)) : r.Fails e s := by
  unfold readTag at h
  split at h
  · cases h
  · next hblanks =>
    have hkept : r.keepsBlanks → r.blanks = [] := by
      intro hkeeps
      simpa [hkeeps] using hblanks
    unfold readTagToken at h
    split at h
    · next hrest =>
      cases h
      exact .openTag hpending hmode hrest hkept
    · cases h
    · obtain ⟨raw, rest, cause, hlex, rfl, rfl⟩ := read_eq_error h
      exact .inTag hpending hmode hlex hkept

/-- A token that is given comes from a step. -/
theorem step_of_next (h : r.next = (.ok t, s)) :
    r.ended = false ∧ ∃ u, r.Step t u ∧ s = { u with last := some t } := by
  unfold next at h
  split at h
  · cases h
  · next hended =>
    refine ⟨by simpa using hended, ?_⟩
    split at h
    · next token stop hfetch =>
      cases h
      refine ⟨stop, ?_, rfl⟩
      unfold fetch at hfetch
      split at hfetch
      · next hpending =>
        cases hfetch
        exact .pending hpending
      · next hpending hmode => exact step_of_readText hpending hmode hfetch
      · next hpending hmode => exact step_of_readTag hpending hmode hfetch
    · cases h

/-- A failure is that of an ended reader or comes from what stands at the front. -/
theorem fails_of_next (h : r.next = (.error e, s)) :
    (r.ended ∧ e = ⟨.exhausted, r.position⟩ ∧ s = r) ∨ (r.ended = false ∧ r.Fails e s) := by
  unfold next at h
  split at h
  · next hended =>
    cases h
    exact .inl ⟨hended, rfl, rfl⟩
  · next hended =>
    refine .inr ⟨by simpa using hended, ?_⟩
    split at h
    · cases h
    · next stop hfetch =>
      cases h
      unfold fetch at hfetch
      split at hfetch
      · cases hfetch
      · next hpending hmode => exact fails_of_readText hpending hmode hfetch
      · next hpending hmode => exact fails_of_readTag hpending hmode hfetch

theorem readText_of_ends (hne : r.rest ≠ []) (hends : Escape.text.ends r.rest = false) :
    r.readText = r.read (.ofText r.rest) := by
  unfold readText
  split
  · next hrest => exact (hne hrest).elim
  · next hrest =>
    rw [hrest] at hends
    cases hends
  · rfl

theorem readTag_of_kept (hkept : r.keepsBlanks → r.blanks = []) :
    r.readTag = r.afterBlanks.readTagToken := by
  unfold readTag
  split
  · next hblanks =>
    simp only [Bool.and_eq_true, Bool.not_eq_true', List.isEmpty_eq_false_iff] at hblanks
    exact (hblanks.2 (hkept hblanks.1)).elim
  · rfl

theorem readTagToken_of_ne (hne : r.rest ≠ []) (hclose : ∀ more, r.rest ≠ '$' :: '}' :: more) :
    r.readTagToken = r.read (.ofTag r.freshTag r.rest) := by
  unfold readTagToken
  split
  · next hrest => exact (hne hrest).elim
  · next hrest => exact (hclose _ hrest).elim
  · rfl

theorem next_of_step (hended : r.ended = false) (h : r.Step t s) :
    r.next = (.ok t, { s with last := some t }) := by
  have hfetch : r.fetch = (.ok t, s) := by
    cases h with
    | pending hpending => simp only [fetch, hpending]
    | eof hpending hmode hrest => simp only [fetch, hpending, hmode, readText, hrest]
    | opening hpending hmode hrest =>
      simp only [fetch, hpending, hmode, readText, hrest]
      rfl
    | text hpending hmode hne hends hlex =>
      simp only [fetch, hpending, hmode, readText_of_ends hne hends, hlex]
      rfl
    | blanks hpending hmode hkeeps hblanks =>
      simp only [fetch, hpending, hmode, readTag, hkeeps]
      rw [if_pos (by simpa using hblanks)]
    | closing hpending hmode hrest hkept =>
      simp only [fetch, hpending, hmode, readTag_of_kept hkept, readTagToken, hrest]
      rfl
    | inTag hpending hmode hne hclose hlex hkept =>
      have hfresh : r.afterBlanks.freshTag = r.freshTag := rfl
      simp only [fetch, hpending, hmode, readTag_of_kept hkept, readTagToken_of_ne hne hclose,
        hfresh, hlex]
      rfl
  simp only [next, hended, hfetch]
  rfl

theorem next_of_fails (hended : r.ended = false) (h : r.Fails e s) : r.next.1 = .error e := by
  have hfetch : r.fetch.1 = .error e := by
    cases h with
    | text hpending hmode hlex =>
      have hne : r.rest ≠ [] := by
        intro hrest
        rw [hrest] at hlex
        cases hlex
      have hends : Escape.text.ends r.rest = false := by
        apply ends_eq_false_of_ne
        intro more hrest
        rw [hrest] at hlex
        cases hlex
      simp only [fetch, hpending, hmode, readText_of_ends hne hends, hlex]
      rfl
    | openTag hpending hmode hrest hkept =>
      simp only [fetch, hpending, hmode, readTag_of_kept hkept, readTagToken, hrest]
    | inTag hpending hmode hlex hkept =>
      simp only [fetch, hpending, hmode, readTag_of_kept hkept]
      by_cases hne : r.afterBlanks.rest = []
      · rw [hne] at hlex
        cases hlex
        simp only [readTagToken, hne]
        rfl
      · have hclose : ∀ more, r.afterBlanks.rest ≠ '$' :: '}' :: more := by
          intro more hrest
          have halpha : isAlphabetic '$' = false := rfl
          rw [hrest] at hlex
          simp [Lexeme.ofTag, Numeral.begins, isOperatorChar, halpha] at hlex
        have hfresh : r.afterBlanks.freshTag = r.freshTag := rfl
        rw [readTagToken_of_ne hne hclose, hfresh, hlex]
        rfl
  rcases hresult : r.fetch with ⟨e' | t, s'⟩
  · rw [hresult] at hfetch
    cases hfetch
    simp only [next, hended, hresult]
    rfl
  · rw [hresult] at hfetch
    cases hfetch

end Reader

end Template
