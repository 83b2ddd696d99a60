import Template.Proofs.Meaning

/-! What keeps a token from being read. -/
namespace Template

open Token Character

/-- Behind a backslash the rule stops for the fault in front of these characters. -/
inductive Escape.Rule.StopsAt (rule : Rule) : Fault → List Char → Prop
  | unfinished : StopsAt rule .unfinished []
  | unknown {c : Char} {rest : List Char} (hmeaning : rule.meaning c = none) :
      StopsAt rule (.unknown c) (c :: rest)

variable {cs raw rest : List Char} {first : Bool} {fault : Escape.Fault}
  {cause : LexicalError.Cause} {r s : Reader} {t : Token} {e : LexicalError}

theorem Escape.Rule.stopsAt_of_scan (rule : Rule) (h : (rule.scan cs).fault = some fault) :
    (∃ good, (rule.scan cs).raw = good ++ ['\\']) ∧ rule.StopsAt fault (rule.scan cs).rest := by
  fun_induction Rule.scan rule cs with
  | case1 => cases h
  | case2 =>
    cases h
    exact ⟨⟨[], rfl⟩, .unfinished⟩
  | case3 c cs m hm ih =>
    obtain ⟨⟨good, hraw⟩, hstops⟩ := ih h
    exact ⟨⟨'\\' :: c :: good, by simp [Scan.after, hraw]⟩, hstops⟩
  | case4 c cs hm =>
    cases h
    exact ⟨⟨[], rfl⟩, .unknown hm⟩
  | case5 => cases h
  | case6 c cs _ _ _ ih =>
    obtain ⟨⟨good, hraw⟩, hstops⟩ := ih h
    exact ⟨⟨c :: good, by simp [Scan.after, hraw]⟩, hstops⟩

theorem Escape.ends_string_iff : string.ends cs = true ↔ ∃ more, cs = '"' :: more := by
  constructor
  · intro h
    simp only [string] at h
    split at h
    · exact ⟨_, rfl⟩
    · cases h
  · rintro ⟨more, rfl⟩
    rfl

/-- A string that no quote closes is read to the end of input. -/
theorem Escape.rest_scan_string (hfault : (string.scan cs).fault = none)
    (hrest : ∀ more, (string.scan cs).rest ≠ '"' :: more) : (string.scan cs).rest = [] := by
  fun_induction Rule.scan string cs with
  | case1 => rfl
  | case2 => cases hfault
  | case3 c cs m hm ih => exact ih hfault hrest
  | case4 => cases hfault
  | case5 c cs _ _ hends =>
    obtain ⟨more, hmore⟩ := ends_string_iff.1 hends
    exact (hrest more hmore).elim
  | case6 c cs hsingle hpair hends ih => exact ih hfault hrest

namespace Lexeme

theorem ofText_eq_error (h : ofText cs = ⟨raw, rest, .error cause⟩) :
    ∃ fault good, (Escape.text.scan cs).fault = some fault ∧ cause = ofFault fault ∧
      raw = (Escape.text.scan cs).raw ∧ raw = good ++ ['\\'] ∧
      Escape.text.StopsAt fault rest := by
  simp only [ofText, mk.injEq] at h
  obtain ⟨rfl, rfl, h⟩ := h
  split at h
  · next fault hfault =>
    cases h
    obtain ⟨⟨good, hraw⟩, hstops⟩ := Escape.text.stopsAt_of_scan hfault
    exact ⟨fault, good, hfault, rfl, rfl, hraw, hstops⟩
  · cases h

theorem ofString_eq_error (h : ofString cs = ⟨raw, rest, .error cause⟩) :
    (∃ fault good, (Escape.string.scan cs).fault = some fault ∧ cause = ofFault fault ∧
      raw = '"' :: (Escape.string.scan cs).raw ∧ raw = '"' :: good ++ ['\\'] ∧
      Escape.string.StopsAt fault rest) ∨
    (cause = .openString ∧ raw = '"' :: cs ∧ rest = [] ∧
      ∃ value, Escape.string.Reads cs value []) := by
  rw [ofString, ofQuoted] at h
  split at h
  · next fault hfault =>
    cases h
    obtain ⟨⟨good, hraw⟩, hstops⟩ := Escape.string.stopsAt_of_scan hfault
    exact .inl ⟨fault, good, hfault, rfl, rfl, by rw [hraw, List.cons_append], hstops⟩
  · cases h
  · next hfault hclose =>
    cases h
    have hrest := Escape.rest_scan_string hfault hclose
    have happend := Escape.string.raw_append_scan cs
    have hreads := Escape.string.reads_of_scan (fun _ => rfl) hfault
    rw [hrest, List.append_nil] at happend
    rw [hrest, happend] at hreads
    exact .inr ⟨rfl, by rw [happend], hrest, _, hreads⟩

theorem ofNumeral_eq_error (h : ofNumeral cs = ⟨raw, rest, .error cause⟩) :
    (Numeral.scan cs).1.fraction = [] ∧ (Numeral.scan cs).1.int32? = none ∧
      cause = .badNumber (String.ofList raw) ∧ raw = (Numeral.scan cs).1.raw ∧
      rest = (Numeral.scan cs).2 := by
  by_cases hfraction : (Numeral.scan cs).1.fraction = []
  · cases hvalue : (Numeral.scan cs).1.int32? with
    | none =>
      rw [ofNumeral_of_none hfraction hvalue] at h
      cases h
      exact ⟨hfraction, rfl, rfl, rfl, rfl⟩
    | some value =>
      rw [ofNumeral_of_some hfraction hvalue] at h
      cases h
  · rw [ofNumeral_of_fraction hfraction] at h
    cases h

theorem ofTag_eq_error (h : ofTag first cs = ⟨raw, rest, .error cause⟩) :
    (cs = [] ∧ raw = [] ∧ cause = .openTag) ∨
    (∃ body, cs = '"' :: body ∧ ofString body = ⟨raw, rest, .error cause⟩) ∨
    (Numeral.begins cs ∧ ofNumeral cs = ⟨raw, rest, .error cause⟩) := by
  cases cs with
  | nil =>
    cases h
    exact .inl ⟨rfl, rfl, rfl⟩
  | cons c cs =>
    simp only [ofTag] at h
    split at h
    · cases h
    split at h
    · next hquote => exact .inr (.inl ⟨cs, by rw [hquote], h⟩)
    split at h
    · cases h
    split at h
    · next hbegins => exact .inr (.inr ⟨hbegins, h⟩)
    split at h
    · cases h
    split at h
    · cases h
    · cases h

end Lexeme

namespace Reader

theorem Fails.cause_ne_exhausted (h : r.Fails e s) : e.cause ≠ .exhausted := by
  have hofFault (fault : Escape.Fault) : Lexeme.ofFault fault ≠ .exhausted := by
    cases fault <;> simp [Lexeme.ofFault]
  cases h with
  | text _ _ hlex =>
    obtain ⟨fault, _, -, rfl, -⟩ := Lexeme.ofText_eq_error hlex
    exact hofFault fault
  | openTag => simp
  | inTag _ _ hlex =>
    rcases Lexeme.ofTag_eq_error hlex with ⟨-, -, rfl⟩ | ⟨body, -, hstring⟩ | ⟨-, hnumeral⟩
    · simp
    · rcases Lexeme.ofString_eq_error hstring with ⟨fault, _, -, rfl, -⟩ | ⟨rfl, -⟩
      · exact hofFault fault
      · simp
    · obtain ⟨-, -, rfl, -⟩ := Lexeme.ofNumeral_eq_error hnumeral
      simp

/-- A reader ends only with the end of input. -/
theorem Step.ended_eq (h : r.Step t s) (hkind : t.kind ≠ .eof) : s.ended = r.ended := by
  cases h with
  | eof => exact (hkind rfl).elim
  | _ => rfl

/-- A run that fails comes to a reader that fails before its end. -/
theorem exists_fails_of_run (hended : r.ended = false) (h : r.run.failure = some e) :
    ∃ ts s u, r.Reads ts s ∧ s.Fails e u := by
  induction hn : r.remaining using Nat.strongRecOn generalizing r with
  | ind n ih =>
    subst hn
    rcases hnext : r.next with ⟨e' | t, s⟩
    · rw [run_of_error hnext] at h
      cases h
      rcases fails_of_next hnext with ⟨hended', -⟩ | ⟨-, hfails⟩
      · cases hended.symm.trans hended'
      · exact ⟨[], r, s, .nil, hfails⟩
    · rw [run_of_token hnext] at h
      by_cases ht : t.kind = .eof
      · rw [if_pos ht] at h
        cases h
      · rw [if_neg ht] at h
        have hlater : s.ended = false := by
          obtain ⟨-, u, hstep, rfl⟩ := step_of_next hnext
          exact (hstep.ended_eq ht).trans hended
        obtain ⟨ts, u, v, hreads, hfails⟩ := ih _ (remaining_lt_of_next hnext) hlater h rfl
        exact ⟨t :: ts, u, v, .cons hnext hreads, hfails⟩

end Reader

end Template
