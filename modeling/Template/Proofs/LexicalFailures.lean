import Template.Proofs.Contexts
import Template.Proofs.Failures

/-! A lexical error is reported where its cause can be read off the source. -/
namespace Template

open Token

/-- The cause describes the place of a source that has the characters `before` in front of it and
the characters `rest` behind it. -/
inductive LexicalError.Cause.Describes : Cause → (before rest : List Char) → Prop
  | badEscapeInText {front more : List Char} {c : Char} (hcontext : (Context.behind front).IsText)
      (hunknown : c ∉ ['\\', '"', '{']) :
      Describes (.badEscape c) (front ++ ['\\']) (c :: more)
  | badEscapeInString {front more : List Char} {c : Char}
      (hcontext : Context.behind front = .string) (hunknown : c ∉ ['"', '\\', 'n', 'r', 't']) :
      Describes (.badEscape c) (front ++ ['\\']) (c :: more)
  | openEscape {front : List Char}
      (hcontext : (Context.behind front).IsText ∨ Context.behind front = .string) :
      Describes .openEscape (front ++ ['\\']) []
  /-- The string has no closing quote, its escapes are valid, and it ends in no open one. -/
  | openString {before body value : List Char} (hcontext : (Context.behind before).IsTag)
      (hreads : Escape.string.Reads body value []) : Describes .openString before ('"' :: body)
  | badNumber {before more : List Char} {text : String} {n : Numeral}
      (hcontext : (Context.behind before).IsTag) (hspans : n.Spans text.toList more)
      (hfraction : n.fraction = []) (hrange : n.integer < -2147483648 ∨ 2147483647 < n.integer) :
      Describes (.badNumber text) before (text.toList ++ more)
  | openTag {before : List Char} (hcontext : (Context.behind before).IsTag) :
      Describes .openTag before []

variable {c : Char} {front rest source consumed : List Char} {fault : Escape.Fault}
  {r s : Reader} {e : LexicalError} {n : Numeral}

theorem Escape.Rule.notMem_of_meaning {rule : Escape.Rule} {known : List Char}
    (hknown : ∀ d ∈ known, (rule.meaning d).isSome) (h : rule.meaning c = none) : c ∉ known := by
  intro hc
  have hsome := hknown c hc
  rw [h] at hsome
  cases hsome

theorem describes_fault_in_text (h : Escape.text.StopsAt fault rest)
    (hcontext : Context.behind (front ++ ['\\']) = .textSlash) :
    (Lexeme.ofFault fault).Describes (front ++ ['\\']) rest := by
  rw [Context.behind_append] at hcontext
  obtain ⟨-, htext⟩ := Context.step_eq_textSlash_iff.1 hcontext
  cases h with
  | unfinished => exact .openEscape (.inl htext)
  | unknown hmeaning =>
    exact .badEscapeInText htext (Escape.Rule.notMem_of_meaning (by simp [Escape.text]) hmeaning)

theorem describes_fault_in_string (h : Escape.string.StopsAt fault rest)
    (hcontext : Context.behind (front ++ ['\\']) = .stringSlash) :
    (Lexeme.ofFault fault).Describes (front ++ ['\\']) rest := by
  rw [Context.behind_append] at hcontext
  obtain ⟨-, hstring⟩ := Context.step_eq_stringSlash_iff.1 hcontext
  cases h with
  | unfinished => exact .openEscape (.inr hstring)
  | unknown hmeaning =>
    exact .badEscapeInString hstring (Escape.Rule.notMem_of_meaning (by simp [Escape.string]) hmeaning)

namespace Reader

theorem errorPlace_ofFault (r : Reader) (fault : Escape.Fault) (raw : List Char) :
    r.errorPlace (Lexeme.ofFault fault) raw = r.position.after raw := by
  cases fault <;> rfl

theorem describes_of_ofTag {raw : List Char} {first : Bool} {cause : LexicalError.Cause}
    (hr : r.HasConsumed source consumed) (htag : (Context.behind consumed).StaysTag r.rest)
    (hlex : Lexeme.ofTag first r.rest = ⟨raw, rest, .error cause⟩) :
    ∃ before rest, before ++ rest = source ∧ (r.errorPlace cause raw).IsBehind before ∧
      cause.Describes before rest := by
  have happend := Lexeme.raw_append_ofTag first r.rest
  rw [hlex] at happend
  rcases Lexeme.ofTag_eq_error hlex with
    ⟨hrest, rfl, rfl⟩ | ⟨body, hbody, hstring⟩ | ⟨hbegins, hnumeral⟩
  · refine ⟨consumed, [], ?_, hr.position, .openTag htag.isTag⟩
    rw [← hr.source_eq, hrest]
  · rcases Lexeme.ofString_eq_error hstring with
      ⟨fault, good, hfault, rfl, hscan, hgood, hstops⟩ | ⟨rfl, rfl, rfl, value, hreads⟩
    · refine ⟨consumed ++ raw, rest, (hr.afterLexeme happend).source_eq, ?_, ?_⟩
      · rw [errorPlace_ofFault]
        exact hr.position.after raw
      · have hcontext : Context.behind (consumed ++ raw) = .stringSlash := by
          rw [hbody] at htag
          rw [Context.behind_append, hscan, Context.after_cons, htag.step_eq]
          exact (Context.string_scan body).2 fault hfault
        rw [hgood, ← List.append_assoc] at hcontext ⊢
        exact describes_fault_in_string hstops hcontext
    · refine ⟨consumed, '"' :: body, ?_, hr.position, .openString htag.isTag hreads⟩
      rw [← hr.source_eq, hbody]
  · obtain ⟨hfraction, hrange, rfl, rfl, rfl⟩ := Lexeme.ofNumeral_eq_error hnumeral
    have hspans := Numeral.spans_scan hbegins
    rw [← String.toList_ofList (l := (Numeral.scan r.rest).1.raw)] at hspans
    have hdescribes := LexicalError.Cause.Describes.badNumber htag.isTag hspans hfraction
      (Numeral.out_of_range hrange)
    rw [String.toList_ofList] at hdescribes
    refine ⟨consumed, _, ?_, hr.position, hdescribes⟩
    rw [happend]
    exact hr.source_eq

/-- A reader that fails stands at a place that the cause describes, or has come to one. -/
theorem Fails.describes (h : r.Fails e s) (hr : r.HasConsumed source consumed)
    (hwithin : r.StandsWithin (.behind consumed)) : ∃ before rest, before ++ rest = source ∧
      e.place.IsBehind before ∧ e.cause.Describes before rest := by
  cases h with
  | @text raw rest cause hpending hmode hlex =>
    have happend := Lexeme.raw_append_ofText r.rest
    rw [hlex] at happend
    obtain ⟨fault, good, hfault, rfl, hscan, hgood, hstops⟩ := Lexeme.ofText_eq_error hlex
    refine ⟨consumed ++ raw, rest, (hr.afterLexeme happend).source_eq, ?_, ?_⟩
    · rw [errorPlace_ofFault]
      exact hr.position.after raw
    · have hcontext := (hwithin.staysText hmode).scan.2 fault hfault
      rw [← hscan, ← Context.behind_append, hgood, ← List.append_assoc] at hcontext
      rw [hgood, ← List.append_assoc]
      exact describes_fault_in_text hstops hcontext
  | openTag hpending hmode hrest hkept =>
    have htag := (hwithin.staysTag hmode).blanks
    rw [← Context.behind_append] at htag
    refine ⟨consumed ++ r.blanks, [], ?_, hr.afterBlanks.position, .openTag htag.isTag⟩
    rw [← hr.afterBlanks.source_eq, hrest]
  | inTag hpending hmode hlex hkept =>
    have htag := (hwithin.staysTag hmode).blanks
    rw [← Context.behind_append] at htag
    exact describes_of_ofTag hr.afterBlanks htag hlex

end Reader

/-- An error in the tokens of a source is reported at the one place with its line and column, and
its cause describes that place. No error says that the tokens are exhausted. -/
theorem tokenize_error_describes {source : String} (h : tokenize source = .error e) :
    e.cause ≠ .exhausted ∧ ∃ before rest, before ++ rest = source.toList ∧
      e.place.IsBehind before ∧
      (∀ other, other <+: source.toList → (Position.after {} other).line = e.place.line →
        (Position.after {} other).column = e.place.column → other = before) ∧
      e.cause.Describes before rest := by
  obtain ⟨ts, r, s, hreads, hfails⟩ := Reader.exists_fails_of_run rfl (tokenize_eq_error_iff.1 h)
  obtain ⟨consumed, hr, hwithin⟩ := hreads.standsWithin
  obtain ⟨before, rest, hsource, hplace, hdescribes⟩ := hfails.describes hr hwithin
  refine ⟨hfails.cause_ne_exhausted, before, rest, hsource, hplace, ?_, hdescribes⟩
  intro other hother hline hcolumn
  exact (Position.isBehind_nil.after other).eq_of_line_column hplace hother ⟨rest, hsource⟩ hline
    hcolumn

/-- An escape in a string that means nothing there. -/
theorem tokenize_error_describes_escape :
    tokenize "\x7b$= \"\\\x7b\"$\x7d" = .error ⟨.badEscape '{', ⟨6, 1, 7⟩⟩ ∧
      ∃ before rest, before ++ rest = "\x7b$= \"\\\x7b\"$\x7d".toList ∧
        Position.IsBehind ⟨6, 1, 7⟩ before ∧
        (LexicalError.Cause.badEscape '{').Describes before rest := by
  have htokens : tokenize "\x7b$= \"\\\x7b\"$\x7d" = .error ⟨.badEscape '{', ⟨6, 1, 7⟩⟩ := by
    decide +kernel
  obtain ⟨-, before, rest, hsource, hplace, -, hdescribes⟩ := tokenize_error_describes htokens
  exact ⟨htokens, before, rest, hsource, hplace, hdescribes⟩

end Template
