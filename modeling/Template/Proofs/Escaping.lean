import Template.Token.Lexeme

/-! What the encoders write is what the rules read. -/
namespace Template

namespace Escape

variable {rule : Rule} {c m : Char} {cs more : List Char}

theorem Rule.scan_cons (hc : c ≠ '\\') : rule.scan (c :: cs) =
    if rule.ends (c :: cs) then ⟨[], [], c :: cs, none⟩ else (rule.scan cs).after [c] c := by
  rw [Rule.scan]
  · intro hslash _
    exact hc hslash
  · intro _ _ hslash _
    exact hc hslash

theorem Rule.scan_plain (hc : c ≠ '\\') (h : rule.ends (c :: cs) = false) :
    rule.scan (c :: cs) = (rule.scan cs).after [c] c := by
  rw [Rule.scan_cons hc, if_neg (by simp [h])]

theorem Rule.scan_escape (h : rule.meaning c = some m) :
    rule.scan ('\\' :: c :: cs) = (rule.scan cs).after ['\\', c] m := by
  rw [Rule.scan, h]

theorem Rule.scan_end (hc : c ≠ '\\') (h : rule.ends (c :: cs)) :
    rule.scan (c :: cs) = ⟨[], [], c :: cs, none⟩ := by
  rw [Rule.scan_cons hc, if_pos h]

/-- Where text ends: at a tag or at the end of input. -/
def AtTag (cs : List Char) : Prop := cs = [] ∨ text.ends cs = true

theorem scan_atTag (h : AtTag more) : text.scan more = ⟨[], [], more, none⟩ := by
  rcases h with rfl | h
  · rfl
  · cases more with
    | nil => cases h
    | cons c cs =>
      refine Rule.scan_end ?_ h
      rintro rfl
      cases h

theorem head?_of_atTag (h : AtTag more) : more.head? ≠ some '$' := by
  rcases h with rfl | h
  · simp
  · intro hhead
    cases more with
    | nil => cases hhead
    | cons c cs =>
      cases hhead
      cases h

/-- Encoded text begins with a mark only if the text does. -/
theorem head?_encodeText (h : (encodeText cs).head? = some '$') : cs.head? = some '$' := by
  fun_cases encodeText cs
  · cases h
  · cases h
  · cases h
  · simpa [encodeText] using h

theorem ends_text_eq_false (h : c = '{' → cs.head? ≠ some '$') : text.ends (c :: cs) = false := by
  by_cases hc : c = '{'
  · subst hc
    have hhead := h rfl
    cases cs with
    | nil => rfl
    | cons d cs =>
      have hd : d ≠ '$' := by
        rintro rfl
        exact hhead rfl
      simp [text, hd]
  · simp [text, hc]

theorem encodeText_ne_nil (h : cs ≠ []) : encodeText cs ≠ [] := by
  fun_cases encodeText cs
  · exact (h rfl).elim
  · simp
  · simp
  · simp

/-- Encoded text is read as the text, and the reading stops at the tag behind it. -/
theorem scan_encodeText (cs : List Char) (hmore : AtTag more) :
    text.scan (encodeText cs ++ more) = ⟨encodeText cs, cs, more, none⟩ := by
  fun_induction encodeText cs with
  | case1 => exact scan_atTag hmore
  | case2 cs ih =>
    rw [List.cons_append, List.cons_append, Rule.scan_escape rfl, ih]
    rfl
  | case3 cs ih =>
    rw [List.cons_append, List.cons_append, Rule.scan_escape rfl, List.cons_append,
      Rule.scan_plain (by decide) rfl, ih]
    rfl
  | case4 c cs hslash hopen ih =>
    have hc : c ≠ '\\' := fun hc => hslash hc
    have hends : text.ends (c :: (encodeText cs ++ more)) = false := by
      refine ends_text_eq_false fun hbrace hhead => ?_
      rw [List.head?_append, Option.or_eq_some_iff] at hhead
      rcases hhead with hhead | ⟨-, hhead⟩
      · obtain ⟨ds, rfl⟩ := List.head?_eq_some_iff.1 (head?_encodeText hhead)
        exact hopen ds hbrace rfl
      · exact head?_of_atTag hmore hhead
    rw [List.cons_append, Rule.scan_plain hc hends, ih]
    rfl

theorem ends_encodeText (h : cs ≠ []) (hmore : AtTag more) :
    text.ends (encodeText cs ++ more) = false := by
  rw [Bool.eq_false_iff]
  intro hends
  have hscan := scan_encodeText cs hmore
  rw [scan_atTag (.inr hends), Scan.mk.injEq] at hscan
  exact encodeText_ne_nil h hscan.1.symm

/-- What `encodeString` writes between the quotes. -/
def stringBody (cs : List Char) : List Char :=
  cs.flatMap fun c => if c = '"' ∨ c = '\\' then ['\\', c] else [c]

theorem encodeString_eq (cs : List Char) : encodeString cs = '"' :: (stringBody cs ++ ['"']) := rfl

theorem stringBody_escaped (hc : c = '"' ∨ c = '\\') :
    stringBody (c :: cs) = '\\' :: c :: stringBody cs := by
  simp [stringBody, hc]

theorem stringBody_plain (hc : ¬ (c = '"' ∨ c = '\\')) :
    stringBody (c :: cs) = c :: stringBody cs := by
  simp [stringBody, hc]

/-- The body of a literal is read as the string, up to the closing quote. -/
theorem scan_stringBody (cs more : List Char) :
    string.scan (stringBody cs ++ '"' :: more) = ⟨stringBody cs, cs, '"' :: more, none⟩ := by
  induction cs with
  | nil => exact Rule.scan_end (by decide) rfl
  | cons c cs ih =>
    by_cases hc : c = '"' ∨ c = '\\'
    · have hmeaning : string.meaning c = some c := by
        rcases hc with rfl | rfl <;> rfl
      rw [stringBody_escaped hc, List.cons_append, List.cons_append, Rule.scan_escape hmeaning, ih]
      rfl
    · obtain ⟨hquote, hslash⟩ := not_or.1 hc
      have hends : string.ends (c :: (stringBody cs ++ '"' :: more)) = false := by
        simp [string, hquote]
      rw [stringBody_plain hc, List.cons_append, Rule.scan_plain hslash hends, ih]
      rfl

end Escape

namespace Lexeme

open Escape

variable {first : Bool} {cs raw rest more : List Char} {kind : Token.Kind}

theorem ofString_eq_ok (h : ofString cs = ⟨raw, rest, .ok kind⟩) :
    (string.scan cs).fault = none ∧ (string.scan cs).rest = '"' :: rest ∧
      raw = '"' :: ((string.scan cs).raw ++ ['"']) ∧
      kind = .string (String.ofList (string.scan cs).value) := by
  rw [ofString, ofQuoted] at h
  split at h
  · cases h
  · next hfault hrest =>
    cases h
    exact ⟨hfault, hrest, rfl, rfl⟩
  · cases h

theorem ofText_encodeText (cs : List Char) (hmore : AtTag more) :
    ofText (encodeText cs ++ more) = ⟨encodeText cs, more, .ok (.text (String.ofList cs))⟩ := by
  simp only [ofText, scan_encodeText cs hmore]

theorem ofTag_quote (first : Bool) (cs : List Char) : ofTag first ('"' :: cs) = ofString cs := by
  simp [ofTag]

theorem ofTag_encodeString (first : Bool) (cs more : List Char) :
    ofTag first (encodeString cs ++ more) =
      ⟨encodeString cs, more, .ok (.string (String.ofList cs))⟩ := by
  rw [encodeString_eq, List.cons_append, List.append_assoc, List.singleton_append,
    ofTag_quote]
  simp [ofString, scan_stringBody, ofQuoted]

end Lexeme

end Template
