import Template.Proofs.Meaning

/-! What follows a lexeme matters only by how it begins. -/
namespace Template

open Token Character

/-- What follows instead of `rest` begins with the same character or with a blank. -/
def Alike (rest rest' : List Char) : Prop :=
  rest'.head? = rest.head? ∨ ∃ c ∈ rest'.head?, isBlank c

variable {p : Char → Bool} {c : Char} {cs raw rest rest' gap gap' body : List Char} {first : Bool}
  {kind : Kind}

theorem Alike.endsClass (h : Alike rest rest') (hp : ∀ c, isBlank c → p c = false)
    (hrest : EndsClass p rest) : EndsClass p rest' := by
  intro c hc
  rcases h with hhead | ⟨d, hd, hblank⟩
  · exact hrest c (hhead ▸ hc)
  · obtain rfl : d = c := Option.some.inj (hd.symm.trans hc)
    exact hp d hblank

theorem Alike.head?_ne (h : Alike rest rest') (hc : isBlank c = false)
    (hrest : rest.head? ≠ some c) : rest'.head? ≠ some c := by
  intro hhead
  rcases h with halike | ⟨d, hd, hblank⟩
  · exact hrest (halike.symm.trans hhead)
  · obtain rfl : d = c := Option.some.inj (hd.symm.trans hhead)
    exact Bool.false_ne_true (hc.symm.trans hblank)

theorem alike_of_gaps (hgap' : ∀ c ∈ gap', isBlank c) (hnil : gap' = [] → gap = [])
    (hraw : raw ≠ []) : Alike (gap ++ (raw ++ rest)) (gap' ++ (raw ++ rest')) := by
  cases gap' with
  | nil =>
    obtain rfl := hnil rfl
    obtain ⟨c, cs, rfl⟩ := List.exists_cons_of_ne_nil hraw
    exact .inl rfl
  | cons c gap' => exact .inr ⟨c, rfl, hgap' c List.mem_cons_self⟩

theorem head?_ne_of_gap (hgap : ∀ c ∈ gap, isBlank c) (hc : isBlank c = false)
    (hcs : cs.head? ≠ some c) : (gap ++ cs).head? ≠ some c := by
  cases gap with
  | nil => exact hcs
  | cons d gap =>
    rintro ⟨⟩
    exact Bool.false_ne_true (hc.symm.trans (hgap c List.mem_cons_self))

/-- What a scan has read is read again if the text ends behind it and no earlier than before. -/
theorem Escape.Rule.scan_raw_append {rule : Rule} (h : (rule.scan cs).fault = none)
    (hends : ∀ c ds, rule.ends (c :: (ds ++ (rule.scan cs).rest)) = false →
      rule.ends (c :: (ds ++ rest')) = false)
    (hrest' : rule.scan rest' = ⟨[], [], rest', none⟩) :
    rule.scan ((rule.scan cs).raw ++ rest') = { rule.scan cs with rest := rest' } := by
  fun_induction Rule.scan rule cs with
  | case1 => exact hrest'
  | case2 => cases h
  | case3 c cs m hm ih =>
    have hscan := ih h hends
    rw [Scan.after, List.append_assoc, List.cons_append, List.cons_append, List.nil_append,
      scan_escape hm, hscan]
    rfl
  | case4 => cases h
  | case5 => exact hrest'
  | case6 c cs hsingle hpair hnot ih =>
    have hscan := ih h hends
    have hc : c ≠ '\\' := ne_slash hsingle hpair
    have hplain := hends c (rule.scan cs).raw (by
      rw [Scan.after, Rule.raw_append_scan]
      exact Bool.eq_false_iff.2 hnot)
    rw [Scan.after, List.append_assoc, List.singleton_append, scan_plain hc hplain, hscan]
    rfl

theorem Escape.ends_string_cons (c : Char) (cs ds : List Char) :
    string.ends (c :: cs) = string.ends (c :: ds) := by
  by_cases hc : c = '"'
  · rw [hc]
    rfl
  · simp [string, hc]

theorem Numeral.endsClass_splitFraction (h : EndsClass Char.isDigit cs) :
    EndsClass Char.isDigit (splitFraction cs).2 := by
  fun_cases splitFraction cs
  · exact .cons rfl
  · exact endsClass_dropWhile _ _
  · exact h

/-- A numeral is read up to the last of its digits. -/
theorem Numeral.endsClass_scan (cs : List Char) : EndsClass Char.isDigit (scan cs).2 := by
  fun_cases scan cs
  · exact endsClass_splitFraction (endsClass_dropWhile _ _)
  · exact endsClass_splitFraction (endsClass_dropWhile _ _)

namespace Lexeme

/-- Text up to a tag is read the same up to another tag, or up to the end of input. -/
theorem ofText_of_atTag (h : ofText (raw ++ rest) = ⟨raw, rest, .ok kind⟩)
    (hrest' : Escape.AtTag rest') : ofText (raw ++ rest') = ⟨raw, rest', .ok kind⟩ := by
  simp only [ofText, mk.injEq] at h
  obtain ⟨hraw, hrest, h⟩ := h
  split at h
  · cases h
  · next hfault =>
    cases h
    have hends : ∀ c ds, Escape.text.ends (c :: (ds ++ (Escape.text.scan (raw ++ rest)).rest)) =
        false → Escape.text.ends (c :: (ds ++ rest')) = false := by
      intro c ds hends
      refine Escape.ends_text_eq_false fun hbrace hmark => ?_
      cases ds with
      | nil => exact Escape.head?_of_atTag hrest' hmark
      | cons d ds =>
        subst hbrace
        cases hmark
        cases hends
    have hscan := Escape.Rule.scan_raw_append hfault hends (Escape.scan_atTag hrest')
    rw [hraw] at hscan
    simp only [ofText, hscan, hfault, hraw]

/-- A string literal is read the same whatever follows it. -/
theorem ofString_of_rest (h : ofString (body ++ rest) = ⟨'"' :: body, rest, .ok kind⟩)
    (rest' : List Char) : ofString (body ++ rest') = ⟨'"' :: body, rest', .ok kind⟩ := by
  obtain ⟨hfault, -, hraw, rfl⟩ := ofString_eq_ok h
  have hbody : body = (Escape.string.scan (body ++ rest)).raw ++ ['"'] := (List.cons.inj hraw).2
  have hquote : Escape.string.scan ('"' :: rest') = ⟨[], [], '"' :: rest', none⟩ :=
    Escape.Rule.scan_end (by decide) rfl
  have hscan := Escape.Rule.scan_raw_append hfault
    (fun c _ hends => (Escape.ends_string_cons c _ _).trans hends) hquote
  generalize Escape.string.scan (body ++ rest) = s at hbody hfault hscan
  subst hbody
  rw [ofString, List.append_assoc, List.singleton_append, hscan, ofQuoted]
  simp only [hfault, List.cons_append]

theorem ofNumeral_of_alike (hbegins : Numeral.begins (raw ++ rest))
    (h : ofNumeral (raw ++ rest) = ⟨raw, rest, .ok kind⟩) (halike : Alike rest rest')
    (hpoint : rest.head? ≠ some '.') : ofTag first (raw ++ rest') = ⟨raw, rest', .ok kind⟩ := by
  have hn := Numeral.wellFormed_scan hbegins
  have hraw : (Numeral.scan (raw ++ rest)).1.raw = raw := congrArg Lexeme.raw h
  have hrest : (Numeral.scan (raw ++ rest)).2 = rest := congrArg Lexeme.rest h
  have hends : EndsClass Char.isDigit rest := hrest ▸ Numeral.endsClass_scan (raw ++ rest)
  have hscan := Numeral.scan_raw hn (halike.endsClass (fun _ => isDigit_eq_false_of_isBlank) hends)
    (halike.head?_ne rfl hpoint)
  have hbegins' := Numeral.begins_raw hn rest'
  rw [hraw] at hscan hbegins'
  rw [ofTag_of_begins hbegins', ofNumeral, hscan, mk.injEq]
  exact ⟨hraw, rfl, congrArg Lexeme.outcome h⟩

theorem ofTag_word_of_alike (hname : isName raw) (hrest : EndsClass isNameChar rest)
    (h : ofTag first (raw ++ rest) = ⟨raw, rest, .ok kind⟩) (halike : Alike rest rest') :
    ofTag first (raw ++ rest') = ⟨raw, rest', .ok kind⟩ := by
  have hrest' := halike.endsClass (fun _ => isNameChar_eq_false_of_isBlank) hrest
  have hname' : isName (String.ofList raw).toList := by rwa [String.toList_ofList]
  have hread := ofTag_word first ⟨_, hname'⟩ hrest
  have hread' := ofTag_word first ⟨_, hname'⟩ hrest'
  simp only [String.toList_ofList] at hread hread'
  cases hread.symm.trans h
  exact hread'

theorem ofTag_function_of_alike (hname : isName cs) (hrest : EndsClass isNameChar rest)
    (halike : Alike rest rest') : ofTag first ('@' :: cs ++ rest') =
      ⟨'@' :: cs, rest', .ok (.function (String.ofList cs))⟩ := by
  have hrest' := halike.endsClass (fun _ => isNameChar_eq_false_of_isBlank) hrest
  have hname' : isName (String.ofList cs).toList := by rwa [String.toList_ofList]
  have hread : ofTag first ('@' :: (String.ofList cs).toList ++ rest') = _ :=
    ofTag_function ⟨_, hname'⟩ hrest'
  simp only [String.toList_ofList] at hread
  exact hread

theorem raw_ne_nil_of_ofTag (h : ofTag first (raw ++ rest) = ⟨raw, rest, .ok kind⟩) : raw ≠ [] := by
  rintro rfl
  cases rest with
  | nil => cases h
  | cons c rest => exact raw_ofTag_ne_nil (List.cons_ne_nil c rest) (congrArg Lexeme.raw h)

/-- A point that begins no numeral is no token of a template. -/
theorem head?_ne_point (h : ofTag first cs = ⟨raw, rest, .ok kind⟩)
    (hkind : ∀ c, kind ≠ .other c) : cs.head? ≠ some '.' := by
  intro hhead
  obtain ⟨cs, rfl⟩ := List.head?_eq_some_iff.1 hhead
  rw [ofTag_of_class (· == '.') rfl rfl rfl, if_neg (by decide)] at h
  cases h
  exact hkind '.' rfl

/-- What stands in a tag is read the same before a text that begins alike. -/
theorem ofTag_of_alike (h : ofTag first (raw ++ rest) = ⟨raw, rest, .ok kind⟩)
    (hkind : ∀ c, kind ≠ .other c) (halike : Alike rest rest') (hpoint : rest.head? ≠ some '.') :
    ofTag first (raw ++ rest') = ⟨raw, rest', .ok kind⟩ := by
  obtain ⟨c, cs, rfl⟩ := List.exists_cons_of_ne_nil (raw_ne_nil_of_ofTag h)
  have hread := h
  rw [List.cons_append, ofTag] at h
  split at h
  · next hecho =>
    cases h
    rw [List.cons_append, ofTag, if_pos hecho]
    rfl
  next hecho =>
  split at h
  · next hquote =>
    subst hquote
    rw [List.cons_append, ofTag, if_neg hecho, if_pos rfl]
    exact ofString_of_rest h rest'
  split at h
  · next hat =>
    rw [Bool.and_eq_true] at hat
    obtain rfl : c = '@' := by simpa using hat.1
    have hname := isName_takeWhile_of_any hat.2
    have hends := endsClass_dropWhile isNameChar (cs ++ rest)
    simp only [ofFunction, mk.injEq, List.cons.injEq, true_and, Except.ok.injEq] at h
    obtain ⟨hword, hrest, rfl⟩ := h
    rw [hword] at hname ⊢
    rw [hrest] at hends
    exact ofTag_function_of_alike hname hends halike
  split at h
  · next hbegins => exact ofNumeral_of_alike hbegins h halike hpoint
  next hbegins =>
  split at h
  · next hoperator =>
    cases h
    refine ofTag_of_isOperatorChar hoperator ?_
    rintro rfl
    refine halike.endsClass (fun _ => isDigit_eq_false_of_isBlank) ?_
    exact endsClass_of_any (by simpa [Numeral.begins] using hbegins)
  split at h
  · next hletter =>
    have hword : (c :: (cs ++ rest)).takeWhile isNameChar = c :: cs := congrArg Lexeme.raw h
    have hrest : (c :: (cs ++ rest)).dropWhile isNameChar = rest := congrArg Lexeme.rest h
    have hname := isName_takeWhile hletter (cs ++ rest)
    have hends := endsClass_dropWhile isNameChar (c :: (cs ++ rest))
    rw [hword] at hname
    rw [hrest] at hends
    exact ofTag_word_of_alike hname hends hread halike
  · cases h
    exact (hkind c rfl).elim

end Lexeme

end Template
