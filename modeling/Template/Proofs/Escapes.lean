import Template.Proofs.Escaping

/-! A character is escaped if an odd number of backslashes stands right before it. -/
namespace Template

namespace Escape

/-- What stands behind the characters is escaped: they end in an odd number of backslashes. -/
def Escapes (before : List Char) : Prop :=
  (before.reverse.takeWhile (· == '\\')).length % 2 = 1

instance (before : List Char) : Decidable (Escapes before) :=
  inferInstanceAs (Decidable (_ = _))

/-- The characters with each escape replaced by its meaning. -/
def unescape (meaning : Char → Option Char) : List Char → List Char
  | '\\' :: c :: cs => (meaning c).getD c :: unescape meaning cs
  | c :: cs => c :: unescape meaning cs
  | [] => []

/-- A backslash in the characters is escaped itself or begins an escape that has a meaning. -/
def KnowsEscapes (meaning : Char → Option Char) (cs : List Char) : Prop :=
  ∀ before after, cs = before ++ '\\' :: after → ¬ Escapes before →
    ∃ c ∈ after.head?, (meaning c).isSome

/-- The rule reads the characters `raw` in front of `rest`, and they mean `value`. -/
structure Rule.Reads (rule : Rule) (raw value rest : List Char) : Prop where
  known : KnowsEscapes rule.meaning raw
  value_eq : value = unescape rule.meaning raw
  /-- What follows is not escaped. -/
  complete : ¬ Escapes raw
  /-- The text does not end before it has been read, except where its end is escaped. -/
  goesOn : ∀ before after, raw = before ++ after → after ≠ [] → ¬ Escapes before →
    rule.ends (after ++ rest) = false

/-- How a reading begins that gives the character `c` and then the others: with that character or
with an escape for it. -/
inductive Rule.Begins (rule : Rule) (c : Char) (value rest : List Char) :
    (cs raw : List Char) → Prop
  | plain {cs raw : List Char} (hc : c ≠ '\\') (hends : rule.ends (c :: cs) = false)
      (hscan : rule.scan cs = ⟨raw, value, rest, none⟩) :
      Begins rule c value rest (c :: cs) (c :: raw)
  | escape {d : Char} {cs raw : List Char} (hmeaning : rule.meaning d = some c)
      (hscan : rule.scan cs = ⟨raw, value, rest, none⟩) :
      Begins rule c value rest ('\\' :: d :: cs) ('\\' :: d :: raw)

variable {rule : Rule} {meaning : Char → Option Char} {c m : Char}
  {cs before after raw value rest : List Char}

theorem not_escapes_nil : ¬ Escapes [] := by
  decide

/-- Only backslashes that stand together are counted. -/
theorem escapes_cons_of_ne (hc : c ≠ '\\') : Escapes (c :: before) ↔ Escapes before := by
  simp only [Escapes, List.reverse_cons, List.takeWhile_append]
  split
  · next hall => simp [hc, ← hall]
  · rfl

/-- A backslash and the character that it escapes do not count. -/
theorem escapes_pair (c : Char) (before : List Char) :
    Escapes ('\\' :: c :: before) ↔ Escapes before := by
  simp only [Escapes, List.reverse_cons, List.append_assoc, List.takeWhile_append]
  split
  · next hall =>
    by_cases hc : c = '\\'
    · simp [hc, ← hall]
    · simp [hc, ← hall]
  · rfl

namespace Rule.Reads

theorem nil (rule : Rule) (rest : List Char) : rule.Reads [] [] rest where
  known before after h := by simp at h
  value_eq := rfl
  complete := not_escapes_nil
  goesOn before after h hne := by simp_all

theorem cons (h : rule.Reads raw value rest) (hc : c ≠ '\\')
    (hends : rule.ends (c :: (raw ++ rest)) = false) : rule.Reads (c :: raw) (c :: value) rest where
  known before after hraw hescapes := by
    cases before with
    | nil => exact (hc (List.cons.inj hraw).1).elim
    | cons d before =>
      cases hraw
      exact h.known before after rfl (mt (escapes_cons_of_ne hc).2 hescapes)
  value_eq := by
    rw [unescape, h.value_eq]
    intro _ _ hslash _
    exact hc hslash
  complete := mt (escapes_cons_of_ne hc).1 h.complete
  goesOn before after hraw hne hescapes := by
    cases before with
    | nil =>
      cases hraw
      exact hends
    | cons d before =>
      cases hraw
      exact h.goesOn before after rfl hne (mt (escapes_cons_of_ne hc).2 hescapes)

theorem escape (h : rule.Reads raw value rest) (hm : rule.meaning c = some m)
    (hends : rule.ends ('\\' :: c :: (raw ++ rest)) = false) :
    rule.Reads ('\\' :: c :: raw) (m :: value) rest where
  known before after hraw hescapes := by
    match before, hraw with
    | [], hraw =>
      cases hraw
      exact ⟨c, rfl, by simp [hm]⟩
    | [d], hraw =>
      cases hraw
      exact (hescapes (by decide)).elim
    | d :: d' :: before, hraw =>
      cases hraw
      exact h.known before after rfl (mt (escapes_pair c before).2 hescapes)
  value_eq := by rw [unescape, hm, h.value_eq, Option.getD_some]
  complete := mt (escapes_pair c raw).1 h.complete
  goesOn before after hraw hne hescapes := by
    match before, hraw with
    | [], hraw =>
      cases hraw
      exact hends
    | [d], hraw =>
      cases hraw
      exact (hescapes (by decide)).elim
    | d :: d' :: before, hraw =>
      cases hraw
      exact h.goesOn before after rfl hne (mt (escapes_pair c before).2 hescapes)

end Rule.Reads

/-- A character at which a scan finds no escape is no backslash. -/
theorem Rule.ne_slash (hsingle : ∀ (_ : c = '\\') (_ : cs = []), False)
    (hpair : ∀ d ds, c = '\\' → cs = d :: ds → False) : c ≠ '\\' := by
  rintro rfl
  cases cs with
  | nil => exact hsingle rfl rfl
  | cons d cs => exact hpair d cs rfl rfl

/-- Without a fault the characters are read up to the first end of the text that is not escaped. -/
theorem Rule.reads_of_scan (rule : Rule) (hslash : ∀ cs, rule.ends ('\\' :: cs) = false)
    (h : (rule.scan cs).fault = none) :
    rule.Reads (rule.scan cs).raw (rule.scan cs).value (rule.scan cs).rest := by
  fun_induction Rule.scan rule cs with
  | case1 => exact .nil rule []
  | case2 => cases h
  | case3 c cs m hm ih => exact (ih h).escape hm (hslash _)
  | case4 => cases h
  | case5 c cs => exact .nil rule (c :: cs)
  | case6 c cs hsingle hpair hends ih =>
    have hc : c ≠ '\\' := ne_slash hsingle hpair
    refine (ih h).cons hc ?_
    rw [Rule.raw_append_scan]
    exact Bool.eq_false_iff.2 hends

theorem Scan.exists_of_after {s : Scan} {front : List Char}
    (h : s.after front m = ⟨raw, c :: value, rest, none⟩) :
    m = c ∧ ∃ raw', raw = front ++ raw' ∧ s = ⟨raw', value, rest, none⟩ := by
  obtain ⟨raw', value', rest', fault⟩ := s
  cases h
  exact ⟨rfl, raw', rfl, rfl⟩

/-- Only where nothing is read, what is read means nothing. -/
theorem Rule.raw_eq_nil_iff (h : rule.scan cs = ⟨raw, value, rest, none⟩) :
    raw = [] ↔ value = [] := by
  revert h
  fun_cases Rule.scan rule cs <;> simp only [Scan.after, Scan.mk.injEq]
  all_goals
    rintro ⟨rfl, rfl, -, hfault⟩
    simp_all

theorem Rule.begins_of_scan (h : rule.scan cs = ⟨raw, c :: value, rest, none⟩) :
    rule.Begins c value rest cs raw := by
  revert h
  fun_cases Rule.scan rule cs with
  | case1 => rintro ⟨⟩
  | case2 => rintro ⟨⟩
  | case3 d cs m hm =>
    intro h
    obtain ⟨rfl, raw', rfl, hscan⟩ := Scan.exists_of_after h
    exact .escape hm hscan
  | case4 => rintro ⟨⟩
  | case5 => rintro ⟨⟩
  | case6 d cs hsingle hpair hends =>
    intro h
    obtain ⟨rfl, raw', rfl, hscan⟩ := Scan.exists_of_after h
    exact .plain (ne_slash hsingle hpair) (Bool.eq_false_iff.2 hends) hscan

theorem ends_text_iff : text.ends cs = true ↔ ∃ more, cs = '{' :: '$' :: more := by
  constructor
  · intro h
    simp only [text] at h
    split at h
    · exact ⟨_, rfl⟩
    · cases h
  · rintro ⟨more, rfl⟩
    rfl

end Escape

end Template
