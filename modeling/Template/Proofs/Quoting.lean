import Template.Quoted

/-! Quoted text, read back. -/
namespace Template.Quoted

variable {quote c : Char} {n : Nat} {cs ds more rest : List Char}

def digitValue (c : Char) : Nat :=
  if c.isDigit then c.toNat - '0'.toNat else c.toNat - 'a'.toNat + 10

/-- The number that the digits give, the most significant digit first. -/
def hexValue (cs : List Char) : Nat := cs.foldl (fun n c => 16 * n + digitValue c) 0

theorem digitValue_digitChar : ∀ d < 16, digitValue (Nat.digitChar d) = d := by
  decide

theorem hexValue_toDigits (n : Nat) : hexValue (Nat.toDigits 16 n) = n := by
  induction n using Nat.strongRecOn with
  | ind n ih =>
    rw [Nat.toDigits_eq_if (by decide)]
    split
    · next hlt => simp [hexValue, digitValue_digitChar n hlt]
    · next hge =>
      have hhigh := ih (n / 16) (by omega)
      have hlow := digitValue_digitChar (n % 16) (Nat.mod_lt n (by decide))
      rw [hexValue] at hhigh
      simp only [hexValue, List.foldl_append, hhigh, List.foldl_cons, hlow, List.foldl_nil]
      omega

theorem exists_digitChar_of_mem (h : c ∈ Nat.toDigits 16 n) : ∃ d < 16, c = Nat.digitChar d := by
  induction n using Nat.strongRecOn with
  | ind n ih =>
    rw [Nat.toDigits_eq_if (by decide)] at h
    split at h
    · next hlt => exact ⟨n, hlt, List.mem_singleton.1 h⟩
    · next hge =>
      rcases List.mem_append.1 h with h | h
      · exact ih (n / 16) (by omega) h
      · exact ⟨n % 16, Nat.mod_lt n (by decide), List.mem_singleton.1 h⟩

theorem ne_of_mem_toDigits (h : c ∈ Nat.toDigits 16 n) : c ≠ '}' ∧ c ≠ '\n' := by
  have hdigits : ∀ d < 16, Nat.digitChar d ≠ '}' ∧ Nat.digitChar d ≠ '\n' := by
    decide
  obtain ⟨d, hd, rfl⟩ := exists_digitChar_of_mem h
  exact hdigits d hd

/-- What a character behind a backslash stands for. -/
def meaning : Char → Char
  | '0' => '\x00'
  | 't' => '\t'
  | 'r' => '\r'
  | 'n' => '\n'
  | c => c

/-- The first character that quoted text stands for, and what is left of the text. -/
def read : List Char → Option (Char × List Char)
  | [] => none
  | '\\' :: 'u' :: '{' :: cs =>
    some (Char.ofNat (hexValue (cs.takeWhile (· ≠ '}'))), (cs.dropWhile (· ≠ '}')).drop 1)
  | '\\' :: c :: cs => some (meaning c, cs)
  | c :: cs => some (c, cs)

theorem read_escape (hc : c ≠ 'u') : read ('\\' :: c :: rest) = some (meaning c, rest) := by
  simp [read, hc]

theorem read_plain (hc : c ≠ '\\') : read (c :: rest) = some (c, rest) := by
  simp [read, hc]

theorem read_codePoint (c : Char) (rest : List Char) :
    read ('\\' :: 'u' :: '{' :: (Nat.toDigits 16 c.toNat ++ '}' :: rest)) = some (c, rest) := by
  have hdigits : ∀ d ∈ Nat.toDigits 16 c.toNat, decide (d ≠ '}') := by
    intro d hd
    exact decide_eq_true (ne_of_mem_toDigits hd).1
  rw [read, List.takeWhile_append_of_pos hdigits, List.dropWhile_append_of_pos hdigits]
  simp [hexValue_toDigits]

def IsQuote (quote : Char) : Prop := quote = '"' ∨ quote = '\''

/-- A character in its quoted form begins with no quote, is on one line, and is read back. -/
structure IsForm (quote c : Char) (form : List Char) : Prop where
  begins : ∃ d ds, form = d :: ds ∧ d ≠ quote
  oneLine : '\n' ∉ form
  read : ∀ rest, read (form ++ rest) = some (c, rest)

section

variable (hquote : IsQuote quote)
include hquote

theorem isForm_escape {d : Char} (hc : meaning d = c) (hd : d ≠ 'u' ∧ d ≠ '\n') :
    IsForm quote c ['\\', d] where
  begins := ⟨_, _, rfl, by rintro rfl; simp [IsQuote] at hquote⟩
  oneLine := by simp [hd.2.symm]
  read rest := by
    rw [← hc]
    exact read_escape hd.1

theorem isForm_codePoint (c : Char) :
    IsForm quote c (['\\', 'u', '{'] ++ Nat.toDigits 16 c.toNat ++ ['}']) where
  begins := ⟨_, _, rfl, by rintro rfl; simp [IsQuote] at hquote⟩
  oneLine := by
    have hdigits : '\n' ∉ Nat.toDigits 16 c.toNat := fun h => (ne_of_mem_toDigits h).2 rfl
    simp [hdigits]
  read rest := by
    simpa using read_codePoint c rest

theorem isForm_char (c : Char) : IsForm quote c (char quote c) := by
  unfold char
  split
  · exact isForm_escape hquote rfl (by decide)
  · exact isForm_escape hquote rfl (by decide)
  · exact isForm_escape hquote rfl (by decide)
  · exact isForm_escape hquote rfl (by decide)
  · exact isForm_escape hquote rfl (by decide)
  · next hline hbackslash =>
    split
    · next heq =>
      subst heq
      rcases hquote with rfl | rfl
      · exact isForm_escape (.inl rfl) rfl (by decide)
      · exact isForm_escape (.inr rfl) rfl (by decide)
    · next hne =>
      split
      · exact isForm_codePoint hquote c
      · exact ⟨⟨c, [], rfl, hne⟩, by simpa using Ne.symm hline, fun rest => read_plain hbackslash⟩

theorem newline_notMem_enclose (cs : List Char) : '\n' ∉ enclose quote cs := by
  have hne : '\n' ≠ quote := by
    rcases hquote with rfl | rfl <;> decide
  have hforms : ∀ c ∈ cs, '\n' ∉ char quote c := fun c _ => (isForm_char hquote c).oneLine
  simpa [enclose, hne] using hforms

theorem body_append_inj (h : cs.flatMap (char quote) ++ quote :: more =
    ds.flatMap (char quote) ++ quote :: rest) : cs = ds ∧ more = rest := by
  induction cs generalizing ds with
  | nil =>
    cases ds with
    | nil => exact ⟨rfl, (List.cons.inj h).2⟩
    | cons d ds =>
      obtain ⟨c, form, hform, hne⟩ := (isForm_char hquote d).begins
      rw [List.flatMap_cons, hform] at h
      exact absurd (List.cons.inj h).1.symm hne
  | cons c cs ih =>
    have hread := (isForm_char hquote c).read (cs.flatMap (char quote) ++ quote :: more)
    rw [List.flatMap_cons, List.append_assoc] at h
    cases ds with
    | nil =>
      obtain ⟨d, form, hform, hne⟩ := (isForm_char hquote c).begins
      rw [hform] at h
      exact absurd (List.cons.inj h).1 hne
    | cons d ds =>
      rw [h, List.flatMap_cons, List.append_assoc, (isForm_char hquote d).read, Option.some.injEq,
        Prod.mk.injEq] at hread
      obtain ⟨rfl, hrest⟩ := hread
      obtain ⟨rfl, hmore⟩ := ih hrest.symm
      exact ⟨rfl, hmore⟩

/-- What is between quotes can be told from what follows. -/
theorem enclose_append_inj (h : enclose quote cs ++ more = enclose quote ds ++ rest) :
    cs = ds ∧ more = rest := by
  apply body_append_inj hquote
  simpa [enclose] using h

end

end Template.Quoted
