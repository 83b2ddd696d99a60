import Template.Proofs.Numerals

/-! The compact text of doubles, read back to the last bit. -/
namespace Template

namespace Numeral

variable {m n : Numeral} {x y : List Char} {i j : Int}

/-- Two numerals that no digit and no point follows are told from what follows them. -/
theorem raw_append_inj (hm : m.WellFormed) (hn : n.WellFormed) (hx : EndsClass Char.isDigit x)
    (hy : EndsClass Char.isDigit y) (hx' : x.head? ≠ some '.') (hy' : y.head? ≠ some '.')
    (h : m.raw ++ x = n.raw ++ y) : m = n ∧ x = y := by
  have hscan := scan_raw hm hx hx'
  rw [h, scan_raw hn hy hy', Prod.mk.injEq] at hscan
  exact ⟨hscan.1.symm, hscan.2.symm⟩

theorem ofInt_injective (h : ofInt i = ofInt j) : i = j := by
  rw [← integer_ofInt i, h, integer_ofInt]

theorem raw_ofInt_injective (h : (ofInt i).raw = (ofInt j).raw) : i = j := by
  have hnumeral := raw_append_inj (wellFormed_ofInt i) (wellFormed_ofInt j) (.nil _) (.nil _)
    (by simp) (by simp) (congrArg (· ++ []) h)
  exact ofInt_injective hnumeral.1

end Numeral

namespace Decimal

/-- The power of ten of the first digit. -/
def power (d : Decimal) : Int := d.exponent + (d.chars.length - 1)

variable {d e : Decimal}

theorem isDigit_of_mem_chars {c : Char} (h : c ∈ d.chars) : c.isDigit :=
  Nat.isDigit_of_mem_toDigits (by decide) (by decide) h

/-- The digits and the power of the first of them determine a decimal. -/
theorem eq_of_chars_of_power (hchars : d.chars = e.chars) (hpower : d.power = e.power) : d = e := by
  have hdigits : d.digits = e.digits := by
    rw [← Nat.ofDigitChars_ten_toDigits (n := d.digits), ← chars, hchars, chars,
      Nat.ofDigitChars_ten_toDigits]
  have hexponent : d.exponent = e.exponent := by
    rw [power, power, hchars] at hpower
    omega
  obtain ⟨digits, exponent⟩ := d
  obtain rfl : digits = e.digits := hdigits
  obtain rfl : exponent = e.exponent := hexponent
  rfl

end Decimal

namespace Double

variable {x y : Double} {m n : Numeral} {tail more : List Char}

/-- The numeral before the exponent: the first digit and, as a fraction, the others. -/
def mantissa (x : Double) : Numeral := ⟨x.negative, x.decimal.chars.take 1, x.decimal.chars.drop 1⟩

/-- The numeral at the front of the compact text of a finite double, and what stands behind it. -/
inductive Shown (x : Double) : Numeral → List Char → Prop
  | pointed : Shown x x.numeral []
  | scientific : Shown x x.mantissa ('e' :: (Numeral.ofInt x.decimal.power).raw)

theorem wellFormed_mantissa (x : Double) : x.mantissa.WellFormed where
  nonempty := by
    have hchars : x.decimal.chars ≠ [] := Nat.toDigits_ne_nil
    simp [mantissa, hchars]
  whole _ hc := Decimal.isDigit_of_mem_chars (List.mem_of_mem_take hc)
  fraction _ hc := Decimal.isDigit_of_mem_chars (List.mem_of_mem_drop hc)

theorem isNaN_of_isFinite (h : x.isFinite) : x.isNaN = false := by
  rw [isFinite, decide_eq_true_eq] at h
  rw [isNaN, decide_eq_false_iff_not]
  omega

theorem signed_scientific (h : x.isFinite) : x.signed x.decimal.scientific =
    x.mantissa.raw ++ 'e' :: (Numeral.ofInt x.decimal.power).raw := by
  rw [Numeral.raw_ofInt, Decimal.power]
  simp [signed, isNaN_of_isFinite h, h, Decimal.scientific, mantissa, Numeral.raw]

theorem exists_shown (h : x.isFinite) : ∃ n tail, x.Shown n tail ∧ x.compact = n.raw ++ tail := by
  rw [compact]
  split
  · exact ⟨_, _, .scientific, signed_scientific h⟩
  · refine ⟨_, _, .pointed, ?_⟩
    rw [Double.pointed, if_pos h, List.append_nil]

/-- An infinity is as large as anything, so its sign and its word are all that is shown. -/
theorem compact_of_infinite (h : x.magnitude = infinite) :
    x.compact = Numeral.sign x.negative ++ ['i', 'n', 'f'] := by
  have hlarge : nearest 10000000000000000 1 ≤ x.magnitude := by
    rw [h]
    exact nearest_le_infinite
  have hpos : x.magnitude ≠ 0 := by
    rw [h]
    decide
  rw [compact, if_pos ⟨hpos, .inr hlarge⟩]
  simp [signed, isNaN, isFinite, h]

theorem magnitude_of_not_isFinite (hnumber : x.isNaN = false) (h : ¬ x.isFinite) :
    x.magnitude = infinite := by
  rw [isNaN, decide_eq_false_iff_not] at hnumber
  rw [isFinite, decide_eq_true_eq] at h
  omega

namespace Shown

theorem wellFormed (h : x.Shown n tail) : n.WellFormed := by
  cases h with
  | pointed => exact x.wellFormed_numeral
  | scientific => exact x.wellFormed_mantissa

theorem scan (h : x.Shown n tail) : Numeral.scan (n.raw ++ tail) = (n, tail) := by
  apply Numeral.scan_raw h.wellFormed
  · cases h with
    | pointed => exact .nil _
    | scientific => exact .cons rfl
  · cases h <;> simp

/-- What is shown of a finite double determines it. -/
theorem eq (h : x.Shown n tail) (h' : y.Shown m more) (hx : x.isFinite) (hy : y.isFinite)
    (hn : n = m) (htail : tail = more) : x = y := by
  cases h with
  | pointed =>
    cases h' with
    | pointed => rw [← double_numeral hx, hn, double_numeral hy]
    | scientific => cases htail
  | scientific =>
    cases h' with
    | pointed => cases htail
    | scientific =>
      simp only [mantissa, Numeral.mk.injEq] at hn
      obtain ⟨hnegative, hfirst, hothers⟩ := hn
      have hchars : x.decimal.chars = y.decimal.chars := by
        rw [← List.take_append_drop 1 x.decimal.chars, hfirst, hothers, List.take_append_drop]
      have hpower := Numeral.raw_ofInt_injective (List.cons.inj htail).2
      have hdecimal := Decimal.eq_of_chars_of_power hchars hpower
      have hmagnitude : x.magnitude = y.magnitude := by
        rw [isFinite, decide_eq_true_eq] at hx hy
        rw [← magnitude_shortest hx, ← magnitude_shortest hy]
        exact congrArg Decimal.magnitude hdecimal
      rw [← ofMagnitude_eta x, ← ofMagnitude_eta y, hnegative, hmagnitude]

end Shown

/-- What is read at the front of the compact text: what is shown, or the sign of an infinity. -/
theorem scan_compact (h : x.isNaN = false) :
    (x.isFinite ∧ ∃ n tail, x.Shown n tail ∧ Numeral.scan x.compact = (n, tail)) ∨
      (x.magnitude = infinite ∧
        Numeral.scan x.compact = (⟨x.negative, [], []⟩, ['i', 'n', 'f'])) := by
  by_cases hx : x.isFinite
  · obtain ⟨n, tail, hshown, hcompact⟩ := exists_shown hx
    refine .inl ⟨hx, n, tail, hshown, ?_⟩
    rw [hcompact, hshown.scan]
  · have hinfinite := magnitude_of_not_isFinite h hx
    refine .inr ⟨hinfinite, ?_⟩
    rw [compact_of_infinite hinfinite]
    cases x.negative <;> rfl

/-- Two numbers with the same compact text are the same to the last bit. -/
theorem compact_injective (hx : x.isNaN = false) (hy : y.isNaN = false)
    (h : x.compact = y.compact) : x = y := by
  rcases scan_compact hx with ⟨hfinite, n, tail, hshown, hscan⟩ | ⟨hinfinite, hscan⟩
  · rcases scan_compact hy with ⟨hfinite', m, more, hshown', hscan'⟩ | ⟨hinfinite', hscan'⟩
    · rw [h, hscan', Prod.mk.injEq] at hscan
      exact hshown.eq hshown' hfinite hfinite' hscan.1.symm hscan.2.symm
    · rw [h, hscan', Prod.mk.injEq] at hscan
      obtain ⟨rfl, -⟩ := hscan
      exact (hshown.wellFormed.nonempty rfl).elim
  · rcases scan_compact hy with ⟨hfinite', m, more, hshown', hscan'⟩ | ⟨hinfinite', hscan'⟩
    · rw [h, hscan', Prod.mk.injEq] at hscan
      obtain ⟨rfl, -⟩ := hscan
      exact (hshown'.wellFormed.nonempty rfl).elim
    · rw [h, hscan', Prod.mk.injEq, Numeral.mk.injEq] at hscan
      rw [← ofMagnitude_eta x, ← ofMagnitude_eta y, hinfinite, hinfinite', hscan.1.1]

theorem newline_notMem_compact (h : x.isNaN = false) : '\n' ∉ x.compact := by
  by_cases hx : x.isFinite
  · obtain ⟨n, tail, hshown, hcompact⟩ := exists_shown hx
    have hn := List.count_eq_zero.1 (Numeral.count_raw hshown.wellFormed)
    have htail : '\n' ∉ tail := by
      cases hshown with
      | pointed => exact List.not_mem_nil
      | scientific =>
        have hpower := List.count_eq_zero.1 (Numeral.count_raw
          (Numeral.wellFormed_ofInt x.decimal.power))
        simp [hpower]
    rw [hcompact]
    simp [hn, htail]
  · rw [compact_of_infinite (magnitude_of_not_isFinite h hx)]
    cases x.negative <;> simp [Numeral.sign]

end Double

end Template
