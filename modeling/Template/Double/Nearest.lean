import Template.Double

/-! The double nearest to a fraction, of two equally near the one whose last bit is zero. -/
namespace Template.Double

attribute [local instance (1100)] instPowNat

/-- The whole number nearest to `num / den`; of two, the even one. -/
def roundHalfEven (num den : Nat) : Nat :=
  let floor := num / den
  let twice := 2 * (num % den)
  if twice < den ∨ (twice = den ∧ floor % 2 = 0) then floor else floor + 1

/-- The magnitude nearest to `num / den`. -/
def nearest (num den : Nat) : Nat :=
  let shift := (num * unitsInOne / den).log2 - 52
  min infinite (roundHalfEven (num * unitsInOne) (den * 2 ^ shift) + shift * leadingBit)

variable {num den c magnitude : Nat}

@[simp] theorem roundHalfEven_one : roundHalfEven num 1 = num := by
  simp [roundHalfEven, Nat.mod_one]

theorem roundHalfEven_mul_mul_right (hc : 0 < c) :
    roundHalfEven (num * c) (den * c) = roundHalfEven num den := by
  simp only [roundHalfEven, Nat.mul_div_mul_right _ _ hc, Nat.mul_mod_mul_right, ← Nat.mul_assoc,
    Nat.mul_lt_mul_right hc, Nat.mul_right_cancel_iff hc]

theorem roundHalfEven_mul_self (hc : 0 < c) : roundHalfEven (num * c) c = num := by
  have h : roundHalfEven (num * c) (1 * c) = roundHalfEven num 1 := roundHalfEven_mul_mul_right hc
  rwa [Nat.one_mul, roundHalfEven_one] at h

/-- Only the value of the fraction counts. -/
theorem nearest_mul_mul_right (hc : 0 < c) : nearest (num * c) (den * c) = nearest num den := by
  have hn : num * c * unitsInOne = num * unitsInOne * c := Nat.mul_right_comm ..
  have hd (k : Nat) : den * c * k = den * k * c := Nat.mul_right_comm ..
  simp only [nearest, hn, hd, Nat.mul_div_mul_right _ _ hc, roundHalfEven_mul_mul_right hc]

theorem nearest_le_infinite : nearest num den ≤ infinite := Nat.min_le_left _ _

theorem nearest_zero : nearest 0 den = 0 := by
  by_cases h : den = 0 <;> simp [nearest, roundHalfEven, h]

theorem log2_scaled {e : Nat} (hl : leadingBit ≤ num) (hu : num < 2 * leadingBit) :
    (num * 2 ^ e).log2 = e + 52 := by
  have hpos := Nat.two_pow_pos e
  have hlead : leadingBit = 2 ^ 52 := rfl
  rw [Nat.log2_eq_iff (Nat.mul_ne_zero (by omega) (by omega))]
  constructor
  · rw [Nat.pow_add, Nat.mul_comm]
    exact Nat.mul_le_mul_right _ (hlead ▸ hl)
  · rw [Nat.add_assoc, Nat.pow_add, Nat.mul_comm]
    exact Nat.mul_lt_mul_of_pos_left (by omega) hpos

/-- A finite magnitude is the nearest to its own value. -/
theorem nearest_units (hm : magnitude < infinite) :
    nearest (units magnitude) unitsInOne = magnitude := by
  have hscale (k : Nat) : roundHalfEven (units magnitude * unitsInOne) (unitsInOne * k) =
      roundHalfEven (units magnitude) k := by
    rw [Nat.mul_comm unitsInOne, roundHalfEven_mul_mul_right unitsInOne_pos]
  have hlead : leadingBit = 2 ^ 52 := rfl
  simp only [nearest, Nat.mul_div_cancel _ unitsInOne_pos, hscale]
  by_cases h : magnitude < 2 * leadingBit
  · have hlog : magnitude.log2 - 52 = 0 := by
      by_cases h0 : magnitude = 0
      · simp [h0]
      · have : magnitude.log2 < 53 := (Nat.log2_lt h0).2 (by omega)
        omega
    simp only [units, h, if_true, hlog, Nat.pow_zero, roundHalfEven_one]
    omega
  · have hmod : magnitude % leadingBit < leadingBit := Nat.mod_lt _ (by decide)
    have hlog : ((leadingBit + magnitude % leadingBit) *
        2 ^ (magnitude / leadingBit - 1)).log2 = magnitude / leadingBit - 1 + 52 :=
      log2_scaled (by omega) (by omega)
    have hsum : leadingBit + magnitude % leadingBit + (magnitude / leadingBit - 1) * leadingBit =
        magnitude := by
      rw [hlead] at *
      omega
    simp only [units, h, if_false, hlog, Nat.add_sub_cancel,
      roundHalfEven_mul_self (Nat.two_pow_pos _), hsum]
    omega

end Template.Double
