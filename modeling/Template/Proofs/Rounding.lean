import Mathlib.Algebra.Order.Field.Rat
import Mathlib.Algebra.Order.Group.Abs
import Mathlib.Tactic.FieldSimp
import Mathlib.Tactic.Linarith
import Mathlib.Tactic.Positivity
import Mathlib.Tactic.Ring
import Template.Double.Nearest

/-! No double is nearer to a fraction than the one that is taken for it. -/
namespace Template.Double

attribute [local instance (1100)] instPowNat

/-- The absolute value that a magnitude stands for. -/
def value (magnitude : Nat) : ℚ := units magnitude / unitsInOne

/-- The magnitude is what the absolute value `q` rounds to. -/
structure IsRounding (q : ℚ) (magnitude : Nat) : Prop where
  le_infinite : magnitude ≤ infinite
  nearest : ∀ m ≤ infinite, |value magnitude - q| ≤ |value m - q|
  even : ∀ m ≤ infinite, m ≠ magnitude → |value m - q| = |value magnitude - q| → magnitude % 2 = 0

variable {num den k s m : Nat} {q : ℚ}

/-- The whole number that `q` rounds to. -/
structure IsWhole (q : ℚ) (k : Nat) : Prop where
  le_half : |(k : ℚ) - q| ≤ 1 / 2
  even : |(k : ℚ) - q| = 1 / 2 → k % 2 = 0

theorem isWhole_roundHalfEven (hden : 0 < den) : IsWhole (num / den) (roundHalfEven num den) := by
  have hpos : (0 : ℚ) < den := by exact_mod_cast hden
  have hsplit : (num : ℚ) = den * (num / den : Nat) + (num % den : Nat) := by
    exact_mod_cast (Nat.div_add_mod num den).symm
  obtain ⟨part, hpart⟩ : ∃ part : ℚ, part = (num % den : Nat) / den := ⟨_, rfl⟩
  have hquotient : (num : ℚ) / den = (num / den : Nat) + part := by
    rw [hsplit, hpart]
    field_simp
  have hmod : ((num % den : Nat) : ℚ) = part * den := by
    rw [hpart]
    field_simp
  have hnonneg : 0 ≤ part := by
    rw [hpart]
    positivity
  have hless : part < 1 := by
    rw [hpart, div_lt_one hpos]
    exact_mod_cast Nat.mod_lt num hden
  have hlt : 2 * (num % den) < den ↔ 2 * part < 1 := by
    rw [← Nat.cast_lt (α := ℚ), Nat.cast_mul, hmod, Nat.cast_two, ← mul_assoc,
      mul_lt_iff_lt_one_left hpos]
  have heq : 2 * (num % den) = den ↔ 2 * part = 1 := by
    rw [← Nat.cast_inj (R := ℚ), Nat.cast_mul, hmod, Nat.cast_two, ← mul_assoc,
      mul_eq_right₀ hpos.ne']
  rw [hquotient]
  simp only [roundHalfEven, hlt, heq]
  split
  · next h =>
    have habs : |((num / den : Nat) : ℚ) - ((num / den : Nat) + part)| = part := by
      rw [sub_add_cancel_left, abs_neg, abs_of_nonneg hnonneg]
    constructor
    · rcases h with h | h <;> linarith
    · intro hhalf
      rcases h with h | ⟨-, heven⟩
      · linarith
      · exact heven
  · next h =>
    rw [not_or, not_lt, not_and] at h
    have habs : |((num / den + 1 : Nat) : ℚ) - ((num / den : Nat) + part)| = 1 - part := by
      rw [Nat.cast_succ, add_sub_add_left_eq_sub, abs_of_pos (sub_pos.2 hless)]
    constructor
    · linarith [h.1]
    · intro hhalf
      have hodd := h.2 (by linarith)
      omega

/-- Every other whole number is farther from `q`, or as far and then the first is even. -/
theorem IsWhole.nearest (h : IsWhole q k) (n : Nat) (hne : n ≠ k) :
    |(k : ℚ) - q| < |(n : ℚ) - q| ∨ |(k : ℚ) - q| = |(n : ℚ) - q| ∧ k % 2 = 0 := by
  have hapart : (1 : ℚ) ≤ |(n : ℚ) - k| := by
    have hint : (1 : Int) ≤ |(n : Int) - k| := Int.one_le_abs (by omega)
    exact_mod_cast hint
  have htriangle := abs_sub_le (n : ℚ) q k
  rw [abs_sub_comm q] at htriangle
  rcases h.le_half.lt_or_eq with hlt | heq
  · left
    linarith
  · rcases (show |(k : ℚ) - q| ≤ |(n : ℚ) - q| by linarith).lt_or_eq with hlt | heven
    · exact .inl hlt
    · exact .inr ⟨heven, h.even heq⟩

theorem IsWhole.le (h : IsWhole q k) (n : Nat) : |(k : ℚ) - q| ≤ |(n : ℚ) - q| := by
  by_cases hne : n = k
  · rw [hne]
  · rcases h.nearest n hne with hlt | ⟨heq, -⟩
    · exact hlt.le
    · exact heq.le

theorem units_add_mul (hk : k ≤ 2 * leadingBit) (hs : s = 0 ∨ leadingBit ≤ k) :
    units (k + s * leadingBit) = k * 2 ^ s := by
  have hlead : leadingBit = 4503599627370496 := rfl
  rw [hlead] at hk hs
  simp only [units, hlead]
  split
  · next hsmall =>
    obtain rfl : s = 0 := by omega
    simp
  · next hlarge =>
    by_cases htop : k = 2 * 4503599627370496
    · have hdiv : (k + s * 4503599627370496) / 4503599627370496 - 1 = s + 1 := by omega
      have hmod : (k + s * 4503599627370496) % 4503599627370496 = 0 := by omega
      rw [hdiv, hmod, htop, Nat.pow_succ']
      ring
    · have hdiv : (k + s * 4503599627370496) / 4503599627370496 - 1 = s := by omega
      have hmod : 4503599627370496 + (k + s * 4503599627370496) % 4503599627370496 = k := by omega
      rw [hdiv, hmod]

/-- The significand of a magnitude and how far it is shifted. -/
theorem exists_eq_add_mul (m : Nat) : ∃ k s, m = k + s * leadingBit ∧ k < 2 * leadingBit ∧
    (s = 0 ∨ leadingBit ≤ k) := by
  have hlead : leadingBit = 4503599627370496 := rfl
  by_cases hsmall : m < 2 * leadingBit
  · exact ⟨m, 0, by omega, hsmall, .inl rfl⟩
  · refine ⟨leadingBit + m % leadingBit, m / leadingBit - 1, ?_, ?_, .inr ?_⟩ <;>
      rw [hlead] at * <;> omega

theorem units_strictMono : StrictMono units := by
  apply strictMono_nat_of_lt_succ
  intro m
  obtain ⟨k, s, rfl, hk, hs⟩ := exists_eq_add_mul m
  have hsucc : k + s * leadingBit + 1 = k + 1 + s * leadingBit := by omega
  have hs' : s = 0 ∨ leadingBit ≤ k + 1 := by omega
  rw [hsucc, units_add_mul hk.le hs, units_add_mul hk hs']
  exact Nat.mul_lt_mul_of_pos_right (Nat.lt_succ_self k) (Nat.two_pow_pos s)

theorem value_strictMono : StrictMono value := by
  intro m n h
  have hone : (0 : ℚ) < unitsInOne := by exact_mod_cast unitsInOne_pos
  rw [value, value, div_lt_div_iff_of_pos_right hone]
  exact_mod_cast units_strictMono h

/-- What is not a multiple of the shifted unit is less than any significand so shifted. -/
theorem units_eq_mul_or_lt (m s : Nat) :
    (∃ j, units m = j * 2 ^ s) ∨ (s ≠ 0 ∧ units m < leadingBit * 2 ^ s) := by
  obtain ⟨k, e, rfl, hk, hs⟩ := exists_eq_add_mul m
  by_cases hle : s ≤ e
  · left
    refine ⟨k * 2 ^ (e - s), ?_⟩
    rw [units_add_mul hk.le hs, Nat.mul_assoc, ← Nat.pow_add, Nat.sub_add_cancel hle]
  · refine .inr ⟨by omega, ?_⟩
    rw [← units_add_mul (by omega) (.inr le_rfl)]
    apply units_strictMono
    have hmul : (e + 1) * leadingBit ≤ s * leadingBit := Nat.mul_le_mul_right _ (by omega)
    rw [Nat.add_mul] at hmul
    omega

/-- The magnitude whose significand is rounded is nearer than every other, or as near and even. -/
theorem IsWhole.nearest_units (h : IsWhole (q / (2 ^ s : Nat)) k) (hk : k ≤ 2 * leadingBit)
    (hs : s = 0 ∨ leadingBit ≤ k) (hq : s = 0 ∨ ((leadingBit * 2 ^ s : Nat) : ℚ) ≤ q)
    (hne : m ≠ k + s * leadingBit) :
    |(units (k + s * leadingBit) : ℚ) - q| < |(units m : ℚ) - q| ∨
    |(units (k + s * leadingBit) : ℚ) - q| = |(units m : ℚ) - q| ∧
      (k + s * leadingBit) % 2 = 0 := by
  have hunits := units_add_mul hk hs
  have hpos : (0 : ℚ) < (2 ^ s : Nat) := by exact_mod_cast Nat.two_pow_pos s
  have hscale (j : Nat) :
      |((j * 2 ^ s : Nat) : ℚ) - q| = |(j : ℚ) - q / (2 ^ s : Nat)| * (2 ^ s : Nat) := by
    rw [← abs_of_pos hpos, ← abs_mul, abs_of_pos hpos, sub_mul, div_mul_cancel₀ q hpos.ne',
      Nat.cast_mul]
  rcases units_eq_mul_or_lt m s with ⟨j, hj⟩ | ⟨hs0, hless⟩
  · have hjk : j ≠ k := by
      rintro rfl
      exact hne (units_strictMono.injective (hj.trans hunits.symm))
    rw [hunits, hj, hscale, hscale, mul_lt_mul_iff_left₀ hpos, mul_left_inj' hpos.ne']
    rcases h.nearest j hjk with hlt | ⟨heq, heven⟩
    · exact .inl hlt
    · refine .inr ⟨heq, ?_⟩
      rw [leadingBit]
      omega
  · -- no tie here: the least significand so shifted lies between
    left
    have hle := hq.resolve_left hs0
    have hless' : (units m : ℚ) < (leadingBit * 2 ^ s : Nat) := by exact_mod_cast hless
    calc |(units (k + s * leadingBit) : ℚ) - q|
        = |(k : ℚ) - q / (2 ^ s : Nat)| * (2 ^ s : Nat) := by rw [hunits, hscale]
      _ ≤ |(leadingBit : ℚ) - q / (2 ^ s : Nat)| * (2 ^ s : Nat) :=
          mul_le_mul_of_nonneg_right (h.le leadingBit) hpos.le
      _ = |((leadingBit * 2 ^ s : Nat) : ℚ) - q| := (hscale leadingBit).symm
      _ < |(units m : ℚ) - q| := by
          rw [abs_of_nonpos (by linarith), abs_of_nonpos (by linarith)]
          linarith

theorem roundHalfEven_bounds (num den : Nat) :
    num / den ≤ roundHalfEven num den ∧ roundHalfEven num den ≤ num / den + 1 := by
  simp only [roundHalfEven]
  split <;> omega

/-- The shift leaves a significand, with its leading bit where anything is shifted out. -/
theorem shift_bounds (n : Nat) : n / 2 ^ (n.log2 - 52) < 2 * leadingBit ∧
    (n.log2 - 52 = 0 ∨ leadingBit * 2 ^ (n.log2 - 52) ≤ n) := by
  have hlead : leadingBit = 2 ^ 52 := rfl
  have hlt : n < 2 ^ (n.log2 + 1) := Nat.lt_log2_self
  constructor
  · rw [Nat.div_lt_iff_lt_mul (Nat.two_pow_pos _), hlead, ← Nat.pow_succ', ← Nat.pow_add]
    apply hlt.trans_le
    exact Nat.pow_le_pow_right (by decide) (by omega)
  · by_cases hzero : n.log2 - 52 = 0
    · exact .inl hzero
    · right
      have hn : n ≠ 0 := by
        rintro rfl
        exact hzero rfl
      rw [hlead, ← Nat.pow_add, Nat.add_sub_cancel' (by omega)]
      exact Nat.log2_self_le hn

/-- A whole number of units, before it is cut at infinity: the nearest of all magnitudes. -/
theorem exists_nearest (num : Nat) (hden : 0 < den) : ∃ u, nearest num den = min infinite u ∧
    ∀ m, m ≠ u → |value u - num / den| < |value m - num / den| ∨
      |value u - num / den| = |value m - num / den| ∧ u % 2 = 0 := by
  have hone : (0 : ℚ) < unitsInOne := by exact_mod_cast unitsInOne_pos
  obtain ⟨total, htotal⟩ : ∃ total, total = num * unitsInOne := ⟨_, rfl⟩
  obtain ⟨s, hs⟩ : ∃ s, s = (total / den).log2 - 52 := ⟨_, rfl⟩
  have hcut := shift_bounds (total / den)
  rw [← hs, Nat.div_div_eq_div_mul] at hcut
  have hbounds := roundHalfEven_bounds total (den * 2 ^ s)
  have hround : IsWhole (((total : ℚ) / den) / (2 ^ s : Nat))
      (roundHalfEven total (den * 2 ^ s)) := by
    rw [div_div, ← Nat.cast_mul]
    exact isWhole_roundHalfEven (Nat.mul_pos hden (Nat.two_pow_pos s))
  have hlead : s = 0 ∨ leadingBit ≤ roundHalfEven total (den * 2 ^ s) := by
    refine hcut.2.imp_right fun h => le_trans ?_ hbounds.1
    rwa [← Nat.div_div_eq_div_mul, Nat.le_div_iff_mul_le (Nat.two_pow_pos s)]
  have hq : s = 0 ∨ ((leadingBit * 2 ^ s : Nat) : ℚ) ≤ total / den := by
    refine hcut.2.imp_right fun h => ?_
    rw [le_div_iff₀ (by exact_mod_cast hden)]
    exact_mod_cast (Nat.le_div_iff_mul_le hden).1 h
  have hvalue (m : Nat) :
      |value m - num / den| = |(units m : ℚ) - total / den| / unitsInOne := by
    have hsplit : value m - num / den = ((units m : ℚ) - total / den) / unitsInOne := by
      rw [htotal, value, Nat.cast_mul, mul_div_right_comm, sub_div,
        mul_div_cancel_right₀ _ hone.ne']
    rw [hsplit, abs_div, abs_of_pos hone]
  refine ⟨roundHalfEven total (den * 2 ^ s) + s * leadingBit, ?_, fun m hne => ?_⟩
  · rw [nearest, ← htotal, ← hs]
  · rw [hvalue, hvalue, div_lt_div_iff_of_pos_right hone, div_left_inj' hone.ne']
    exact hround.nearest_units (by omega) hlead hq hne

/-- The magnitude that is taken for a fraction is what the fraction rounds to. -/
theorem isRounding_nearest (num : Nat) (hden : 0 < den) :
    IsRounding (num / den) (nearest num den) := by
  obtain ⟨u, hmin, hnearest⟩ := exists_nearest num hden
  by_cases hu : u ≤ infinite
  · rw [hmin, Nat.min_eq_right hu]
    refine ⟨hu, fun m _ => ?_, fun m _ hne heq => ?_⟩
    · by_cases hne : m = u
      · rw [hne]
      · rcases hnearest m hne with hlt | ⟨heq, -⟩
        · exact hlt.le
        · exact heq.le
    · rcases hnearest m hne with hlt | ⟨-, heven⟩
      · exact absurd heq hlt.ne'
      · exact heven
  · -- the fraction is nearer to a magnitude behind infinity, so it lies behind infinity itself
    have hbehind : value infinite < num / den := by
      by_contra hle
      have hless : value infinite < value u := value_strictMono (by omega)
      have hstrict : |value infinite - num / den| < |value u - num / den| := by
        rw [abs_of_nonneg (by linarith), abs_of_nonneg (by linarith)]
        linarith
      rcases hnearest infinite (by omega) with hlt | ⟨heq, -⟩ <;> linarith
    have hfarther (m : Nat) (hm : m < infinite) :
        |value infinite - num / den| < |value m - num / den| := by
      have hless := value_strictMono hm
      rw [abs_of_nonpos (by linarith), abs_of_nonpos (by linarith)]
      linarith
    rw [hmin, Nat.min_eq_left (by omega)]
    refine ⟨le_rfl, fun m hm => ?_, fun m hm hne heq => ?_⟩
    · rcases hm.lt_or_eq with hlt | rfl
      · exact (hfarther m hlt).le
      · exact le_rfl
    · exact absurd heq (hfarther m (by omega)).ne'

end Template.Double
