import Template.Double.Nearest

/-! The shortest decimal that reads back as a given double, of these the nearest. -/
namespace Template

attribute [local instance (1100)] instPowNat

/-- The number `digits * 10 ^ exponent`. -/
structure Decimal where
  digits : Nat
  exponent : Int
deriving DecidableEq

namespace Decimal

/-- How many digits stand behind the point. -/
def places (d : Decimal) : Nat := (-d.exponent).toNat

def magnitude (d : Decimal) : Nat :=
  Double.nearest (d.digits * 10 ^ d.exponent.toNat) (10 ^ d.places)

/-- The same number without its last digit, if that is zero. -/
def trim (d : Decimal) : Decimal :=
  if d.digits % 10 = 0 then ⟨d.digits / 10, d.exponent + 1⟩ else d

end Decimal

namespace Double

/-- All digits of a finite magnitude: a unit is a power of five divided by the same power of ten. -/
def exact (magnitude : Nat) : Decimal := ⟨units magnitude * 5 ^ unitBits, -unitBits⟩

/-- The numbers next to `d` among those without its last `dropped` digits, the nearer one first. -/
def neighbours (d : Decimal) (dropped : Nat) : List Decimal :=
  let below : Decimal := ⟨d.digits / 10 ^ dropped, d.exponent + dropped⟩
  let above : Decimal := ⟨d.digits / 10 ^ dropped + 1, d.exponent + dropped⟩
  if 2 * (d.digits % 10 ^ dropped) < 10 ^ dropped then [below.trim, above.trim]
  else [above.trim, below.trim]

/-- Seventeen digits are enough for every double. -/
def shortest (magnitude : Nat) : Decimal :=
  if magnitude = 0 then ⟨0, 0⟩
  else
    let all := exact magnitude
    let count := (Nat.toDigits 10 all.digits).length
    match (List.range 17).findSome? fun i =>
      (neighbours all (count - (i + 1))).find? (·.magnitude = magnitude) with
    | some d => d
    | none => all

variable {num k magnitude : Nat}

theorem nearest_mul_five_pow : nearest (num * 5 ^ k) (10 ^ k) = nearest num (2 ^ k) := by
  rw [show 10 = 2 * 5 from rfl, Nat.mul_pow, nearest_mul_mul_right (Nat.pow_pos (by decide))]

theorem magnitude_exact (h : magnitude < infinite) : (exact magnitude).magnitude = magnitude := by
  simp only [Decimal.magnitude, Decimal.places, exact, Int.toNat_neg_natCast, Int.neg_neg,
    Int.toNat_natCast, Nat.pow_zero, Nat.mul_one, nearest_mul_five_pow]
  exact nearest_units h

/-- The shortest decimal reads back. -/
theorem magnitude_shortest (h : magnitude < infinite) :
    (shortest magnitude).magnitude = magnitude := by
  unfold shortest
  split
  · next h0 => simp [Decimal.magnitude, nearest_zero, h0]
  · simp only
    split
    · next d hit =>
      obtain ⟨i, _, hi⟩ := List.exists_of_findSome?_eq_some hit
      simpa using List.find?_some hi
    · exact magnitude_exact h

end Double

end Template
