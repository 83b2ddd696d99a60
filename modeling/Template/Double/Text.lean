import Template.Double.Shortest
import Template.Numeral

/-! The written forms of doubles; all show the shortest decimal that reads back. -/
namespace Template

attribute [local instance (1100)] instPowNat

namespace Decimal

def chars (d : Decimal) : List Char := Nat.toDigits 10 d.digits

/-- The digits in their places, with zeros on either side so that one stands before the point. -/
def placed (d : Decimal) : List Char :=
  List.replicate (d.places + 1 - d.chars.length) '0' ++ d.chars ++
    List.replicate d.exponent.toNat '0'

def whole (d : Decimal) : List Char := d.placed.take (d.placed.length - d.places)

def fraction (d : Decimal) : List Char := d.placed.drop (d.placed.length - d.places)

/-- One digit, a point where more follow, and the power of ten. -/
def scientific (d : Decimal) : List Char :=
  let power := d.exponent + (d.chars.length - 1)
  d.chars.take 1 ++ Numeral.pointed (d.chars.drop 1) ++ 'e' :: (toString power).toList

end Decimal

namespace Double

variable (x : Double)

def decimal : Decimal := shortest x.magnitude

def signed (finite : List Char) : List Char :=
  if x.isNaN then ['N', 'a', 'N']
  else Numeral.sign x.negative ++ if x.isFinite then finite else ['i', 'n', 'f']

/-- The digits in their places, with a point only where digits stand behind it. -/
def plain : List Char := x.signed (x.decimal.whole ++ Numeral.pointed x.decimal.fraction)

/-- The numeral of a finite double. Where no digit stands behind the point, a zero does. -/
def numeral : Numeral where
  negative := x.negative
  whole := x.decimal.whole
  fraction := if x.decimal.fraction = [] then ['0'] else x.decimal.fraction

/-- The digits in their places, with a point and digits behind it. -/
def pointed : List Char := if x.isFinite then x.numeral.raw else x.plain

/-- With an exponent from 1e16 on and below 1e-4. -/
def compact : List Char :=
  if x.magnitude ≠ 0 ∧
      (x.magnitude < nearest 1 10000 ∨ nearest 10000000000000000 1 ≤ x.magnitude) then
    x.signed x.decimal.scientific
  else x.pointed

end Double

variable {d : Decimal} {x : Double}

theorem ofDigitChars_replicate_zero (k n : Nat) :
    Nat.ofDigitChars 10 (List.replicate k '0') n = n * 10 ^ k := by
  induction k generalizing n with
  | zero => simp
  | succ k ih =>
    rw [List.replicate_succ, Nat.ofDigitChars_cons, ih, Nat.pow_succ]
    simp [Nat.mul_comm, Nat.mul_assoc]

namespace Decimal

theorem ofDigitChars_placed :
    Nat.ofDigitChars 10 d.placed 0 = d.digits * 10 ^ d.exponent.toNat := by
  simp only [placed, Nat.ofDigitChars_append, ofDigitChars_replicate_zero, Nat.zero_mul, chars]
  rw [Nat.ofDigitChars_toDigits (by decide) (by decide)]

theorem whole_append_fraction : d.whole ++ d.fraction = d.placed := List.take_append_drop ..

theorem length_fraction : d.fraction.length = d.places := by
  rw [fraction, List.length_drop, placed]
  simp only [List.length_append, List.length_replicate]
  omega

end Decimal

namespace Double

theorem nearest_numeral :
    nearest x.numeral.natural (10 ^ x.numeral.fraction.length) = x.decimal.magnitude := by
  have hn := x.decimal.ofDigitChars_placed
  have hl := x.decimal.length_fraction
  rw [← Decimal.whole_append_fraction] at hn
  rw [Decimal.magnitude, ← hn, ← hl, Numeral.natural, numeral]
  by_cases h : x.decimal.fraction = []
  · simp only [h, if_true, List.append_nil, List.length_nil, List.length_singleton,
      Nat.ofDigitChars_append]
    exact (congrArg (nearest · _) (ofDigitChars_replicate_zero 1 _)).trans
      (nearest_mul_mul_right (by decide))
  · simp only [h, if_false]

/-- The numeral of a finite double reads as that double. -/
theorem double_numeral (h : x.isFinite) : x.numeral.double = x := by
  have hm : x.magnitude < infinite := by simpa [isFinite] using h
  rw [Numeral.double, nearest_numeral, decimal, magnitude_shortest hm]
  exact ofMagnitude_eta x

end Double

end Template
