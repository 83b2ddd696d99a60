/-! Double-precision numbers by their bits; a magnitude is a whole number of units of 2^-1074. -/
namespace Template

/-- A number by the bits of its binary64 form. -/
structure Double where
  bits : UInt64
deriving DecidableEq

namespace Double

-- powers of natural numbers are `Nat.pow`
attribute [local instance (1100)] instPowNat

def signBit : Nat := 0x8000000000000000

/-- The leading bit of a significand, left out of the bits of most numbers. -/
def leadingBit : Nat := 0x10000000000000

/-- The magnitude of the infinities; those above it are not numbers. -/
def infinite : Nat := 2047 * leadingBit

/-- The double of a sign and a magnitude. -/
def ofMagnitude (negative : Bool) (magnitude : Nat) : Double :=
  ⟨UInt64.ofNat (if negative then signBit + magnitude else magnitude)⟩

variable (x y : Double)

def negative : Bool := signBit ≤ x.bits.toNat

/-- The bits without the sign. -/
def magnitude : Nat := x.bits.toNat % signBit

def isFinite : Bool := x.magnitude < infinite

def isInfinite : Bool := x.magnitude = infinite

def isNaN : Bool := infinite < x.magnitude

/-- Equality of numbers: the zeros are equal, and what is not a number equals nothing. -/
def sameNumber : Bool :=
  !x.isNaN && !y.isNaN && (x == y || (x.magnitude == 0 && y.magnitude == 0))

/-- The unit is one divided by two so many times. -/
def unitBits : Nat := 1074

def unitsInOne : Nat := 2 ^ unitBits

theorem unitsInOne_pos : 0 < unitsInOne := Nat.two_pow_pos unitBits

/-- How many units of 2^-1074 a finite magnitude stands for. -/
def units (magnitude : Nat) : Nat :=
  if magnitude < 2 * leadingBit then magnitude
  else (leadingBit + magnitude % leadingBit) * 2 ^ (magnitude / leadingBit - 1)

variable {x y} {negative : Bool} {magnitude : Nat}

theorem toNat_bits_ofMagnitude (h : magnitude < signBit) :
    (ofMagnitude negative magnitude).bits.toNat =
      if negative then signBit + magnitude else magnitude := by
  rw [signBit] at *
  cases negative <;> simp [ofMagnitude, signBit] <;> omega

theorem magnitude_ofMagnitude (h : magnitude < signBit) :
    (ofMagnitude negative magnitude).magnitude = magnitude := by
  rw [Double.magnitude, toNat_bits_ofMagnitude h]
  cases negative <;> simp [Nat.mod_eq_of_lt h]

theorem negative_ofMagnitude (h : magnitude < signBit) :
    (ofMagnitude negative magnitude).negative = negative := by
  rw [Double.negative, toNat_bits_ofMagnitude h]
  cases negative <;> simp [h]

theorem ofMagnitude_eta (x : Double) : ofMagnitude x.negative x.magnitude = x := by
  obtain ⟨bits⟩ := x
  have hb := bits.toNat_lt
  simp only [ofMagnitude, Double.negative, Double.magnitude, decide_eq_true_eq, mk.injEq]
  apply UInt64.toNat_inj.1
  rw [UInt64.toNat_ofNat', signBit]
  split <;> omega

end Double

end Template
