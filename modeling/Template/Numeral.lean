import Template.Double.Nearest

/-! Numerals: digits with an optional minus sign before and an optional fraction behind. -/
namespace Template

attribute [local instance (1100)] instPowNat

/-- An empty fraction stands for none. -/
structure Numeral where
  negative : Bool
  whole : List Char
  fraction : List Char
deriving DecidableEq

namespace Numeral

def sign : Bool → List Char
  | true => ['-']
  | false => []

/-- A point and the digits, if there are any. -/
def pointed : List Char → List Char
  | [] => []
  | ds => '.' :: ds

def raw (n : Numeral) : List Char := sign n.negative ++ n.whole ++ pointed n.fraction

/-- The digits of a fraction at the front, and what follows them. A point belongs to a fraction
only if a digit stands behind the point. -/
def splitFraction : List Char → List Char × List Char
  | '.' :: cs =>
    if cs.takeWhile Char.isDigit = [] then ([], '.' :: cs)
    else (cs.takeWhile Char.isDigit, cs.dropWhile Char.isDigit)
  | cs => ([], cs)

def scanUnsigned (negative : Bool) (cs : List Char) : Numeral × List Char :=
  let (fraction, rest) := splitFraction (cs.dropWhile Char.isDigit)
  (⟨negative, cs.takeWhile Char.isDigit, fraction⟩, rest)

/-- The longest numeral at the front and what follows it. -/
def scan : List Char → Numeral × List Char
  | '-' :: cs => scanUnsigned true cs
  | cs => scanUnsigned false cs

def begins : List Char → Bool
  | '-' :: cs => cs.head?.any Char.isDigit
  | cs => cs.head?.any Char.isDigit

/-- The number that all digits together are, without sign and point. -/
def natural (n : Numeral) : Nat := Nat.ofDigitChars 10 (n.whole ++ n.fraction) 0

/-- The value without regard to a fraction. -/
def integer (n : Numeral) : Int := if n.negative then -n.natural else n.natural

def int32? (n : Numeral) : Option Int32 :=
  if Int32.minValue.toInt ≤ n.integer ∧ n.integer ≤ Int32.maxValue.toInt then
    some (Int32.ofInt n.integer)
  else none

def double (n : Numeral) : Double :=
  .ofMagnitude n.negative (Double.nearest n.natural (10 ^ n.fraction.length))

variable {cs : List Char} {negative : Bool}

theorem pointed_append_splitFraction (cs : List Char) :
    pointed (splitFraction cs).1 ++ (splitFraction cs).2 = cs := by
  fun_cases splitFraction cs
  · rfl
  · rename_i cs h
    rw [pointed.eq_2 _ h, List.cons_append, List.takeWhile_append_dropWhile]
  · rfl

theorem raw_append_scanUnsigned (negative : Bool) (cs : List Char) :
    (scanUnsigned negative cs).1.raw ++ (scanUnsigned negative cs).2 = sign negative ++ cs := by
  simp [scanUnsigned, raw, pointed_append_splitFraction]

theorem raw_append_scan (cs : List Char) : (scan cs).1.raw ++ (scan cs).2 = cs := by
  fun_cases scan cs <;> simp [raw_append_scanUnsigned, sign]

theorem raw_scan_ne_nil (h : begins cs) : (scan cs).1.raw ≠ [] := by
  fun_cases scan cs
  · simp [scanUnsigned, raw, sign]
  · cases cs <;> simp_all [begins, scanUnsigned, raw, sign]

end Numeral

end Template
