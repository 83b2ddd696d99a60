/-! Character classes: an ASCII part and a table of ranges for what is beyond it. -/
namespace Template.Character

/-- Whether one of the ranges, both of whose ends count, holds the code point. -/
def inRanges (ranges : List (Nat × Nat)) (code : Nat) : Bool :=
  ranges.any fun (first, last) => first ≤ code && code ≤ last

/-- The class with `ascii` as its ASCII part and `ranges` beyond. -/
def inClass (ascii : Char → Bool) (ranges : List (Nat × Nat)) (c : Char) : Bool :=
  if c.toNat < 128 then ascii c else inRanges ranges c.toNat

variable {ascii : Char → Bool} {ranges : List (Nat × Nat)} {c : Char}

theorem inClass_of_ascii (h : c.toNat < 128) : inClass ascii ranges c = ascii c := by
  simp [inClass, h]

theorem mem_ranges_of_inClass (hc : inClass ascii ranges c) (h : ¬ c.toNat < 128) :
    ∃ r ∈ ranges, r.1 ≤ c.toNat ∧ c.toNat ≤ r.2 := by
  simpa [inClass, h, inRanges] using hc

end Template.Character
