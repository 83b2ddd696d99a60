import Template.Character.Range

/-! White space. -/
namespace Template.Character

/-- Characters with the Unicode property White_Space beyond ASCII. -/
def blankRanges : List (Nat × Nat) :=
  [(0x0085, 0x0085), (0x00A0, 0x00A0), (0x1680, 0x1680), (0x2000, 0x200A), (0x2028, 0x2029),
   (0x202F, 0x202F), (0x205F, 0x205F), (0x3000, 0x3000)]

/-- White space: space, tab to carriage return, and the Unicode blanks beyond ASCII. -/
def isBlank (c : Char) : Bool :=
  inClass (fun c => c == ' ' || ('\t' ≤ c && c ≤ '\r')) blankRanges c

end Template.Character
