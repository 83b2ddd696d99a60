import Template.Character.Extending
import Template.Character.Printable

/-! Strings and characters in quotes, on one line. -/
namespace Template.Quoted

open Character

/-- The form of a character between two of the given quotes. -/
def char (quote c : Char) : List Char :=
  match c with
  | '\x00' => ['\\', '0']
  | '\t' => ['\\', 't']
  | '\r' => ['\\', 'r']
  | '\n' => ['\\', 'n']
  | '\\' => ['\\', '\\']
  | c =>
    if c = quote then ['\\', c]
    else if isExtending c || !isPrintable c then
      ['\\', 'u', '{'] ++ Nat.toDigits 16 c.toNat ++ ['}']
    else [c]

def enclose (quote : Char) (cs : List Char) : List Char :=
  quote :: cs.flatMap (char quote) ++ [quote]

end Template.Quoted

namespace Template

def quotedString (s : String) : String := String.ofList (Quoted.enclose '"' s.toList)

def quotedChar (c : Char) : String := String.ofList (Quoted.enclose '\'' [c])

end Template
