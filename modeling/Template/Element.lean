import Template.Double.Text
import Template.Escape
import Template.Name
import Template.Quoted

/-! Elements, the content of tags: names, literals and operators. -/
namespace Template

/-- The arithmetic operators, by the characters `+ - * / ^`. -/
inductive Operator
  | add
  | sub
  | mul
  | div
  | pow
deriving DecidableEq

namespace Operator

def ofChar? : Char → Option Operator
  | '+' => some .add
  | '-' => some .sub
  | '*' => some .mul
  | '/' => some .div
  | '^' => some .pow
  | _ => none

def char : Operator → Char
  | .add => '+'
  | .sub => '-'
  | .mul => '*'
  | .div => '/'
  | .pow => '^'

theorem ofChar?_char (op : Operator) : ofChar? op.char = some op := by
  cases op <;> rfl

end Operator

inductive Element
  | var (name : Name)
  | string (value : String)
  | int (value : Int32)
  | double (value : Double)
  | function (name : Name)
  | operator (op : Operator)
deriving DecidableEq

namespace Element

def isLoopOperand : Element → Bool
  | .var _ | .string _ | .int _ | .double _ => true
  | .function _ | .operator _ => false

/-- Equality of elements, where doubles are compared as numbers. -/
def sameValue : Element → Element → Bool
  | .double x, .double y => x.sameNumber y
  | a, b => a == b

def source : Element → List Char
  | .var name => name.text.toList
  | .string value => Escape.encodeString value.toList
  | .int value => (toString value.toInt).toList
  | .double value => value.pointed
  | .function name => '@' :: name.text.toList
  | .operator op => [op.char]

/-- The words for an element in error messages. -/
def phrase : Element → String
  | .var name => "variable '" ++ name.text ++ "'"
  | .string value => "string " ++ quotedString value
  | .int value => "integer " ++ toString value.toInt
  | .double value => "number " ++ String.ofList value.plain
  | .function name => "function '@" ++ name.text ++ "'"
  | .operator op => "operator '" ++ op.char.toString ++ "'"

end Element

end Template
