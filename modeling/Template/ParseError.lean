import Template.Element
import Template.LexicalError
import Template.Token

/-! What can make a source no template, and where. -/
namespace Template

/-- What the grammar of templates allows at a place. -/
inductive Expected
  | textOrTag
  | openingMark
  | tagName
  | element
  | elementOrEnd
  | endOfTag
  | closingBrace
deriving DecidableEq

def Expected.text : Expected → String
  | .textOrTag => "text or a tag"
  | .openingMark => "'$' after '\x7b'"
  | .tagName => "a tag name"
  | .element => "an element"
  | .elementOrEnd => "an element or '$\x7d'"
  | .endOfTag => "'$\x7d' after END"
  | .closingBrace => "'\x7d' after '$'"

inductive ParseError.Cause
  | lexical (cause : LexicalError.Cause)
  | unexpected (expected : Expected) (found : Token.Kind)
  | badCounter (found : Token.Kind)
  | badOperand (found : Element)
  /-- The count includes the loop's counter. -/
  | loopSize (count : Nat)
  | badName (name : String)
  | unknownTag (name : String)
  | strayEnd
  | openLoops (count : Nat)
  | emptyEcho
deriving DecidableEq

structure ParseError where
  cause : ParseError.Cause
  place : Position
deriving DecidableEq

namespace ParseError

def ofLexical (e : LexicalError) : ParseError := ⟨.lexical e.cause, e.place⟩

def Cause.text : Cause → String
  | .lexical cause => cause.text
  | .unexpected expected found => "expected " ++ expected.text ++ ", found " ++ found.phrase
  | .badCounter found => "FOR expects a variable name, found " ++ found.phrase
  | .badOperand found =>
    "FOR bounds must be variables, strings or numbers, found " ++ found.phrase
  | .loopSize count => "FOR expects 3 or 4 elements, found " ++ toString count
  | .badName name => "invalid identifier '" ++ name ++ "'"
  | .unknownTag name => "unknown tag '" ++ name ++ "'"
  | .strayEnd => "END without a matching FOR"
  | .openLoops count => toString count ++ " FOR loop(s) still open at end of input"
  | .emptyEcho => "echo tag has no elements"

def message (e : ParseError) : String :=
  "Parse error at line " ++ toString e.place.line ++ ", column " ++ toString e.place.column ++ ": "
    ++ e.cause.text

end ParseError

end Template
