import Template.Position

/-! What can go wrong while tokens are read, and where. -/
namespace Template

/-- A backslash before a character of no meaning, what the end of input leaves open, an integer that
does not fit, or a request after the end. -/
inductive LexicalError.Cause
  | badEscape (c : Char)
  | openEscape
  | openString
  | badNumber (text : String)
  | openTag
  | exhausted
deriving DecidableEq

structure LexicalError where
  cause : LexicalError.Cause
  place : Position
deriving DecidableEq

namespace LexicalError

/-- Whether the error is one of the whole literal and is placed where that begins; all others are
placed where the reading stopped. -/
def Cause.isOfLiteral : Cause → Bool
  | .openString | .badNumber _ => true
  | _ => false

def Cause.text : Cause → String
  | .badEscape c => "invalid escape sequence '\\" ++ c.toString ++ "'"
  | .openEscape => "unterminated escape sequence"
  | .openString => "unterminated string literal"
  | .badNumber text => "invalid number literal '" ++ text ++ "'"
  | .openTag => "tag opened but never closed"
  | .exhausted => "no more tokens after end of input"

def message (e : LexicalError) : String :=
  "Lexer error at line " ++ toString e.place.line ++ ", column " ++ toString e.place.column ++ ": "
    ++ e.cause.text

end LexicalError

end Template
