import Template.Double.Text
import Template.Position
import Template.Quoted

/-! Tokens of a template: literal text, halves of tag delimiters, and what stands inside tags. -/
namespace Template

/-- Tag names; only the first token of a tag can be one. -/
inductive Keyword
  | loop
  | endLoop
  | echo
deriving DecidableEq

def Keyword.text : Keyword → String
  | .loop => "FOR"
  | .endLoop => "END"
  | .echo => "="

def isOperatorChar (c : Char) : Bool := ['+', '-', '*', '/', '^'].contains c

def Keyword.listing : Keyword → String
  | .loop => "For"
  | .endLoop => "End"
  | .echo => "Echo"

namespace Token

/-- What a token is. A tag opens with a brace and a mark and closes with a mark and a brace; a
character that is nothing else stands for itself. -/
inductive Kind
  | text (value : String)
  | tagOpen
  | tagMark
  | tagClose
  | blanks (value : String)
  | keyword (k : Keyword)
  | identifier (name : String)
  | string (value : String)
  | int (value : Int32)
  | double (value : Double)
  | function (name : String)
  | operator (c : Char)
  | other (c : Char)
  | eof
deriving DecidableEq

/-- The words for a token in error messages. -/
def Kind.phrase : Kind → String
  | .text _ => "text"
  | .tagOpen => "'\x7b'"
  | .tagMark => "'$'"
  | .tagClose => "'\x7d'"
  | .blanks _ => "whitespace"
  | .keyword k => "keyword '" ++ k.text ++ "'"
  | .identifier name => "identifier '" ++ name ++ "'"
  | .string value => "string " ++ quotedString value
  | .int value => "integer " ++ toString value.toInt
  | .double value => "number " ++ String.ofList value.plain
  | .function name => "function '@" ++ name ++ "'"
  | .operator c => "operator '" ++ c.toString ++ "'"
  | .other c => "symbol '" ++ c.toString ++ "'"
  | .eof => "end of input"

def Kind.listing : Kind → String
  | .text value => "Text(" ++ quotedString value ++ ")"
  | .tagOpen => "TagOpen"
  | .tagMark => "TagMark"
  | .tagClose => "TagClose"
  | .blanks value => "Whitespace(" ++ quotedString value ++ ")"
  | .keyword k => "Keyword(" ++ k.listing ++ ")"
  | .identifier name => "Identifier(" ++ quotedString name ++ ")"
  | .string value => "String(" ++ quotedString value ++ ")"
  | .int value => "Int(" ++ toString value.toInt ++ ")"
  | .double value => "Double(" ++ String.ofList value.compact ++ ")"
  | .function name => "Function(" ++ quotedString name ++ ")"
  | .operator c => "Operator(" ++ quotedChar c ++ ")"
  | .other c => "Symbol(" ++ quotedChar c ++ ")"
  | .eof => "Eof"

end Token

structure Token where
  kind : Token.Kind
  span : Span
deriving DecidableEq

/-- The place and the listed kind, with a tab between. -/
def Token.listing (t : Token) : String :=
  toString t.span.start.line ++ ":" ++ toString t.span.start.column ++ "\t" ++ t.kind.listing

end Template
