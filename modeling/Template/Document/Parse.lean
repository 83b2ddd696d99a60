import Template.Document.Builder
import Template.Token.Reader

/-! Parsing: a reader feeds a builder until the document is complete or one of the two fails. -/
namespace Template

def Builder.feedFrom (b : Builder) (r : Reader) : Except ParseError Document :=
  match h : r.next with
  | (.error e, _) => .error (.ofLexical e)
  | (.ok token, s) =>
    match b.feed token with
    | .error e => .error e
    | .ok (.complete d) => .ok d
    | .ok (.ongoing c) =>
      have := Reader.remaining_lt_of_next h
      c.feedFrom s
termination_by r.remaining

/-- The document of a source, or the first error in it. -/
def Document.parse (source : String) : Except ParseError Document :=
  Builder.initial.feedFrom (.ofSource source)

end Template
