import Template.Document.Parse
import Template.Document.Source

/-! What becomes of a document that is written as source and parsed again. -/
namespace Template

inductive RoundTrip
  | equal
  | different
  | failed (error : ParseError)
deriving DecidableEq

/-- What the canonical source of the document parses to. -/
def Document.roundTrip (d : Document) : RoundTrip :=
  match Document.parse d.source with
  | .ok e => if e.sameValue d then .equal else .different
  | .error e => .failed e

end Template
