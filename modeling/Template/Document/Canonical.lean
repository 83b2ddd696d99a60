import Template.Document.Parse
import Template.Document.Source

/-! Sources in canonical form, as a host program asks for them. -/
namespace Template

/-- The canonical source of what a source parses to, or the first error in it. -/
def canonicalSource (source : String) : Except ParseError String :=
  (Document.parse source).map Document.source

/-- The same for a host that takes errors as messages. -/
def canonicalSourceOrMessage (source : String) : Except String String :=
  (canonicalSource source).mapError ParseError.message

end Template
