import Template.Document.Walk

/-! The outline of a document: a line for each node, indented by two spaces for each node above. -/
namespace Template

/-- The lines so far, and how many containers are open. -/
structure Outline where
  lines : Array String
  depth : Nat
deriving DecidableEq

namespace Outline

/-- The elements in their source form, one space between. -/
def spaced (elements : List Element) : String :=
  " ".intercalate (elements.map fun e => String.ofList e.source)

def heading : Node → String
  | .root _ => "Document"
  | .text value => "Text " ++ quotedString value
  | .echo elements => "Echo " ++ spaced elements
  | .loop head _ => "For " ++ head.counter.text ++ " " ++ spaced head.operands

def indent (depth : Nat) : String := String.ofList (List.replicate (2 * depth) ' ')

def addLine (node : Node) (o : Outline) : Outline :=
  { o with lines := o.lines.push (indent o.depth ++ heading node) }

def deepen (o : Outline) : Outline := { o with depth := o.depth + 1 }

def leave (o : Outline) : Outline := { o with depth := o.depth - 1 }

/-- Adds each node's line, one level deeper inside containers. -/
def printer : Walker (StateM Outline) where
  root children := modify fun o => (o.addLine (.root children)).deepen
  text value := modify (addLine (.text value))
  echo elements := modify (addLine (.echo elements))
  loop head children := modify fun o => (o.addLine (.loop head children)).deepen
  leaveRoot _ := modify leave
  leaveLoop _ _ := modify leave

end Outline

namespace Document

variable (d : Document)

def outlineLines : List String := ((d.walk Outline.printer).run ⟨#[], 0⟩).2.lines.toList

def outline : String := "\n".intercalate d.outlineLines

end Document

end Template
