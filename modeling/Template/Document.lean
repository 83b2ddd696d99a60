import Template.Element

/-! Documents: nodes numbered in the order they were added, the root at number zero. -/
namespace Template

abbrev NodeNumber := Nat

/-- What a loop says of itself: its counter, its bounds, and how far it steps. -/
structure Loop where
  counter : Name
  start : Element
  stop : Element
  step : Option Element
deriving DecidableEq

/-- The root and loops hold children; text and echoes are leaves. -/
inductive Node
  | root (children : Array NodeNumber)
  | text (value : String)
  | echo (elements : List Element)
  | loop (head : Loop) (children : Array NodeNumber)
deriving DecidableEq

structure Document where
  nodes : Array Node
deriving DecidableEq

/-- The bounds, and the step if there is one. -/
def Loop.operands (l : Loop) : List Element := l.start :: l.stop :: l.step.toList

namespace Node

def children : Node → Array NodeNumber
  | .root children | .loop _ children => children
  | .text _ | .echo _ => #[]

@[simp] theorem children_root (children : Array NodeNumber) :
    (root children).children = children := rfl

@[simp] theorem children_text (value : String) : (text value).children = #[] := rfl

@[simp] theorem children_echo (elements : List Element) : (echo elements).children = #[] := rfl

@[simp] theorem children_loop (head : Loop) (children : Array NodeNumber) :
    (loop head children).children = children := rfl

def addChild (id : NodeNumber) : Node → Node
  | .root children => .root (children.push id)
  | .loop head children => .loop head (children.push id)
  | leaf => leaf

end Node

namespace Document

def empty : Document := ⟨#[.root #[]]⟩

def rootNumber : NodeNumber := 0

variable (d : Document)

def size : Nat := d.nodes.size

def node? (id : NodeNumber) : Option Node := d.nodes[id]?

def append (parent : NodeNumber) (node : Node) : Document :=
  ⟨(d.nodes.modify parent (·.addChild d.nodes.size)).push node⟩

end Document

def sameValues (as bs : List Element) : Bool := as.isEqv bs Element.sameValue

def Node.sameValue : Node → Node → Bool
  | .root cs, .root ds => cs == ds
  | .text s, .text t => s == t
  | .echo as, .echo bs => sameValues as bs
  | .loop l cs, .loop k ds =>
    l.counter == k.counter && sameValues l.operands k.operands && cs == ds
  | _, _ => false

def Document.sameValue (d e : Document) : Bool :=
  d.nodes.toList.isEqv e.nodes.toList Node.sameValue

end Template
