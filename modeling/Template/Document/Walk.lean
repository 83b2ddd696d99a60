import Template.Document

/-! Walks through a document, in any monad; what is left to do is a list of steps. -/
namespace Template

/-- What to do at each node, and when a container is left. -/
structure Walker (m : Type → Type) where
  root : Array NodeNumber → m Unit
  text : String → m Unit
  echo : List Element → m Unit
  loop : Loop → Array NodeNumber → m Unit
  leaveRoot : Array NodeNumber → m Unit
  leaveLoop : Loop → Array NodeNumber → m Unit

/-- Work that is left in a walk. -/
inductive WalkStep
  | enter (id : NodeNumber)
  | leave (id : NodeNumber)
deriving DecidableEq

variable {m : Type → Type} [Monad m] (w : Walker m) (d : Document)

def Walker.visit : Node → m Unit
  | .root children => w.root children
  | .text value => w.text value
  | .echo elements => w.echo elements
  | .loop head children => w.loop head children

def Walker.leave : Node → m Unit
  | .root children => w.leaveRoot children
  | .loop head children => w.leaveLoop head children
  | .text _ | .echo _ => pure ()

/-- The steps that a node asks for when it is entered. -/
def Node.steps (id : NodeNumber) : Node → List WalkStep
  | .root children | .loop _ children => children.toList.map .enter ++ [.leave id]
  | .text _ | .echo _ => []

namespace Document

/-- Does the steps in order, at most `fuel` of them. Steps at numbers without a node do nothing. -/
def walkSteps : Nat → List WalkStep → m Unit
  | 0, _ | _, [] => pure ()
  | fuel + 1, .enter id :: rest =>
    match d.node? id with
    | some node => do
      w.visit node
      walkSteps fuel (node.steps id ++ rest)
    | none => walkSteps fuel rest
  | fuel + 1, .leave id :: rest =>
    match d.node? id with
    | some node => do
      w.leave node
      walkSteps fuel rest
    | none => walkSteps fuel rest

/-- Walks what stands at and below a node. Each node is entered once and left at most once. -/
def walkFrom (id : NodeNumber) : m Unit := d.walkSteps w (2 * d.size) [.enter id]

def walk : m Unit := d.walkFrom w rootNumber

end Document

end Template
