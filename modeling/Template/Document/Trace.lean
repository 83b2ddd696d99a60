import Template.Document.Walk

/-! A record of the calls that a walk makes, with a place where it may be stopped. -/
namespace Template

inductive Event
  | root (childCount : Nat)
  | text (value : String)
  | echo (elements : List Element)
  | loop (counter : Name) (childCount : Nat)
  | leaveRoot
  | leaveLoop (counter : Name)
deriving DecidableEq

namespace Trace

/-- Walks that record events and may fail at the event of a given number, counted from zero. -/
abbrev Recorder := ExceptT Nat (StateM (Array Event))

def record (limit : Option Nat) (event : Event) : Recorder Unit := do
  let events ← get
  if limit = some events.size then throw events.size
  set (events.push event)

/-- Records the visits and, if `leaves` says so, the departures. -/
def recorder (leaves : Bool) (limit : Option Nat) : Walker Recorder where
  root children := record limit (.root children.size)
  text value := record limit (.text value)
  echo elements := record limit (.echo elements)
  loop head children := record limit (.loop head.counter children.size)
  leaveRoot _ := if leaves then record limit .leaveRoot else pure ()
  leaveLoop head _ := if leaves then record limit (.leaveLoop head.counter) else pure ()

end Trace

/-- The events of a walk from a node, and the number of the event that stopped it if one did. -/
def Document.trace (d : Document) (id : NodeNumber) (leaves : Bool) (limit : Option Nat) :
    Except Nat Unit × Array Event :=
  ((d.walkFrom (Trace.recorder leaves limit) id).run.run #[])

end Template
