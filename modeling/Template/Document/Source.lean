import Template.Document.Walk

/-! The canonical source of a document. -/
namespace Template

namespace Source

def echo (elements : List Element) : List Char :=
  ['{', '$', ' ', '='] ++ elements.flatMap (' ' :: ·.source) ++ [' ', '$', '}']

def loop (head : Loop) : List Char :=
  ['{', '$', ' ', 'F', 'O', 'R', ' '] ++ head.counter.text.toList
    ++ head.operands.flatMap (' ' :: ·.source) ++ [' ', '$', '}']

def endLoop : List Char := ['{', '$', 'E', 'N', 'D', '$', '}']

abbrev Writer := StateM String

def write (cs : List Char) : Writer Unit := modify (· ++ String.ofList cs)

/-- Writes each node's own part behind what has been written. -/
def writer : Walker Writer where
  root _ := pure ()
  text value := write (Escape.encodeText value.toList)
  echo elements := write (echo elements)
  loop head _ := write (loop head)
  leaveRoot _ := pure ()
  leaveLoop _ _ := write endLoop

end Source

namespace Document

variable (d : Document)

def source : String := ((d.walk Source.writer).run "").2

/-- The sources of the parts of a document below the given nodes, one behind the other. -/
def fragments (ids : List NodeNumber) : String :=
  ((ids.forM (d.walkFrom Source.writer)).run "").2

end Document

end Template
