/-! Places in a source text, by bytes and by line and column, and stretches between places. -/
namespace Template

/-- Lines and columns count from one; a column is one character wide. -/
structure Position where
  offset : Nat := 0
  line : Nat := 1
  column : Nat := 1
deriving DecidableEq

namespace Position

def step (p : Position) (c : Char) : Position where
  offset := p.offset + c.utf8Size
  line := if c = '\n' then p.line + 1 else p.line
  column := if c = '\n' then 1 else p.column + 1

/-- The place behind the characters, when they begin at `p`. -/
def after (p : Position) (cs : List Char) : Position := cs.foldl step p

variable {p : Position} {c : Char} {cs ds : List Char}

@[simp] theorem after_nil : p.after [] = p := rfl

@[simp] theorem after_cons : p.after (c :: cs) = (p.step c).after cs := rfl

@[simp] theorem after_append : p.after (cs ++ ds) = (p.after cs).after ds := List.foldl_append

end Position

/-- The place where a stretch begins and the byte offset where it ends. -/
structure Span where
  start : Position
  stop : Nat
deriving DecidableEq

def dropBytes : Nat → List Char → List Char
  | 0, cs => cs
  | _, [] => []
  | n + 1, c :: cs => dropBytes (n + 1 - c.utf8Size) cs

def takeBytes : Nat → List Char → List Char
  | 0, _ => []
  | _, [] => []
  | n + 1, c :: cs => c :: takeBytes (n + 1 - c.utf8Size) cs

def Span.slice (s : Span) (source : List Char) : List Char :=
  takeBytes (s.stop - s.start.offset) (dropBytes s.start.offset source)

end Template
