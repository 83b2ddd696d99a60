import Template.Document.Outline
import Template.Proofs.Printing

/-! The outline of a tree, by recursion. -/
namespace Template

open Outline

variable {es : List Element}

namespace Outline

def line (depth : Nat) (node : Node) : String := indent depth ++ heading node

def addLines (lines : Nat → List String) (o : Outline) : Outline :=
  { o with lines := o.lines ++ lines o.depth }

end Outline

namespace Content

/-- The lines of the parts, when the outermost of them are at a depth. -/
def lines (depth : Nat) : Content → List String
  | nil => []
  | text value next => line depth (.text value) :: next.lines depth
  | echo elements next => line depth (.echo elements) :: next.lines depth
  | loop head body next =>
    line depth (.loop head #[]) :: (body.lines (depth + 1) ++ next.lines depth)

/-- The lines of the parts as text, with a line end before each. -/
def outlined (depth : Nat) (c : Content) : List Char :=
  (c.lines depth).flatMap ('\n' :: ·.toList)

end Content

/-- The walk adds the lines of the parts and comes back to the depth that it began at. -/
theorem walk_printer (c : Content) (first : Nat) :
    c.walk printer first = modify (addLines (c.lines ·)) := by
  induction c generalizing first with
  | nil =>
    funext o
    change ((), o) = ((), addLines (Content.lines · .nil) o)
    simp [addLines, Content.lines]
  | text value next ih =>
    rw [Content.walk, ih]
    funext o
    change ((), addLines (next.lines ·) (o.addLine (.text value))) = ((), addLines _ o)
    simp [addLines, addLine, Content.lines, line]
  | echo elements next ih =>
    rw [Content.walk, ih]
    funext o
    change ((), addLines (next.lines ·) (o.addLine (.echo elements))) = ((), addLines _ o)
    simp [addLines, addLine, Content.lines, line]
  | loop head body next ihb ihn =>
    rw [Content.walk, ihb, ihn]
    funext o
    change ((), addLines (next.lines ·) (leave (addLines (body.lines ·)
      (o.addLine (.loop head _)).deepen))) = ((), addLines _ o)
    simp [addLines, addLine, deepen, leave, Content.lines, line, heading, ← Array.toList_inj]

theorem outlineLines_document (c : Content) :
    c.document.outlineLines = "Document" :: c.lines 1 := by
  rw [Document.outlineLines, Document.walk_document, walk_printer]
  change (#["Document"] ++ c.lines 1).toList = _
  simp

theorem intercalate_cons (x : Char) (cs : List Char) (rest : List (List Char)) :
    [x].intercalate (cs :: rest) = cs ++ rest.flatMap (x :: ·) := by
  induction rest generalizing cs with
  | nil => simp
  | cons ds rest ih =>
    rw [List.intercalate_cons_cons, ih, List.flatMap_cons, List.append_assoc]
    rfl

theorem outline_document (c : Content) :
    c.document.outline.toList = "Document".toList ++ c.outlined 1 := by
  have hsep : "\n".toList = ['\n'] := rfl
  rw [Document.outline, outlineLines_document, String.toList_intercalate, hsep, List.map_cons,
    intercalate_cons, List.flatMap_map, Content.outlined]

theorem toList_spaced (hes : es ≠ []) : ' ' :: (spaced es).toList = spacedSource es := by
  have hsep : " ".toList = [' '] := rfl
  obtain ⟨e, es, rfl⟩ := List.exists_cons_of_ne_nil hes
  rw [spaced, String.toList_intercalate, hsep, List.map_map, List.map_cons, intercalate_cons]
  simp [spacedSource, List.flatMap_map]

theorem toList_heading_text (value : String) : (heading (.text value)).toList =
    "Text ".toList ++ Quoted.enclose '"' value.toList := by
  simp [heading, quotedString]

theorem toList_heading_echo (hes : es ≠ []) :
    (heading (.echo es)).toList = "Echo".toList ++ spacedSource es := by
  simp [heading, ← toList_spaced hes]

theorem toList_heading_loop (head : Loop) : (heading (.loop head #[])).toList =
    "For".toList ++ spacedSource (.var head.counter :: head.operands) := by
  have hoperands : head.operands ≠ [] := by simp [Loop.operands]
  rw [spacedSource, List.flatMap_cons, ← spacedSource, ← toList_spaced hoperands]
  simp [heading, Element.source]

end Template
