import Template.Document.Builder
import Template.Proofs.Content

/-! Documents in the making: a tree of parts whose last loops are still open. -/
namespace Template

/-- An open loop, and the parts before it in its container. -/
structure Frame where
  before : Content
  head : Loop

/-- The open loops, innermost first. -/
abbrev OpenLoops := List Frame

namespace OpenLoops

/-- The number of the first part in the innermost open loop. -/
def first : OpenLoops → Nat
  | [] => 1
  | f :: outer => first outer + f.before.size + 1

def numbers : OpenLoops → List NodeNumber
  | [] => []
  | f :: outer => (first outer + f.before.size) :: numbers outer

/-- The nodes up to the innermost open loop, whose children are the `inner` ones. -/
def nodes (inner : List NodeNumber) : OpenLoops → List Node
  | [] => [.root inner.toArray]
  | f :: outer =>
    nodes (f.before.numbers (first outer) ++ [first outer + f.before.size]) outer ++
      f.before.nodes (first outer) ++ [.loop f.head inner.toArray]

/-- The document so far, where the innermost open loop holds the parts `c`. -/
def document (loops : OpenLoops) (c : Content) : Document :=
  ⟨(nodes (c.numbers (first loops)) loops ++ c.nodes (first loops)).toArray⟩

/-- All parts so far, when the open loops end behind `c`. -/
def close (loops : OpenLoops) (c : Content) : Content :=
  match loops with
  | [] => c
  | f :: outer => close outer (f.before ++ .loop f.head c .nil)

variable {loops : OpenLoops} {f : Frame} {c x : Content} {inner : List NodeNumber} {node : Node}

theorem document_cons :
    document (f :: loops) c = document loops (f.before ++ .loop f.head c .nil) := by
  simp [document, nodes, first, Content.numbers, Content.nodes]

theorem document_eq_close : document loops c = (close loops c).document := by
  induction loops generalizing c with
  | nil => rfl
  | cons f outer ih => rw [document_cons, close, ih]

theorem length_nodes : (nodes inner loops).length = first loops := by
  induction loops generalizing inner with
  | nil => rfl
  | cons f outer ih => simp [nodes, first, ih, Nat.add_assoc]

theorem size_document : (document loops c).size = first loops + c.size := by
  simp [document, Document.size, length_nodes]

theorem headD_numbers : (numbers loops).headD Document.rootNumber = first loops - 1 := by
  cases loops <;> rfl

theorem exists_nodes_cons (f : Frame) (loops : OpenLoops) :
    ∃ before : List Node, first (f :: loops) - 1 = before.length ∧
      ∀ inner, nodes inner (f :: loops) = before ++ [.loop f.head inner.toArray] :=
  ⟨nodes (f.before.numbers (first loops) ++ [first loops + f.before.size]) loops ++
      f.before.nodes (first loops), by simp [first, length_nodes], fun _ => rfl⟩

theorem modify_nodes (id : NodeNumber) (rest : List Node) :
    (nodes inner loops ++ rest).modify (first loops - 1) (·.addChild id) =
      nodes (inner ++ [id]) loops ++ rest := by
  cases loops with
  | nil => simp [nodes, first, Node.addChild]
  | cons f outer =>
    obtain ⟨before, hlength, hnodes⟩ := exists_nodes_cons f outer
    simp only [hnodes, hlength, List.append_assoc, List.singleton_append]
    rw [List.modify_eq_take_cons_drop (by simp)]
    simp [Node.addChild]

/-- A node that stands for one more part is added behind the others. -/
theorem append_document (hnumbers : ∀ n, x.numbers n = [n]) (hnodes : ∀ n, x.nodes n = [node]) :
    (document loops c).append ((numbers loops).headD Document.rootNumber) node =
      document loops (c ++ x) := by
  have hsize : (nodes (c.numbers (first loops)) loops ++ c.nodes (first loops)).length =
      first loops + c.size := by
    simp [length_nodes]
  simp only [Document.append, document, headD_numbers, List.size_toArray, hsize,
    List.modify_toArray, modify_nodes, List.push_toArray, Content.numbers_append,
    Content.nodes_append, hnumbers, hnodes, List.append_assoc]

end OpenLoops

end Template
