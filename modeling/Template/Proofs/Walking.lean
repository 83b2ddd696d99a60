import Template.Document.Walk
import Template.Proofs.Content

/-! Walks as recursion over the tree. -/
namespace Template

variable {m : Type → Type} [Monad m] (w : Walker m)

namespace Content

/-- How many steps a walk of the parts takes. Loops take one more to be left. -/
def steps : Content → Nat
  | nil => 0
  | text _ next | echo _ next => next.steps + 1
  | loop _ body next => body.steps + next.steps + 2

def walk (first : Nat) : Content → m Unit
  | nil => pure ()
  | text value next => do
    w.text value
    next.walk (first + 1)
  | echo elements next => do
    w.echo elements
    next.walk (first + 1)
  | loop head body next => do
    w.loop head (body.numbers (first + 1)).toArray
    body.walk (first + 1)
    w.leaveLoop head (body.numbers (first + 1)).toArray
    next.walk (first + 1 + body.size)

theorem steps_le (c : Content) : c.steps ≤ 2 * c.size := by
  induction c with
  | nil => exact Nat.le_refl 0
  | text value next ih =>
    simp only [steps, size]
    omega
  | echo elements next ih =>
    simp only [steps, size]
    omega
  | loop head body next ihb ihn =>
    simp only [steps, size]
    omega

end Content

namespace Document

variable {d : Document} {c : Content} {first id : Nat} {node : Node}

theorem walkSteps_nil (fuel : Nat) : d.walkSteps w fuel [] = pure () := by
  cases fuel <;> rfl

theorem walkSteps_enter (h : d.node? id = some node) (fuel : Nat) (rest : List WalkStep) :
    d.walkSteps w (fuel + 1) (.enter id :: rest) =
      (do w.visit node; d.walkSteps w fuel (node.steps id ++ rest)) := by
  simp only [walkSteps, h]

theorem walkSteps_leave (h : d.node? id = some node) (fuel : Nat) (rest : List WalkStep) :
    d.walkSteps w (fuel + 1) (.leave id :: rest) =
      (do w.leave node; d.walkSteps w fuel rest) := by
  simp only [walkSteps, h]

/-- The steps at the outermost parts come to the recursive walk, whatever steps are behind them. -/
theorem walkSteps_content [LawfulMonad m] (h : d.Holds first c) (fuel : Nat)
    (rest : List WalkStep) :
    d.walkSteps w (c.steps + fuel) ((c.numbers first).map .enter ++ rest) =
      (do c.walk w first; d.walkSteps w fuel rest) := by
  induction c generalizing first fuel rest with
  | nil => simp [Content.steps, Content.numbers, Content.walk]
  | text value next ih =>
    obtain ⟨hnode, hnext⟩ := h.text
    rw [Content.steps, Nat.add_right_comm, Content.numbers, List.map_cons, List.cons_append,
      walkSteps_enter w hnode]
    simp [Walker.visit, Node.steps, ih hnext, Content.walk]
  | echo elements next ih =>
    obtain ⟨hnode, hnext⟩ := h.echo
    rw [Content.steps, Nat.add_right_comm, Content.numbers, List.map_cons, List.cons_append,
      walkSteps_enter w hnode]
    simp [Walker.visit, Node.steps, ih hnext, Content.walk]
  | loop head body next ihb ihn =>
    obtain ⟨hnode, hbody, hnext⟩ := h.loop
    have hsteps : (Content.loop head body next).steps + fuel =
        body.steps + (next.steps + fuel + 1) + 1 := by
      rw [Content.steps]
      omega
    rw [hsteps, Content.numbers, List.map_cons, List.cons_append, walkSteps_enter w hnode]
    simp only [Walker.visit, Node.steps, List.append_assoc, List.singleton_append, ihb hbody,
      walkSteps_leave w hnode, Walker.leave, ihn hnext, Content.walk, bind_assoc]

/-- A walk of the whole document visits the root, walks what it holds, and leaves it. -/
theorem walk_document [LawfulMonad m] (c : Content) : c.document.walk w = (do
    w.root (c.numbers 1).toArray
    c.walk w 1
    w.leaveRoot (c.numbers 1).toArray) := by
  have hsteps : 2 * c.document.size = c.steps + (2 * c.size - c.steps + 1) + 1 := by
    have := c.steps_le
    rw [Content.size_document]
    omega
  rw [walk, walkFrom, hsteps, walkSteps_enter w (node?_root c)]
  simp [Walker.visit, Node.steps, walkSteps_content w (Holds.document c),
    walkSteps_leave w (node?_root c), walkSteps_nil, Walker.leave]

end Document

end Template
