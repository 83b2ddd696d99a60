import Mathlib.Data.List.Nodup
import Mathlib.Logic.Relation
import Template.Document.Trace
import Template.Proofs.Numbering
import Template.Proofs.Walking

/-! Walks as sequences of calls, which the document alone settles. -/
namespace Template

def Walker.perform {m : Type → Type} [Monad m] (w : Walker m) (d : Document) : WalkStep → m Unit
  | .enter id =>
    match d.node? id with
    | some node => w.visit node
    | none => pure ()
  | .leave id =>
    match d.node? id with
    | some node => w.leave node
    | none => pure ()

/-- The node that the step enters. -/
def WalkStep.entered? : WalkStep → Option NodeNumber
  | .enter id => some id
  | .leave _ => none

@[simp] theorem WalkStep.entered?_enter (id : NodeNumber) : (enter id).entered? = some id := rfl

@[simp] theorem WalkStep.entered?_leave (id : NodeNumber) : (leave id).entered? = none := rfl

/-- The step that leaves the node, if it is one that is left. -/
def Node.leaving (id : NodeNumber) : Node → List WalkStep
  | .root _ | .loop _ _ => [.leave id]
  | .text _ | .echo _ => []

namespace Document

/-- A walk with these steps pending makes the calls and ends. -/
inductive Performs (d : Document) : (pending calls : List WalkStep) → Prop
  | done : d.Performs [] []
  | enter {id : NodeNumber} {node : Node} {pending calls : List WalkStep}
      (hnode : d.node? id = some node) (hrest : d.Performs (node.steps id ++ pending) calls) :
      d.Performs (.enter id :: pending) (.enter id :: calls)
  | leave {id : NodeNumber} {node : Node} {pending calls : List WalkStep}
      (hnode : d.node? id = some node) (hrest : d.Performs pending calls) :
      d.Performs (.leave id :: pending) (.leave id :: calls)

/-- The node `k` is the node `id` or below it. -/
def IsBelow (d : Document) : (id k : NodeNumber) → Prop :=
  Relation.ReflTransGen fun parent child => child ∈ d.childrenOf parent

def IsContainer (d : Document) (id : NodeNumber) : Prop :=
  ∃ node, d.node? id = some node ∧ node.IsContainer

end Document

namespace Node

variable {node : Node} {id k : NodeNumber}

theorem steps_eq (id : NodeNumber) (node : Node) :
    node.steps id = node.children.toList.map .enter ++ node.leaving id := by
  cases node <;> rfl

theorem leaving_of_isContainer (h : node.IsContainer) : node.leaving id = [.leave id] := by
  cases node with
  | root children => rfl
  | text value => cases h
  | echo elements => cases h
  | loop head children => rfl

theorem leaving_of_not_isContainer (h : ¬ node.IsContainer) : node.leaving id = [] := by
  cases node with
  | root children => exact (h trivial).elim
  | text value => rfl
  | echo elements => rfl
  | loop head children => exact (h trivial).elim

theorem length_leaving_le (id : NodeNumber) (node : Node) : (node.leaving id).length ≤ 1 := by
  cases node <;> simp [leaving]

theorem entered?_leaving (id : NodeNumber) (node : Node) :
    (node.leaving id).filterMap WalkStep.entered? = [] := by
  cases node <;> rfl

end Node

namespace Document

variable {d : Document} {id k : Nat} {node : Node} {ids entered entered' : List NodeNumber}
  {pending pending' calls calls' before after : List WalkStep} {f : NodeNumber → List WalkStep}

namespace Performs

theorem append (h : d.Performs pending calls) (h' : d.Performs pending' calls') :
    d.Performs (pending ++ pending') (calls ++ calls') := by
  induction h with
  | done => exact h'
  | enter hnode _ ih =>
    rw [List.append_assoc] at ih
    exact .enter hnode ih
  | leave hnode _ ih => exact .leave hnode ih

/-- The steps that are pending settle the calls. -/
theorem eq (h : d.Performs pending calls) (h' : d.Performs pending calls') : calls = calls' := by
  induction h generalizing calls' with
  | done =>
    cases h'
    rfl
  | enter hnode _ ih =>
    cases h' with
    | enter hnode' hrest =>
      cases hnode.symm.trans hnode'
      rw [ih hrest]
  | leave _ _ ih =>
    cases h' with
    | leave _ hrest => rw [ih hrest]

theorem children (h : ∀ child ∈ ids, d.Performs [.enter child] (f child)) :
    d.Performs (ids.map .enter) (ids.flatMap f) := by
  induction ids with
  | nil => exact .done
  | cons child ids ih =>
    obtain ⟨hchild, hids⟩ := List.forall_mem_cons.1 h
    exact hchild.append (ih hids)

theorem leaving (hnode : d.node? id = some node) :
    d.Performs (node.leaving id) (node.leaving id) := by
  cases node with
  | root children => exact .leave hnode .done
  | text value => exact .done
  | echo elements => exact .done
  | loop head children => exact .leave hnode .done

/-- A node is entered, what is below it is walked, and it is left. -/
theorem of_node (hnode : d.node? id = some node)
    (h : ∀ child ∈ node.children.toList, d.Performs [.enter child] (f child)) :
    d.Performs [.enter id] (.enter id :: (node.children.toList.flatMap f ++ node.leaving id)) := by
  refine .enter hnode ?_
  rw [List.append_nil, Node.steps_eq]
  exact (children h).append (leaving hnode)

/-- The nodes are entered that a walk without departures enters. -/
theorem enters (h : d.Performs pending calls) :
    d.Enters (pending.filterMap WalkStep.entered?) (calls.filterMap WalkStep.entered?) := by
  induction h with
  | done => exact .done
  | @enter id node pending calls hnode _ ih =>
    rw [Node.steps_eq, List.filterMap_append, List.filterMap_append, Node.entered?_leaving,
      List.append_nil, List.filterMap_map] at ih
    refine .enter hnode ?_
    simpa [Function.comp_def] using ih
  | leave _ _ ih => exact ih

theorem length_le (h : d.Performs pending calls) :
    calls.length ≤ 2 * (calls.filterMap WalkStep.entered?).length +
      (pending.filter (·.entered?.isNone)).length := by
  induction h with
  | done => simp
  | @enter id node pending calls hnode _ ih =>
    have hleaving := List.length_filter_le (·.entered?.isNone) (node.leaving id)
    have hone := node.length_leaving_le id
    have hchildren : ((node.children.toList.map WalkStep.enter).filter (·.entered?.isNone)) = [] := by
      simp
    rw [Node.steps_eq, List.filter_append, List.filter_append, hchildren] at ih
    simp only [List.length_cons, List.filterMap_cons, List.filter_cons, WalkStep.entered?_enter,
      List.nil_append, List.length_append] at ih ⊢
    simp
    omega
  | leave _ _ ih =>
    simp only [List.length_cons, List.filterMap_cons, List.filter_cons, WalkStep.entered?_leave]
    simp
    omega

end Performs

theorem count_entered (calls : List WalkStep) (k : NodeNumber) :
    (calls.filterMap WalkStep.entered?).count k = calls.count (.enter k) := by
  induction calls with
  | nil => rfl
  | cons step calls ih =>
    cases step with
    | enter id => simp [List.count_cons, ih]
    | leave id =>
      rw [List.filterMap_cons_none rfl, ih]
      simp

theorem Enters.eq (h : d.Enters ids entered) (h' : d.Enters ids entered') :
    entered = entered' := by
  induction h generalizing entered' with
  | done =>
    cases h'
    rfl
  | enter hnode _ ih =>
    cases h' with
    | enter hnode' hrest =>
      cases hnode.symm.trans hnode'
      rw [ih hrest]

theorem lt_size_of_node? (h : d.node? id = some node) : id < d.size :=
  (Array.getElem?_eq_some_iff.1 h).1

theorem Numbered.children (h : d.Numbered) (hnode : d.node? id = some node) {child : Nat}
    (hchild : child ∈ node.children.toList) : id < child ∧ child < d.size := by
  apply h.child id child
  rwa [childrenOf_of_node? hnode]

/-- From every node the walk ends. -/
theorem Numbered.exists_performs (h : d.Numbered) (hid : id < d.size) :
    ∃ calls, d.Performs [.enter id] calls := by
  induction hn : d.size - id using Nat.strongRecOn generalizing id with
  | ind n ih =>
    subst hn
    obtain ⟨node, hnode, -⟩ := h.root id hid
    have hchildren : ∀ child ∈ node.children.toList, ∃ calls, d.Performs [.enter child] calls := by
      intro child hchild
      obtain ⟨hlt, hsize⟩ := h.children hnode hchild
      exact ih (d.size - child) (by omega) hsize rfl
    choose! f hf using hchildren
    exact ⟨_, .of_node hnode hf⟩

/-- What a walk from each node calls. -/
def Calls (d : Document) (f : NodeNumber → List WalkStep) : Prop :=
  ∀ id < d.size, d.Performs [.enter id] (f id)

theorem Numbered.exists_calls (h : d.Numbered) : ∃ f, d.Calls f := by
  choose! f hf using fun id (hid : id < d.size) => h.exists_performs hid
  exact ⟨f, hf⟩

namespace Calls

variable (hf : d.Calls f) (h : d.Numbered)
include hf h

/-- A walk calls what the recursion over the nodes calls. -/
theorem eq_of_node (hnode : d.node? id = some node) :
    f id = .enter id :: (node.children.toList.flatMap f ++ node.leaving id) := by
  refine (hf id (lt_size_of_node? hnode)).eq (.of_node hnode fun child hchild => ?_)
  exact hf child (h.children hnode hchild).2

theorem infix_of_child (hnode : d.node? id = some node) {child : Nat}
    (hchild : child ∈ node.children.toList) : f child <:+: f id := by
  obtain ⟨front, back, hsplit⟩ := List.append_of_mem hchild
  rw [hf.eq_of_node h hnode, hsplit]
  refine ⟨.enter id :: front.flatMap f, back.flatMap f ++ node.leaving id, ?_⟩
  simp

/-- The calls for what is below a node are among the calls for the node. -/
theorem infix_of_isBelow (hid : id < d.size) (hk : d.IsBelow id k) :
    k < d.size ∧ f k <:+: f id := by
  induction hk with
  | refl => exact ⟨hid, List.infix_rfl⟩
  | @tail parent child _ hchild ih =>
    obtain ⟨node, hnode, hmem⟩ := mem_childrenOf_iff.1 hchild
    exact ⟨(h.children hnode hmem).2, (hf.infix_of_child h hnode hmem).trans ih.2⟩

theorem enter_mem_iff (hid : id < d.size) : .enter k ∈ f id ↔ d.IsBelow id k := by
  constructor
  · intro hmem
    induction hn : d.size - id using Nat.strongRecOn generalizing id with
    | ind n ih =>
      subst hn
      obtain ⟨node, hnode, -⟩ := h.root id hid
      rw [hf.eq_of_node h hnode] at hmem
      rcases List.mem_cons.1 hmem with heq | hmem
      · cases heq
        exact .refl
      rcases List.mem_append.1 hmem with hmem | hmem
      · obtain ⟨child, hchild, hmem⟩ := List.mem_flatMap.1 hmem
        obtain ⟨hlt, hsize⟩ := h.children hnode hchild
        refine .head ?_ (ih (d.size - child) (by omega) hsize hmem rfl)
        exact mem_childrenOf_iff.2 ⟨node, hnode, hchild⟩
      · cases node <;> simp [Node.leaving] at hmem
  · intro hk
    obtain ⟨hsize, hinfix⟩ := hf.infix_of_isBelow h hid hk
    obtain ⟨node, hnode, -⟩ := h.root k hsize
    apply hinfix.subset
    rw [hf.eq_of_node h hnode]
    exact List.mem_cons_self

theorem entered_eq (hid : id < d.size) :
    ∃ n, (f id).filterMap WalkStep.entered? = List.range' id n ∧ id + n ≤ d.size := by
  obtain ⟨n, hn⟩ := h.subtree id hid
  have heq : (f id).filterMap WalkStep.entered? = List.range' id n := (hf id hid).enters.eq hn
  refine ⟨n, heq, ?_⟩
  cases n with
  | zero => omega
  | succ n =>
    have hlast : id + n ∈ (f id).filterMap WalkStep.entered? := by
      rw [heq, List.mem_range'_1]
      omega
    obtain ⟨step, hstep, hentered⟩ := List.mem_filterMap.1 hlast
    cases step with
    | leave k => cases hentered
    | enter k =>
      obtain rfl : k = id + n := Option.some.inj hentered
      exact (hf.infix_of_isBelow h hid ((hf.enter_mem_iff h hid).1 hstep)).1

theorem length_le (hid : id < d.size) : (f id).length ≤ 2 * d.size := by
  obtain ⟨n, hentered, hn⟩ := hf.entered_eq h hid
  have hle := (hf id hid).length_le
  have hpending : [WalkStep.enter id].filter (·.entered?.isNone) = [] := rfl
  rw [hentered, List.length_range', hpending, List.length_nil] at hle
  omega

end Calls

variable {m : Type → Type} [Monad m] (w : Walker m)

theorem perform_enter (hnode : d.node? id = some node) : w.perform d (.enter id) = w.visit node := by
  simp only [Walker.perform, hnode]

theorem perform_leave (hnode : d.node? id = some node) : w.perform d (.leave id) = w.leave node := by
  simp only [Walker.perform, hnode]

theorem forM_leaving [LawfulMonad m] (hnode : d.node? id = some node) :
    forM (node.leaving id) (w.perform d) = w.leave node := by
  cases node <;> simp [Node.leaving, Walker.perform, Walker.leave, hnode]

/-- A walk that ends makes its calls. -/
theorem walkSteps_of_performs (h : d.Performs pending calls) {fuel : Nat}
    (hfuel : calls.length ≤ fuel) : d.walkSteps w fuel pending = forM calls (w.perform d) := by
  induction h generalizing fuel with
  | done => exact walkSteps_nil w fuel
  | enter hnode _ ih =>
    cases fuel with
    | zero => exact (Nat.not_succ_le_zero _ hfuel).elim
    | succ fuel =>
      rw [walkSteps_enter w hnode, ih (Nat.le_of_succ_le_succ hfuel), List.forM_cons,
        perform_enter w hnode]
  | leave hnode _ ih =>
    cases fuel with
    | zero => exact (Nat.not_succ_le_zero _ hfuel).elim
    | succ fuel =>
      rw [walkSteps_leave w hnode, ih (Nat.le_of_succ_le_succ hfuel), List.forM_cons,
        perform_leave w hnode]

theorem forM_flatMap [LawfulMonad m] {α β : Type} (as : List α) (g : α → List β) (k : β → m Unit) :
    forM (as.flatMap g) k = forM as fun a => forM (g a) k := by
  induction as with
  | nil => rfl
  | cons a as ih => rw [List.flatMap_cons, List.forM_append, ih, List.forM_cons]

theorem forM_congr {α : Type} {as : List α} {g k : α → m Unit} (h : ∀ a ∈ as, g a = k a) :
    forM as g = forM as k := by
  induction as with
  | nil => rfl
  | cons a as ih =>
    obtain ⟨ha, has⟩ := List.forall_mem_cons.1 h
    rw [List.forM_cons, List.forM_cons, ha, ih has]

/-- The recursion that visits a node, walks its children in order, and leaves it. -/
def IsRecursive (d : Document) (walk : NodeNumber → m Unit) : Prop :=
  ∀ id node, d.node? id = some node → walk id = (do
    w.visit node
    forM node.children.toList walk
    w.leave node)

theorem Calls.walkFrom_eq (hf : d.Calls f) (h : d.Numbered) (hid : id < d.size) :
    d.walkFrom w id = forM (f id) (w.perform d) :=
  walkSteps_of_performs w (hf id hid) (hf.length_le h hid)

theorem isRecursive_walkFrom [LawfulMonad m] (hf : d.Calls f) (h : d.Numbered) :
    IsRecursive w d (d.walkFrom w) := by
  intro id node hnode
  rw [hf.walkFrom_eq w h (lt_size_of_node? hnode), hf.eq_of_node h hnode, List.forM_cons,
    List.forM_append, forM_flatMap, forM_leaving w hnode, perform_enter w hnode]
  have hchildren : forM node.children.toList (fun child => forM (f child) (w.perform d)) =
      forM node.children.toList (d.walkFrom w) := by
    refine forM_congr fun child hchild => ?_
    rw [hf.walkFrom_eq w h (h.children hnode hchild).2]
  rw [hchildren]

theorem IsRecursive.eq (h : d.Numbered) {walk walk' : NodeNumber → m Unit}
    (hw : IsRecursive w d walk) (hw' : IsRecursive w d walk') (hid : id < d.size) :
    walk id = walk' id := by
  induction hn : d.size - id using Nat.strongRecOn generalizing id with
  | ind n ih =>
    subst hn
    obtain ⟨node, hnode, -⟩ := h.root id hid
    have hchildren : forM node.children.toList walk = forM node.children.toList walk' := by
      refine forM_congr fun child hchild => ?_
      obtain ⟨hlt, hsize⟩ := h.children hnode hchild
      exact ih (d.size - child) (by omega) hsize rfl
    rw [hw id node hnode, hw' id node hnode, hchildren]

end Document

end Template
