import Template.Proofs.OutlineLines

/-! Depth in an outline while its document is walked. -/
namespace Template

open Outline

/-- How many of the steps leave a node. -/
def departures (steps : List WalkStep) : Nat := steps.countP (·.entered?.isNone)

namespace Document

/-- The node `k` lies `m` levels below the node `id`. -/
inductive LiesBelow (d : Document) (id : NodeNumber) : (m : Nat) → (k : NodeNumber) → Prop
  | refl : d.LiesBelow id 0 id
  | child {m : Nat} {parent child : NodeNumber} (hparent : d.LiesBelow id m parent)
      (hchild : child ∈ d.childrenOf parent) : d.LiesBelow id (m + 1) child

/-- The steps come up in a walk from the node `id`: containers are left, and a node that is entered
lies as many levels below `id` as there are containers to be left behind it. -/
inductive Levelled (d : Document) (id : NodeNumber) : List WalkStep → Prop
  | nil : d.Levelled id []
  | enter {k : NodeNumber} {rest : List WalkStep} (hk : d.LiesBelow id (departures rest) k)
      (hrest : d.Levelled id rest) : d.Levelled id (.enter k :: rest)
  | leave {k : NodeNumber} {rest : List WalkStep} (hk : d.IsContainer k)
      (hrest : d.Levelled id rest) : d.Levelled id (.leave k :: rest)

/-- The outline after a step of the walk. -/
def draw (d : Document) (o : Outline) (step : WalkStep) : Outline :=
  ((printer.perform d step).run o).2

end Document

variable {d : Document} {id k m n : Nat} {node : Node} {ids : List NodeNumber} {o : Outline}
  {pending calls before after : List WalkStep} {depth : Nat}

@[simp] theorem departures_enter (k : NodeNumber) (steps : List WalkStep) :
    departures (.enter k :: steps) = departures steps := rfl

@[simp] theorem departures_leave (k : NodeNumber) (steps : List WalkStep) :
    departures (.leave k :: steps) = departures steps + 1 := List.countP_cons_of_pos rfl

@[simp] theorem departures_append (steps more : List WalkStep) :
    departures (steps ++ more) = departures steps + departures more := List.countP_append

@[simp] theorem departures_map_enter (ids : List NodeNumber) :
    departures (ids.map .enter) = 0 := by
  simp [departures, List.countP_map, Function.comp_def]

@[simp] theorem departures_leaving (k : NodeNumber) (node : Node) :
    departures (node.leaving k) = (node.leaving k).length := by
  cases node <;> rfl

namespace Document

theorem isBelow_iff_exists_liesBelow : d.IsBelow id k ↔ ∃ m, d.LiesBelow id m k := by
  constructor
  · intro h
    induction h with
    | refl => exact ⟨0, .refl⟩
    | tail _ hchild ih =>
      obtain ⟨m, hparent⟩ := ih
      exact ⟨m + 1, hparent.child hchild⟩
  · rintro ⟨m, h⟩
    induction h with
    | refl => exact .refl
    | child _ hchild ih => exact ih.tail hchild

/-- A node lies so many levels below another and no more. -/
theorem Numbered.level_unique (h : d.Numbered) (hm : d.LiesBelow id m k)
    (hn : d.LiesBelow id n k) : m = n := by
  have hle {j parent : Nat} (hparent : d.LiesBelow id j parent) : id ≤ parent :=
    h.le_of_isBelow (isBelow_iff_exists_liesBelow.2 ⟨j, hparent⟩)
  induction hm generalizing n with
  | refl =>
    cases hn with
    | refl => rfl
    | child hparent hchild =>
      exact absurd (h.child _ _ hchild).1 (Nat.not_lt.2 (hle hparent))
  | child hparent hchild ih =>
    cases hn with
    | refl => exact absurd (h.child _ _ hchild).1 (Nat.not_lt.2 (hle hparent))
    | child hparent' hchild' =>
      obtain rfl := h.parent_unique hchild hchild'
      rw [ih hparent']

namespace Levelled

theorem map_enter (hids : ∀ k ∈ ids, d.LiesBelow id (departures pending) k)
    (h : d.Levelled id pending) : d.Levelled id (ids.map .enter ++ pending) := by
  induction ids with
  | nil => exact h
  | cons k ids ih =>
    obtain ⟨hk, hids⟩ := List.forall_mem_cons.1 hids
    refine .enter ?_ (ih hids)
    simpa using hk

theorem steps (h : d.Levelled id (.enter k :: pending)) (hnode : d.node? k = some node) :
    d.Levelled id (node.steps k ++ pending) := by
  cases h with
  | enter hk hrest =>
    rw [Node.steps_eq, List.append_assoc]
    by_cases hcontainer : node.IsContainer
    · rw [Node.leaving_of_isContainer hcontainer]
      refine map_enter ?_ (.leave ⟨node, hnode, hcontainer⟩ hrest)
      intro child hchild
      rw [← childrenOf_of_node? hnode] at hchild
      rw [List.singleton_append, departures_leave]
      exact hk.child hchild
    · rw [Node.leaving_of_not_isContainer hcontainer]
      have hnone : node.children.toList = [] := by
        cases node <;> simp_all [Node.IsContainer]
      rw [hnone]
      exact hrest

end Levelled

theorem draw_enter (hnode : d.node? k = some node) (o : Outline) : d.draw o (.enter k) =
    ⟨o.lines.push (line o.depth node), o.depth + (node.leaving k).length⟩ := by
  rw [draw, perform_enter printer hnode]
  cases node <;> rfl

theorem draw_leave (hk : d.IsContainer k) (o : Outline) :
    d.draw o (.leave k) = ⟨o.lines, o.depth - 1⟩ := by
  obtain ⟨node, hnode, hcontainer⟩ := hk
  rw [draw, perform_leave printer hnode]
  cases node with
  | root children => rfl
  | text value => cases hcontainer
  | echo elements => cases hcontainer
  | loop head children => rfl

/-- An outline that is as deep as there are containers to be left stays so when a node is entered. -/
theorem depth_draw_enter (hnode : d.node? k = some node)
    (ho : o.depth = depth + departures (.enter k :: pending)) :
    (d.draw o (.enter k)).depth = depth + departures (node.steps k ++ pending) := by
  rw [departures_enter] at ho
  rw [draw_enter hnode, Node.steps_eq]
  simp only [departures_append, departures_map_enter, departures_leaving]
  omega

theorem depth_draw_leave (hk : d.IsContainer k)
    (ho : o.depth = depth + departures (.leave k :: pending)) :
    (d.draw o (.leave k)).depth = depth + departures pending := by
  rw [departures_leave] at ho
  simp only [draw_leave hk]
  omega

theorem run_forM_printer (calls : List WalkStep) (o : Outline) :
    (forM calls (printer.perform d)).run o = ((), calls.foldl d.draw o) := by
  induction calls generalizing o with
  | nil => rfl
  | cons step calls ih =>
    rw [List.forM_cons, StateT.run_bind, List.foldl_cons, draw]
    exact ih _

/-- What is still to be left tells how much deeper the outline is than at the end of the walk. -/
theorem Performs.depth_after (h : d.Performs pending (before ++ after))
    (hlevelled : d.Levelled id pending) (ho : o.depth = depth + departures pending) :
    ∃ pending', d.Performs pending' after ∧ d.Levelled id pending' ∧
      (before.foldl d.draw o).depth = depth + departures pending' := by
  induction before generalizing pending o with
  | nil => exact ⟨pending, h, hlevelled, ho⟩
  | cons step before ih =>
    rw [List.cons_append] at h
    cases h with
    | enter hnode hrest => exact ih hrest (hlevelled.steps hnode) (depth_draw_enter hnode ho)
    | leave hnode hrest =>
      cases hlevelled with
      | leave hk hlevelled => exact ih hrest hlevelled (depth_draw_leave hk ho)

/-- The walk adds the line of each node that it enters, indented by the level of the node. -/
theorem Performs.lines_after (h : d.Performs pending calls) (hlevelled : d.Levelled id pending)
    (ho : o.depth = depth + departures pending) :
    ∃ entries : List String, (calls.foldl d.draw o).lines = o.lines ++ entries ∧
      List.Forall₂ (fun k entry => ∃ node m, d.node? k = some node ∧ d.LiesBelow id m k ∧
        entry = line (depth + m) node) (calls.filterMap WalkStep.entered?) entries := by
  induction h generalizing o with
  | done => exact ⟨[], by simp, .nil⟩
  | @enter k node pending calls hnode _ ih =>
    obtain ⟨entries, hlines, hentries⟩ := ih (hlevelled.steps hnode) (depth_draw_enter hnode ho)
    cases hlevelled with
    | enter hk hlevelled =>
      refine ⟨line o.depth node :: entries, ?_, .cons ⟨node, _, hnode, hk, ?_⟩ hentries⟩
      · rw [List.foldl_cons, hlines, draw_enter hnode]
        simp
      · rw [ho, departures_enter]
  | leave _ _ ih =>
    cases hlevelled with
    | leave hk hlevelled =>
      obtain ⟨entries, hlines, hentries⟩ := ih hlevelled (depth_draw_leave hk ho)
      rw [draw_leave hk] at hlines
      exact ⟨entries, by rw [List.foldl_cons, draw_leave hk, hlines], hentries⟩

end Document

/-- The outline printer on the nodes at and below a node of a parsed document, whatever lines it has
and whatever its depth. After none of its calls the depth is less than at the beginning, and when a
container is to be left it is greater, so that there is a level to go back. In the end the depth is
that of the beginning, and behind the lines that there were stands one for each of the nodes, in the
order of their numbers. The line of a node that lies `m` levels down is indented `m` levels more. -/
theorem walkFrom_printer {source : String} (hparse : Document.parse source = .ok d)
    (hid : id < d.size) (o : Outline) :
    ∃ calls, d.Performs [.enter id] calls ∧
      d.walkFrom printer id = forM calls (printer.perform d) ∧
      (∀ before after, calls = before ++ after →
        o.depth ≤ ((forM before (printer.perform d)).run o).2.depth) ∧
      (∀ before k after, calls = before ++ .leave k :: after →
        o.depth < ((forM before (printer.perform d)).run o).2.depth) ∧
      ∃ (ids : List NodeNumber) (entries : List String),
        (d.walkFrom printer id).run o = ((), ⟨o.lines ++ entries, o.depth⟩) ∧
        ids.Pairwise (· < ·) ∧ (∀ k, k ∈ ids ↔ ∃ m, d.LiesBelow id m k) ∧
        List.Forall₂ (fun k entry => ∃ node, d.node? k = some node ∧ ∀ m, d.LiesBelow id m k →
          entry.toList = List.replicate (2 * (o.depth + m)) ' ' ++ (heading node).toList)
          ids entries := by
  obtain ⟨c, -, rfl, -⟩ := exists_content_of_parse hparse
  have h := Document.numbered_document c
  obtain ⟨f, hf⟩ := h.exists_calls
  have hperforms := hf id hid
  have hwalk := hf.walkFrom_eq printer h hid
  have hlevelled : c.document.Levelled id [.enter id] := .enter .refl .nil
  have ho : o.depth = o.depth + departures [.enter id] := rfl
  obtain ⟨n, hentered, -⟩ := hf.entered_eq h hid
  obtain ⟨entries, hlines, hentries⟩ := hperforms.lines_after hlevelled ho
  refine ⟨f id, hperforms, hwalk, ?_, ?_, (f id).filterMap WalkStep.entered?, entries, ?_, ?_, ?_,
    ?_⟩
  · intro before after hcalls
    rw [hcalls] at hperforms
    obtain ⟨pending, -, -, hdepth⟩ := hperforms.depth_after hlevelled ho
    rw [Document.run_forM_printer, hdepth]
    exact Nat.le_add_right _ _
  · intro before k after hcalls
    rw [hcalls] at hperforms
    obtain ⟨pending, hrest, -, hdepth⟩ := hperforms.depth_after hlevelled ho
    rw [Document.run_forM_printer, hdepth]
    cases hrest with
    | leave => simp
  · rw [← List.append_nil (f id)] at hperforms
    obtain ⟨pending, hrest, -, hdepth⟩ := hperforms.depth_after hlevelled ho
    cases hrest
    rw [hwalk, Document.run_forM_printer, ← hlines]
    exact congrArg (fun depth => ((), Outline.mk _ depth)) hdepth
  · rw [hentered]
    exact List.pairwise_lt_range'
  · intro k
    rw [← Document.isBelow_iff_exists_liesBelow, ← hf.enter_mem_iff h hid,
      ← List.count_pos_iff, Document.count_entered, List.count_pos_iff]
  · refine hentries.imp ?_
    rintro k entry ⟨node, m, hnode, hm, rfl⟩
    refine ⟨node, hnode, fun m' hm' => ?_⟩
    obtain rfl := h.level_unique hm hm'
    simp [line, indent]

/-- A loop with a text in it, when two lines have been printed and five levels are open. -/
theorem walkFrom_printer_loop :
    let o : Outline := ⟨#["x", ""], 5⟩
    ∃ d, Document.parse "a\x7b$FOR i 1 2$\x7db\x7b$END$\x7d" = .ok d ∧ d.LiesBelow 2 1 3 ∧
      5 < ((forM [.enter 2, .enter 3] (printer.perform d)).run o).2.depth ∧
      ∃ (ids : List NodeNumber) (entries : List String),
        (d.walkFrom printer 2).run o = ((), ⟨#["x", ""] ++ entries, 5⟩) ∧ 3 ∈ ids ∧
        List.Forall₂ (fun k entry => ∃ node, d.node? k = some node ∧ ∀ m, d.LiesBelow 2 m k →
          entry.toList = List.replicate (2 * (5 + m)) ' ' ++ (heading node).toList)
          ids entries := by
  intro o
  have hparse : Document.parse "a\x7b$FOR i 1 2$\x7db\x7b$END$\x7d" = .ok ⟨#[.root #[1, 2],
      .text "a", .loop ⟨⟨"i", by decide⟩, .int 1, .int 2, none⟩ #[3], .text "b"]⟩ := by
    decide +kernel
  obtain ⟨calls, hcalls, -, -, hleave, ids, entries, hrun, -, hids, hentries⟩ :=
    walkFrom_printer hparse (show 2 < 4 by decide) o
  obtain rfl := hcalls.eq (.enter rfl (.enter rfl (.leave rfl .done)))
  have hmem := (hids 3).2 ⟨1, .child .refl (List.mem_singleton_self 3)⟩
  exact ⟨_, hparse, .child .refl (List.mem_singleton_self 3),
    hleave [.enter 2, .enter 3] 2 [] rfl, ids, entries, hrun, hmem, hentries⟩

end Template
