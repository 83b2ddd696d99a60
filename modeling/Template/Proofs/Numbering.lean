import Mathlib.Data.List.Chain
import Mathlib.Data.List.Nodup
import Template.Proofs.Parsing

/-! Parsed documents are numbered in order, and so are the documents on the way to them. -/
namespace Template

namespace Node

def IsContainer : Node → Prop
  | .root _ | .loop _ _ => True
  | .text _ | .echo _ => False

def IsRoot : Node → Prop
  | .root _ => True
  | .text _ | .echo _ | .loop _ _ => False

end Node

namespace Document

/-- The children of the node with a number, none if there is no such node. -/
def childrenOf (d : Document) (id : NodeNumber) : List NodeNumber :=
  match d.node? id with
  | some node => node.children.toList
  | none => []

/-- A walk that enters the pending nodes in order, and behind each its children before it goes on,
enters the nodes `entered` and ends. -/
inductive Enters (d : Document) : (pending entered : List NodeNumber) → Prop
  | done : d.Enters [] []
  | enter {id : NodeNumber} {node : Node} {pending entered : List NodeNumber}
      (hnode : d.node? id = some node)
      (hrest : d.Enters (node.children.toList ++ pending) entered) :
      d.Enters (id :: pending) (id :: entered)

/-- The document is a tree, and its nodes are numbered in the order in which a walk enters them. -/
structure Numbered (d : Document) : Prop where
  /-- The root is number zero and nothing else. -/
  root : ∀ id < d.size, ∃ node, d.node? id = some node ∧ (node.IsRoot ↔ id = rootNumber)
  nonempty : 0 < d.size
  /-- Every other node is in one list of children, once. -/
  parent : ∀ id < d.size, id ≠ rootNumber → ∃ parent, (d.childrenOf parent).count id = 1 ∧
    ∀ other, other ≠ parent → id ∉ d.childrenOf other
  container : ∀ id node, d.node? id = some node → node.children ≠ #[] → node.IsContainer
  child : ∀ id, ∀ child ∈ d.childrenOf id, id < child ∧ child < d.size
  increasing : ∀ id, (d.childrenOf id).Pairwise (· < ·)
  walk : d.Enters [rootNumber] (List.range d.size)
  /-- What is below a node has the numbers that follow. -/
  subtree : ∀ id < d.size, ∃ n, d.Enters [id] (List.range' id n)

def LastChild (d : Document) (parent child : NodeNumber) : Prop :=
  (d.childrenOf parent).getLast? = some child

/-- The numbers are those of containers, from the root on, each the last child of the one before. -/
structure IsPath (d : Document) (stack : List NodeNumber) : Prop where
  starts : stack.head? = some rootNumber
  containers : ∀ id ∈ stack, ∃ node, d.node? id = some node ∧ node.IsContainer
  chain : stack.IsChain d.LastChild

variable {d : Document} {first id : Nat} {c : Content} {pending entered : List NodeNumber}
  {node : Node}

theorem childrenOf_of_node? (h : d.node? id = some node) :
    d.childrenOf id = node.children.toList := by
  simp [childrenOf, h]

/-- The walk enters the parts of a content in the order of their numbers. -/
theorem enters_numbers (h : d.Holds first c) (hrest : d.Enters pending entered) :
    d.Enters (c.numbers first ++ pending) (List.range' first c.size ++ entered) := by
  induction c generalizing first pending entered with
  | nil => exact hrest
  | text value next ih =>
    obtain ⟨hnode, hnext⟩ := h.text
    exact .enter hnode (ih hnext hrest)
  | echo elements next ih =>
    obtain ⟨hnode, hnext⟩ := h.echo
    exact .enter hnode (ih hnext hrest)
  | loop head body next ihb ihn =>
    obtain ⟨hnode, hbody, hnext⟩ := h.loop
    have hwalk := ihb hbody (ihn hnext hrest)
    rw [← List.append_assoc, ← List.append_assoc, List.range'_append_1, List.append_assoc] at hwalk
    exact .enter hnode hwalk

/-- What is below a part has the numbers that follow. -/
theorem enters_part (h : d.Holds first c) (hfirst : first ≤ id) (hid : id < first + c.size) :
    ∃ n, d.Enters [id] (List.range' id n) := by
  obtain ⟨tail, hne, -, htail, -⟩ := h.exists_tail hfirst hid
  cases tail with
  | nil => exact (hne rfl).elim
  | text value next => exact ⟨1, .enter htail.text.1 .done⟩
  | echo elements next => exact ⟨1, .enter htail.echo.1 .done⟩
  | loop head body next =>
    obtain ⟨hnode, hbody, -⟩ := htail.loop
    refine ⟨body.size + 1, .enter hnode ?_⟩
    simpa using enters_numbers hbody .done

end Document

namespace Content

variable {c : Content} {first id : Nat} {node : Node}

theorem le_of_mem_numbers (h : id ∈ c.numbers first) : first ≤ id ∧ id < first + c.size := by
  induction c generalizing first with
  | nil => cases h
  | text value next ih =>
    simp only [numbers, List.mem_cons, size] at h ⊢
    rcases h with rfl | h
    · omega
    · have := ih h
      omega
  | echo elements next ih =>
    simp only [numbers, List.mem_cons, size] at h ⊢
    rcases h with rfl | h
    · omega
    · have := ih h
      omega
  | loop head body next _ ihn =>
    simp only [numbers, List.mem_cons, size] at h ⊢
    rcases h with rfl | h
    · omega
    · have := ihn h
      omega

theorem pairwise_numbers (c : Content) (first : Nat) : (c.numbers first).Pairwise (· < ·) := by
  induction c generalizing first with
  | nil => exact .nil
  | text value next ih =>
    refine .cons ?_ (ih _)
    intro id hid
    exact (le_of_mem_numbers hid).1
  | echo elements next ih =>
    refine .cons ?_ (ih _)
    intro id hid
    exact (le_of_mem_numbers hid).1
  | loop head body next _ ihn =>
    refine .cons ?_ (ihn _)
    intro id hid
    have := (le_of_mem_numbers hid).1
    omega

/-- The outermost parts and the children of all parts are all parts, each once. -/
theorem perm_children (c : Content) (first : Nat) :
    (c.numbers first ++ (c.nodes first).flatMap (·.children.toList)).Perm
      (List.range' first c.size) := by
  induction c generalizing first with
  | nil => exact .refl _
  | text value next ih =>
    exact (ih (first + 1)).cons first
  | echo elements next ih =>
    exact (ih (first + 1)).cons first
  | loop head body next ihb ihn =>
    have hboth := (ihb (first + 1)).append (ihn (first + 1 + body.size))
    rw [List.range'_append_1] at hboth
    refine (List.Perm.trans ?_ hboth).cons first
    simp only [nodes, Node.children_loop, List.flatMap_cons, List.flatMap_append]
    rw [← List.append_assoc (body.numbers _)]
    exact List.perm_append_comm_assoc ..

end Content

/-- A node below the root, with children of increasing numbers between its own and the limit. -/
structure Node.IsPart (node : Node) (id limit : Nat) : Prop where
  notRoot : ¬ node.IsRoot
  increasing : node.children.toList.Pairwise (· < ·)
  between : ∀ child : Nat, child ∈ node.children.toList → id < child ∧ child < limit

namespace Document

variable {d : Document} {c : Content} {id first : Nat}

theorem isPart_of_holds (h : d.Holds first c) (hfirst : first ≤ id) (hid : id < first + c.size) :
    ∃ node, d.node? id = some node ∧ node.IsPart id (first + c.size) := by
  obtain ⟨tail, hne, -, htail, hle⟩ := h.exists_tail hfirst hid
  cases tail with
  | nil => exact (hne rfl).elim
  | text value next => exact ⟨_, htail.text.1, not_false, by simp, by simp⟩
  | echo elements next => exact ⟨_, htail.echo.1, not_false, by simp, by simp⟩
  | loop head body next =>
    refine ⟨_, htail.loop.1, not_false, by simpa using Content.pairwise_numbers body _, ?_⟩
    intro child hchild
    have := Content.le_of_mem_numbers (by simpa using hchild)
    simp only [Content.size] at hle
    omega

theorem children_of_node? {node : Node} (h : c.document.node? id = some node) :
    node.children.toList.Pairwise (· < ·) ∧
      ∀ child : Nat, child ∈ node.children.toList → id < child ∧ child < c.document.size := by
  by_cases hzero : id = rootNumber
  · subst hzero
    rw [node?_root, Option.some.injEq] at h
    subst h
    refine ⟨by simpa using Content.pairwise_numbers c 1, ?_⟩
    intro child hchild
    have := Content.le_of_mem_numbers (by simpa using hchild)
    rw [Content.size_document, rootNumber]
    omega
  · obtain ⟨hlt, -⟩ := Array.getElem?_eq_some_iff.1 h
    have hsize : id < 1 + c.size := by
      rw [Nat.add_comm]
      exact Content.size_document (c := c) ▸ hlt
    obtain ⟨node', hnode, hpart⟩ :=
      isPart_of_holds (Holds.document c) (Nat.pos_of_ne_zero hzero) hsize
    cases h.symm.trans hnode
    rw [Content.size_document, Nat.add_comm]
    exact ⟨hpart.increasing, hpart.between⟩

theorem mem_childrenOf_iff {child : Nat} : child ∈ d.childrenOf id ↔
    ∃ node, d.node? id = some node ∧ child ∈ node.children.toList := by
  cases h : d.node? id <;> simp [childrenOf, h]

/-- A number in all lists of children together, none of which is there twice, is in one of them. -/
theorem exists_parent (hnodup : (d.nodes.toList.flatMap (·.children.toList)).Nodup)
    (hid : id ∈ d.nodes.toList.flatMap (·.children.toList)) :
    ∃ parent, (d.childrenOf parent).count id = 1 ∧
      ∀ other, other ≠ parent → id ∉ d.childrenOf other := by
  obtain ⟨hlists, hdisjoint⟩ := List.nodup_flatMap.1 hnodup
  rw [List.pairwise_iff_getElem] at hdisjoint
  obtain ⟨node, hnode, hchild⟩ := List.mem_flatMap.1 hid
  obtain ⟨parent, hparent, rfl⟩ := List.getElem_of_mem hnode
  have hsome : d.node? parent = some d.nodes.toList[parent] := by
    simp [node?]
  refine ⟨parent, ?_, ?_⟩
  · rw [childrenOf_of_node? hsome]
    exact List.count_eq_one_of_mem (hlists _ hnode) hchild
  · intro other hne hmem
    obtain ⟨node, hother, hmem⟩ := mem_childrenOf_iff.1 hmem
    obtain ⟨hlt, rfl⟩ := Array.getElem?_eq_some_iff.1 hother
    rcases Nat.lt_or_gt_of_ne hne with h | h
    · exact hdisjoint other parent hlt hparent h hmem hchild
    · exact hdisjoint parent other hparent hlt h hchild hmem

theorem enters_root (c : Content) :
    c.document.Enters [rootNumber] (List.range' rootNumber (c.size + 1)) := by
  refine .enter (node?_root c) ?_
  simpa [rootNumber] using enters_numbers (Holds.document c) .done

theorem numbered_document (c : Content) : c.document.Numbered where
  root id hid := by
    by_cases hzero : id = rootNumber
    · subst hzero
      exact ⟨_, node?_root c, iff_of_true trivial rfl⟩
    · obtain ⟨node, hnode, hpart⟩ := isPart_of_holds (Holds.document c)
        (Nat.pos_of_ne_zero hzero) (by simpa [Nat.add_comm] using hid)
      exact ⟨node, hnode, iff_of_false hpart.notRoot hzero⟩
  nonempty := by simp
  parent id hid hne := by
    have hperm := Content.perm_children c 1
    have hall : c.document.nodes.toList.flatMap (·.children.toList) =
        c.numbers 1 ++ (c.nodes 1).flatMap (·.children.toList) := by
      simp [Content.document]
    refine exists_parent ?_ ?_
    · rw [hall]
      exact hperm.nodup_iff.2 (List.nodup_range' ..)
    · rw [hall, hperm.mem_iff, List.mem_range'_1]
      exact ⟨Nat.pos_of_ne_zero hne, by simpa [Nat.add_comm] using hid⟩
  container id node _ hchildren := by
    cases node <;> simp_all [Node.IsContainer]
  child id child hchild := by
    obtain ⟨node, hnode, hmem⟩ := mem_childrenOf_iff.1 hchild
    exact (children_of_node? hnode).2 child hmem
  increasing id := by
    cases h : c.document.node? id with
    | none => simp [childrenOf, h]
    | some node =>
      rw [childrenOf_of_node? h]
      exact (children_of_node? h).1
  walk := by
    rw [Content.size_document, List.range_eq_range']
    exact enters_root c
  subtree id hid := by
    by_cases hzero : id = rootNumber
    · subst hzero
      exact ⟨_, enters_root c⟩
    · exact enters_part (Holds.document c) (Nat.pos_of_ne_zero hzero)
        (by simpa [Nat.add_comm] using hid)

end Document

namespace OpenLoops

variable {loops : OpenLoops} {c : Content}

/-- The innermost container holds the parts read last. -/
theorem node?_innermost (loops : OpenLoops) (c : Content) :
    ∃ node, (document loops c).node? (first loops - 1) = some node ∧ node.IsContainer ∧
      node.children.toList = c.numbers (first loops) := by
  cases loops with
  | nil => exact ⟨_, Document.node?_root c, trivial, rfl⟩
  | cons f outer =>
    refine ⟨.loop f.head (c.numbers (first (f :: outer))).toArray, ?_, trivial, rfl⟩
    obtain ⟨before, hlength, hnodes⟩ := exists_nodes_cons f outer
    simp [document, Document.node?, hnodes, hlength]

def path (loops : OpenLoops) : List NodeNumber := Document.rootNumber :: (numbers loops).reverse

theorem getLast?_path (loops : OpenLoops) : (path loops).getLast? = some (first loops - 1) := by
  cases loops with
  | nil => rfl
  | cons f outer =>
    rw [path, numbers, List.reverse_cons, ← List.cons_append, List.getLast?_concat]
    rfl

theorem isPath_document (loops : OpenLoops) (c : Content) :
    (document loops c).IsPath (path loops) := by
  induction loops generalizing c with
  | nil =>
    refine ⟨rfl, ?_, .singleton _⟩
    rintro id (_ | ⟨_, ⟨⟩⟩)
    exact ⟨_, Document.node?_root c, trivial⟩
  | cons f outer ih =>
    have hpath := ih (f.before ++ .loop f.head c .nil)
    obtain ⟨parent, hparent, -, hchildren⟩ :=
      node?_innermost outer (f.before ++ .loop f.head c .nil)
    obtain ⟨node, hnode, hcontainer, -⟩ := node?_innermost (f :: outer) c
    rw [← document_cons] at hpath hparent
    have hsplit : path (f :: outer) = path outer ++ [first (f :: outer) - 1] := by
      simp [path, numbers, first]
    rw [hsplit]
    refine ⟨?_, ?_, List.isChain_append.2 ⟨hpath.chain, .singleton _, ?_⟩⟩
    · rw [List.head?_append, hpath.starts]
      rfl
    · intro id hid
      rcases List.mem_append.1 hid with hid | hid
      · exact hpath.containers id hid
      · obtain rfl := List.mem_singleton.1 hid
        exact ⟨node, hnode, hcontainer⟩
    · intro x hx y hy
      rw [getLast?_path] at hx
      cases hx
      cases hy
      rw [Document.LastChild, Document.childrenOf_of_node? hparent, hchildren]
      simp [Content.numbers, first]

end OpenLoops

namespace Builder

/-- The root and the open loops, innermost last. -/
def stack (b : Builder) : List NodeNumber := Document.rootNumber :: b.loops.reverse

/-- A token leaves the open loops as they are, opens one more, or closes the innermost. -/
theorem loops_feed {b c : Builder} {t : Token} (h : b.feed t = .ok (.ongoing c)) :
    c.loops = b.loops ∨ c.loops = b.document.size :: b.loops ∨ ∃ id, b.loops = id :: c.loops := by
  cases step_of_feed h with
  | enter => exact .inl rfl
  | text => exact .inl rfl
  | echo => exact .inl rfl
  | loop => exact .inr (.inl rfl)
  | endLoop _ _ hloops => exact .inr (.inr ⟨_, hloops⟩)

/-- A token leaves the stack as it is, pushes the node that it adds, or pops one that is not the
root. -/
theorem stack_feed {b c : Builder} {t : Token} (h : b.feed t = .ok (.ongoing c)) :
    c.stack = b.stack ∨ c.stack = b.stack ++ [b.document.size] ∨
      (1 < b.stack.length ∧ c.stack = b.stack.dropLast) := by
  rcases loops_feed h with hsame | hpush | ⟨id, hpop⟩
  · exact .inl (by rw [stack, stack, hsame])
  · refine .inr (.inl ?_)
    simp [stack, hpush]
  · refine .inr (.inr ⟨?_, ?_⟩)
    · simp [stack, hpop]
    · rw [stack, stack, hpop, List.reverse_cons, ← List.cons_append, List.dropLast_concat]

/-- The builder and the reader stand so at some time while the source is parsed. -/
inductive Reached (source : String) : Builder → Reader → Prop
  | start : Reached source initial (.ofSource source)
  | step {b c : Builder} {r s : Reader} {t : Token} (hb : Reached source b r)
      (hnext : r.next = (.ok t, s)) (hfeed : b.feed t = .ok (.ongoing c)) : Reached source c s

variable {source : String} {b : Builder} {r : Reader}

theorem exists_inside_of_reached (h : Reached source b r) :
    ∃ loops c stage, b = inside loops c stage := by
  have hread : ∃ ks, b.HasRead ks := by
    induction h with
    | start => exact ⟨_, hasRead_initial⟩
    | step hb hnext hfeed ih =>
      obtain ⟨ks, hks⟩ := ih
      exact ⟨_, hasRead_feed hks hfeed⟩
  obtain ⟨ks, loops, c, stage, hb, -⟩ := hread
  exact ⟨loops, c, stage, hb⟩

/-- From where they stand, the builder and the reader go on to what the parse gives. -/
theorem parse_of_reached (h : Reached source b r) : Document.parse source = b.feedFrom r := by
  induction h with
  | start => rfl
  | step hb hnext hfeed ih => rw [ih, feedFrom_of_token hnext, hfeed]

end Builder

/-- A parsed document is numbered in order, and so is each document on the way to it, where the
stack is the path to the innermost open loop. Each token pushes one number on it, pops one or leaves
it. -/
theorem numbered_of_parse :
    (∀ (source : String) (d : Document), Document.parse source = .ok d → d.Numbered) ∧
    (∀ (source : String) (b : Builder) (r : Reader), Builder.Reached source b r →
      Document.parse source = b.feedFrom r ∧ b.document.Numbered ∧
        b.document.IsPath b.stack ∧ b.stack.getLast? = some b.container) ∧
    (∀ (b c : Builder) (t : Token), b.feed t = .ok (.ongoing c) →
      c.stack = b.stack ∨ c.stack = b.stack ++ [b.document.size] ∨
        (1 < b.stack.length ∧ c.stack = b.stack.dropLast)) := by
  refine ⟨?_, ?_, ?_⟩
  · intro source d h
    obtain ⟨c, -, rfl, -⟩ := exists_content_of_parse h
    exact Document.numbered_document c
  · intro source b r h
    have hparse := Builder.parse_of_reached h
    obtain ⟨loops, c, stage, rfl⟩ := Builder.exists_inside_of_reached h
    refine ⟨hparse, ?_, OpenLoops.isPath_document loops c, ?_⟩
    · rw [Builder.inside, OpenLoops.document_eq_close]
      exact Document.numbered_document _
    · simp only [Builder.stack, Builder.container, Builder.inside, OpenLoops.headD_numbers]
      exact OpenLoops.getLast?_path loops
  · intro b c t h
    exact Builder.stack_feed h

/-- A whole loop with a text in it, the start of a parse, and a builder that stands in the loop. -/
theorem numbered_loop :
    (∃ d, Document.parse "\x7b$FOR i 1 2$\x7d b\x7b$END$\x7d" = .ok d ∧ d.Numbered) ∧
      Builder.initial.document.Numbered ∧
      Builder.initial.document.IsPath Builder.initial.stack ∧
      ∃ b r, Builder.Reached "\x7b$FOR i 1 2$\x7d b\x7b$END$\x7d" b r ∧ b.stack = [0, 1] ∧
        b.document.Numbered ∧ b.document.IsPath [0, 1] ∧ [0, 1].getLast? = some b.container := by
  have hparse : Document.parse "\x7b$FOR i 1 2$\x7d b\x7b$END$\x7d" = .ok ⟨#[.root #[1],
      .loop ⟨⟨"i", by decide⟩, .int 1, .int 2, none⟩ #[2], .text " b"]⟩ := by
    decide +kernel
  have hstart := numbered_of_parse.2.1 "" _ _ .start
  have hname : Builder.Reached "\x7b$FOR i 1 2$\x7d b\x7b$END$\x7d" _ _ :=
    ((Builder.Reached.start.step rfl rfl).step rfl rfl).step rfl rfl
  have hoperands := ((hname.step rfl rfl).step rfl rfl).step rfl rfl
  have hopen := (hoperands.step rfl rfl).step rfl rfl
  obtain ⟨-, hnumbered, hpath, hlast⟩ := numbered_of_parse.2.1 _ _ _ hopen
  exact ⟨⟨_, hparse, numbered_of_parse.1 _ _ hparse⟩, hstart.2.1, hstart.2.2.1, _, _, hopen,
    by decide +kernel, hnumbered, hpath, hlast⟩

end Template
