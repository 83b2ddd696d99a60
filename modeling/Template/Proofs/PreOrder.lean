import Template.Proofs.Numbering

/-! Every tree that is numbered in order comes from parts. -/
namespace Template

namespace Document

variable {d : Document} {first k : Nat} {next body : Content} {node : Node} {nodes : List Node}
  {ids pending entered : List NodeNumber}

theorem Holds.cons (hnode : d.node? first = some node)
    (h : nodes <+: d.nodes.toList.drop (first + 1)) :
    node :: nodes <+: d.nodes.toList.drop first := by
  obtain ⟨hlt, rfl⟩ := Array.getElem?_eq_some_iff.1 hnode
  obtain ⟨rest, hrest⟩ := h
  refine ⟨rest, ?_⟩
  have hlength : first < d.nodes.toList.length := by simpa using hlt
  rw [List.cons_append, hrest, List.drop_eq_getElem_cons hlength]
  rfl

theorem Holds.append (hbody : d.Holds first body) (hnext : d.Holds (first + body.size) next) :
    body.nodes first ++ next.nodes (first + body.size) <+: d.nodes.toList.drop first := by
  obtain ⟨rest, hbody⟩ := hbody
  rw [Holds, ← List.drop_drop, ← hbody, List.drop_left' (by simp)] at hnext
  rw [← hbody]
  exact (List.prefix_append_right_inj _).2 hnext

/-- A node, the parts below it and the parts behind these are the parts of a tree. -/
theorem exists_content_of_node (hnode : d.node? first = some node) (hroot : ¬ node.IsRoot)
    (hchildren : node.children.toList = body.numbers (first + 1)) (hbody : d.Holds (first + 1) body)
    (hnext : d.Holds (first + 1 + body.size) next) :
    ∃ c : Content, c.numbers first = first :: next.numbers (first + 1 + body.size) ∧
      d.Holds first c ∧ c.size = body.size + next.size + 1 := by
  cases node with
  | root children => exact (hroot trivial).elim
  | text value =>
    obtain rfl := Content.numbers_eq_nil_iff.1 hchildren.symm
    exact ⟨.text value next, rfl, Holds.cons hnode hnext, by simp [Content.size]⟩
  | echo elements =>
    obtain rfl := Content.numbers_eq_nil_iff.1 hchildren.symm
    exact ⟨.echo elements next, rfl, Holds.cons hnode hnext, by simp [Content.size]⟩
  | loop head children =>
    obtain rfl : children = (body.numbers (first + 1)).toArray := Array.toList_inj.1 hchildren
    exact ⟨.loop head body next, rfl, Holds.cons hnode (Holds.append hbody hnext), rfl⟩

/-- The end of a walk is the end of what is pending. -/
theorem Enters.entered_eq_nil (h : d.Enters [] entered) : entered = [] := by
  cases h
  rfl

theorem Enters.of_cons {id : NodeNumber} (h : d.Enters (id :: pending) (List.range' first k)) :
    ∃ node n, k = n + 1 ∧ first = id ∧ d.node? first = some node ∧
      d.Enters (node.children.toList ++ pending) (List.range' (first + 1) n) := by
  cases k with
  | zero => cases h
  | succ n =>
    rw [List.range'_succ] at h
    cases h with
    | enter hnode hrest => exact ⟨_, n, rfl, rfl, hnode, hrest⟩

/-- The pending nodes that a walk enters first are the parts of a tree. -/
theorem exists_content_of_enters (hroot : ∀ id node, first ≤ id → d.node? id = some node →
    ¬ node.IsRoot) (h : d.Enters (ids ++ pending) (List.range' first k)) :
    ∃ c n, ids = c.numbers first ∧ d.Holds first c ∧ k = c.size + n ∧
      d.Enters pending (List.range' (first + c.size) n) := by
  induction k using Nat.strongRecOn generalizing first ids pending with
  | ind k ih =>
    cases ids with
    | nil => exact ⟨.nil, k, rfl, List.nil_prefix, by simp [Content.size], h⟩
    | cons id ids =>
      obtain ⟨node, n, rfl, rfl, hnode, hrest⟩ := h.of_cons
      -- the children of the node are entered first, and its siblings behind them
      obtain ⟨body, m, hchildren, hbody, rfl, hsiblings⟩ :=
        ih n (by omega) (fun id' node' hle => hroot id' node' (by omega)) hrest
      obtain ⟨next, l, rfl, hnext, rfl, hpending⟩ :=
        ih m (by omega) (fun id' node' hle => hroot id' node' (by omega)) hsiblings
      obtain ⟨c, hnumbers, hc, hsize⟩ :=
        exists_content_of_node hnode (hroot _ _ (Nat.le_refl _) hnode) hchildren hbody hnext
      have hbehind : first + c.size = first + 1 + body.size + next.size := by omega
      rw [← hbehind] at hpending
      exact ⟨c, l, hnumbers.symm, hc, by omega, hpending⟩

/-- A document that is numbered in order is that of a tree. -/
theorem exists_content_of_numbered (h : d.Numbered) : ∃ c : Content, d = c.document := by
  have hroot : ∀ id node, d.node? id = some node → (node.IsRoot ↔ id = rootNumber) := by
    intro id node hnode
    obtain ⟨hlt, -⟩ := Array.getElem?_eq_some_iff.1 hnode
    obtain ⟨node', hnode', hiff⟩ := h.root id hlt
    cases hnode.symm.trans hnode'
    exact hiff
  have hwalk := h.walk
  rw [List.range_eq_range'] at hwalk
  obtain ⟨node, n, hsize, -, hnode, hrest⟩ := hwalk.of_cons
  have hparts : ∀ id node, 1 ≤ id → d.node? id = some node → ¬ node.IsRoot := by
    intro id node hid hnode hisRoot
    exact Nat.ne_of_gt hid ((hroot id node hnode).1 hisRoot)
  obtain ⟨c, m, hchildren, hc, rfl, hpending⟩ := exists_content_of_enters hparts hrest
  have hm : m = 0 := by simpa using hpending.entered_eq_nil
  cases node with
  | root children =>
    obtain rfl : children = (c.numbers 1).toArray := Array.toList_inj.1 hchildren
    have hnodes : .root (c.numbers 1).toArray :: c.nodes 1 = d.nodes.toList := by
      refine (Holds.cons hnode hc).eq_of_length ?_
      simpa [size, hm] using hsize.symm
    refine ⟨c, ?_⟩
    rw [Content.document, hnodes, Array.toArray_toList]
  | text value => cases (hroot _ _ hnode).2 rfl
  | echo elements => cases (hroot _ _ hnode).2 rfl
  | loop head children => cases (hroot _ _ hnode).2 rfl

end Document

end Template
