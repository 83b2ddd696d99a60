import Template.Proofs.Parseable
import Template.Proofs.RoundTrip
import Template.Proofs.Traversal

/-! What is written for a node and all below it parses by itself. -/
namespace Template

open Source

/-- The node with its children under other numbers. -/
def Node.renumber (f : NodeNumber → NodeNumber) : Node → Node
  | .root children => .root (children.map f)
  | .loop head children => .loop head (children.map f)
  | .text value => .text value
  | .echo elements => .echo elements

/-- The first of the parts, with all that is below it. -/
def Content.firstPart : Content → Content
  | nil => nil
  | text value _ => text value nil
  | echo elements _ => echo elements nil
  | loop head body _ => loop head body nil

variable {d : Document} {c tail : Content} {first id k : Nat} {e : Element}

@[simp] theorem Node.renumber_renumber (f g : NodeNumber → NodeNumber) (node : Node) :
    (node.renumber f).renumber g = node.renumber (g ∘ f) := by
  cases node <;> simp [renumber]

theorem Node.renumber_eq_self {f : NodeNumber → NodeNumber} (hf : ∀ n, f n = n) (node : Node) :
    node.renumber f = node := by
  obtain rfl : f = id := funext hf
  cases node <;> simp [renumber]

namespace Content

theorem numbers_add (c : Content) (first k : Nat) :
    c.numbers (first + k) = (c.numbers first).map (· + k) := by
  induction c generalizing first with
  | nil => rfl
  | text value next ih =>
    rw [numbers, numbers, List.map_cons, Nat.add_right_comm, ih]
  | echo elements next ih =>
    rw [numbers, numbers, List.map_cons, Nat.add_right_comm, ih]
  | loop head body next _ ihn =>
    rw [numbers, numbers, List.map_cons, Nat.add_right_comm first, Nat.add_right_comm (first + 1),
      ihn]

/-- When numbers are given out from farther on, each child's number moves as far. -/
theorem nodes_add (c : Content) (first k : Nat) :
    c.nodes (first + k) = (c.nodes first).map (Node.renumber (· + k)) := by
  induction c generalizing first with
  | nil => rfl
  | text value next ih =>
    rw [nodes, nodes, List.map_cons, Nat.add_right_comm, ih]
    rfl
  | echo elements next ih =>
    rw [nodes, nodes, List.map_cons, Nat.add_right_comm, ih]
    rfl
  | loop head body next ihb ihn =>
    rw [nodes, nodes, List.map_cons, List.map_append, Nat.add_right_comm first,
      Nat.add_right_comm (first + 1), ihb, ihn, numbers_add, ← List.map_toArray]
    rfl

theorem map_renumber_nodes (c : Content) (hid : 1 ≤ id) :
    (c.nodes id).map (Node.renumber fun child => child + 1 - id) = c.nodes 1 := by
  obtain ⟨k, rfl⟩ := Nat.exists_eq_add_of_le hid
  have hback (n : Nat) : n + k + 1 - (1 + k) = n := by omega
  rw [nodes_add, List.map_map]
  refine (List.map_congr_left fun node _ => ?_).trans (List.map_id _)
  exact (node.renumber_renumber _ _).trans (node.renumber_eq_self hback)

theorem numbers_firstPart (hc : c ≠ nil) (first : Nat) : c.firstPart.numbers first = [first] := by
  cases c with
  | nil => exact (hc rfl).elim
  | _ => rfl

theorem nodes_firstPart_prefix (c : Content) (first : Nat) :
    c.firstPart.nodes first <+: c.nodes first := by
  cases c with
  | nil => exact List.prefix_refl _
  | text value next => exact ⟨next.nodes (first + 1), rfl⟩
  | echo elements next => exact ⟨next.nodes (first + 1), rfl⟩
  | loop head body next =>
    exact ⟨next.nodes (first + 1 + body.size), by simp [firstPart, nodes]⟩

theorem wellFormed_firstPart (h : c.WellFormed) : c.firstPart.WellFormed := by
  cases c with
  | nil => trivial
  | text value next => trivial
  | echo elements next => exact ⟨h.1, trivial⟩
  | loop head body next => exact ⟨h.1, h.2.1, trivial⟩

theorem spaced_firstPart (h : c.Spaced) : c.firstPart.Spaced := by
  cases c with
  | nil => trivial
  | text value next => exact ⟨h.1, rfl, trivial⟩
  | echo elements next => trivial
  | loop head body next => exact ⟨h.1, trivial⟩

theorem mem_elements_of_firstPart (h : e ∈ c.firstPart.elements) : e ∈ c.elements := by
  cases c with
  | nil => cases h
  | text value next => cases h
  | echo elements next =>
    simp only [firstPart, Content.elements, List.append_nil] at h
    exact List.mem_append_left _ h
  | loop head body next =>
    simp only [firstPart, Content.elements, List.append_nil] at h
    rw [Content.elements, ← List.append_assoc]
    exact List.mem_append_left _ h

theorem Tail.wellFormed (h : tail.Tail c) (hc : c.WellFormed) : tail.WellFormed := by
  induction h with
  | refl => exact hc
  | text _ ih => exact ih hc
  | echo _ ih => exact ih hc.2
  | body _ ih => exact ih hc.2.1
  | next _ ih => exact ih hc.2.2

theorem Tail.mem_elements (h : tail.Tail c) (he : e ∈ tail.elements) : e ∈ c.elements := by
  induction h with
  | refl => exact he
  | text _ ih => exact ih
  | echo _ ih => exact List.mem_append_right _ ih
  | body _ ih => exact List.mem_append_right _ (List.mem_append_left _ ih)
  | next _ ih => exact List.mem_append_right _ (List.mem_append_right _ ih)

end Content

namespace Document

theorem Holds.firstPart (h : d.Holds first c) : d.Holds first c.firstPart :=
  (c.nodes_firstPart_prefix first).trans h

theorem Holds.le_size (h : d.Holds first c) (hfirst : first < d.size) :
    first + c.size ≤ d.size := by
  have hlen := List.IsPrefix.length_le h
  rw [Content.length_nodes, List.length_drop] at hlen
  have hsize : d.nodes.toList.length = d.size := rfl
  omega

theorem Holds.node?_add (h : d.Holds first c) (hk : k < c.size) :
    d.node? (first + k) = (c.nodes first)[k]? := by
  obtain ⟨rest, hnodes⟩ := h
  have hlt : k < (c.nodes first).length := by rwa [Content.length_nodes]
  rw [← List.getElem?_append_left hlt, hnodes, List.getElem?_drop, Array.getElem?_toList]
  rfl

/-- What a node and those below it hold, as one part. -/
theorem exists_part (c : Content) (hne : id ≠ rootNumber) (hid : id < c.document.size) :
    ∃ part : Content, c.document.Holds id part ∧ (∀ first, part.numbers first = [first]) ∧
      (c.WellFormed → part.WellFormed) ∧ (c.Spaced → part.Spaced) ∧
      ∀ e ∈ part.elements, e ∈ c.elements := by
  rw [Content.size_document, Nat.add_comm] at hid
  obtain ⟨tail, hnil, htail, hholds, -⟩ :=
    (Holds.document c).exists_tail (Nat.pos_of_ne_zero hne) hid
  refine ⟨tail.firstPart, hholds.firstPart, Content.numbers_firstPart hnil, ?_, ?_, ?_⟩
  · exact fun hc => Content.wellFormed_firstPart (htail.wellFormed hc)
  · exact fun hc => Content.spaced_firstPart (htail.spaced hc)
  · exact fun e he => htail.mem_elements (Content.mem_elements_of_firstPart he)

/-- The numbers at and below a node are the next ones, as many as there are parts. -/
theorem Numbered.isBelow_iff (h : d.Numbered) (hholds : d.Holds id c) (hc : c.numbers id = [id])
    (hid : id < d.size) : d.IsBelow id k ↔ id ≤ k ∧ k < id + c.size := by
  obtain ⟨f, hf⟩ := h.exists_calls
  have hentered : (f id).filterMap WalkStep.entered? = List.range' id c.size := by
    have hwalk := enters_numbers hholds .done
    rw [hc, List.append_nil, List.append_nil] at hwalk
    exact (hf id hid).enters.eq hwalk
  rw [← hf.enter_mem_iff h hid, ← List.mem_range'_1, ← hentered, List.mem_filterMap]
  constructor
  · exact fun hmem => ⟨.enter k, hmem, rfl⟩
  · rintro ⟨step, hmem, hstep⟩
    cases step with
    | enter j =>
      cases hstep
      exact hmem
    | leave j => cases hstep

theorem walkFrom_part {m : Type → Type} [Monad m] [LawfulMonad m] (w : Walker m)
    (hholds : d.Holds id c) (hc : c.numbers id = [id]) (hid : id < d.size) :
    d.walkFrom w id = c.walk w id := by
  have hsteps := c.steps_le
  have hsize := hholds.le_size hid
  obtain ⟨fuel, hfuel⟩ := Nat.exists_eq_add_of_le (show c.steps ≤ 2 * d.size by omega)
  have hwalk := walkSteps_content w hholds fuel []
  rw [hc, List.map_singleton, List.append_nil] at hwalk
  rw [walkFrom, hfuel, hwalk, walkSteps_nil, bind_pure]

theorem fragments_eq (d : Document) (ids : List NodeNumber) :
    d.fragments ids = ((forM ids (d.walkFrom writer)).run "").2 := rfl

theorem fragments_part (hholds : d.Holds id c) (hc : c.numbers id = [id]) (hid : id < d.size) :
    d.fragments [id] = String.ofList c.source := by
  have hwalk := walkFrom_part writer hholds hc hid
  rw [fragments_eq, List.forM_cons, hwalk, walk_writer]
  exact String.empty_append

theorem exists_write_visit (node : Node) : ∃ cs, writer.visit node = write cs := by
  cases node with
  | root children => exact ⟨[], write_nil.symm⟩
  | text value => exact ⟨_, rfl⟩
  | echo elements => exact ⟨_, rfl⟩
  | loop head children => exact ⟨_, rfl⟩

theorem exists_write_leave (node : Node) : ∃ cs, writer.leave node = write cs := by
  cases node with
  | root children => exact ⟨[], write_nil.symm⟩
  | text value => exact ⟨[], write_nil.symm⟩
  | echo elements => exact ⟨[], write_nil.symm⟩
  | loop head children => exact ⟨_, rfl⟩

/-- Whatever is walked, some characters are written behind those that are there. -/
theorem exists_write_walkSteps (d : Document) (fuel : Nat) (steps : List WalkStep) :
    ∃ cs, d.walkSteps writer fuel steps = write cs := by
  induction fuel generalizing steps with
  | zero => exact ⟨[], write_nil.symm⟩
  | succ fuel ih =>
    cases steps with
    | nil => exact ⟨[], write_nil.symm⟩
    | cons step rest =>
      cases step with
      | enter id =>
        cases hnode : d.node? id with
        | none =>
          obtain ⟨cs, hcs⟩ := ih rest
          exact ⟨cs, by simp only [walkSteps, hnode, hcs]⟩
        | some node =>
          obtain ⟨cs, hcs⟩ := exists_write_visit node
          obtain ⟨ds, hds⟩ := ih (node.steps id ++ rest)
          exact ⟨cs ++ ds, by rw [walkSteps_enter writer hnode, hcs, hds, write_append]⟩
      | leave id =>
        cases hnode : d.node? id with
        | none =>
          obtain ⟨cs, hcs⟩ := ih rest
          exact ⟨cs, by simp only [walkSteps, hnode, hcs]⟩
        | some node =>
          obtain ⟨cs, hcs⟩ := exists_write_leave node
          obtain ⟨ds, hds⟩ := ih rest
          exact ⟨cs ++ ds, by rw [walkSteps_leave writer hnode, hcs, hds, write_append]⟩

/-- One walk after the other writes the fragments one behind the other. -/
theorem forM_walkFrom (d : Document) (ids : List NodeNumber) :
    forM ids (d.walkFrom writer) =
      write (String.join (ids.map fun id => d.fragments [id])).toList := by
  induction ids with
  | nil => exact write_nil.symm
  | cons id ids ih =>
    obtain ⟨cs, hcs⟩ := d.exists_write_walkSteps (2 * d.size) [.enter id]
    have hwalk : d.walkFrom writer id = write cs := hcs
    have hfragment : d.fragments [id] = String.ofList cs := by
      rw [fragments_eq, List.forM_cons, hwalk]
      exact String.empty_append
    rw [List.forM_cons, ih, hwalk]
    change (do write cs; write _) = _
    rw [write_append, List.map_cons, String.join_cons, String.toList_append, hfragment,
      String.toList_ofList]

theorem fragments_eq_join (d : Document) (ids : List NodeNumber) :
    d.fragments ids = String.join (ids.map fun id => d.fragments [id]) := by
  rw [fragments_eq, forM_walkFrom]
  change "" ++ String.ofList _ = _
  rw [String.ofList_toList, String.empty_append]

theorem fragments_root {children : Array NodeNumber} (h : d.Numbered)
    (hroot : d.node? rootNumber = some (.root children)) :
    d.fragments (d.childrenOf rootNumber) = d.source := by
  obtain ⟨f, hf⟩ := h.exists_calls
  have hwalk := isRecursive_walkFrom writer hf h rootNumber _ hroot
  have hvisit : writer.visit (.root children) = pure () := rfl
  have hleave : writer.leave (.root children) = pure () := rfl
  rw [hvisit, hleave, pure_bind, bind_pure] at hwalk
  rw [fragments_eq, childrenOf_of_node? hroot, source, walk, hwalk]

end Document

/-- The fragment of a node is itself a source, and parses to what is below the node: one child of
the root, and the same nodes with the numbers from one on. The fragments of several nodes stand one
behind the other, and those of the outermost ones are the whole canonical source. -/
theorem parse_fragments {source : String} (hparse : Document.parse source = .ok d)
    (hfinite : ∀ e ∈ d.elements, e.isInfinite = false) :
    (∀ id < d.size, id ≠ Document.rootNumber → ∃ n e,
      (∀ k, d.IsBelow id k ↔ id ≤ k ∧ k < id + n) ∧
      Document.parse (d.fragments [id]) = .ok e ∧ e.size = n + 1 ∧
      e.node? Document.rootNumber = some (.root #[1]) ∧
      ∀ k, id ≤ k → k < id + n →
        e.node? (k + 1 - id) = (d.node? k).map (Node.renumber fun child => child + 1 - id)) ∧
    (∀ ids, d.fragments ids = String.join (ids.map fun id => d.fragments [id])) ∧
    d.fragments (d.childrenOf Document.rootNumber) = d.source := by
  obtain ⟨c, hc, rfl, hspaced, hnumbers⟩ := spaced_of_parse hparse
  refine ⟨fun id hid hne => ?_, Document.fragments_eq_join _,
    Document.fragments_root (Document.numbered_document c) (Document.node?_root c)⟩
  obtain ⟨part, hholds, hpart, hwell, hspacing, hmem⟩ := Document.exists_part c hne hid
  have hreparse : Document.parse (c.document.fragments [id]) = .ok part.document := by
    rw [Document.fragments_part hholds (hpart id) hid, ← source_document]
    refine parse_source_of_finite (hwell hc) (hspacing hspaced) ?_ ?_
    · exact fun e he => hnumbers e (hmem e he)
    · intro e he
      exact hfinite e ((Content.elements_document c).symm ▸ hmem e he)
  refine ⟨part.size, part.document, fun k => ?_, hreparse, Content.size_document, ?_, ?_⟩
  · exact (Document.numbered_document c).isBelow_iff hholds (hpart id) hid
  · rw [Document.node?_root, hpart]
  · intro k hle hlt
    obtain ⟨j, rfl⟩ := Nat.exists_eq_add_of_le hle
    have hj : j < part.size := by omega
    rw [show id + j + 1 - id = 1 + j by omega, (Document.Holds.document part).node?_add hj,
      hholds.node?_add hj, ← part.map_renumber_nodes (Nat.pos_of_ne_zero hne), List.getElem?_map]

/-- The loop behind a text, as a source of its own. -/
theorem parse_fragments_loop :
    ∃ d e, Document.parse "a\x7b$FOR i 1 2$\x7d b\x7b$END$\x7d" = .ok d ∧
      Document.parse (d.fragments [2]) = .ok e ∧ e.node? Document.rootNumber = some (.root #[1]) ∧
      e.node? 2 = some (.text " b") ∧ d.fragments [1, 2] = d.source := by
  have hparse : Document.parse "a\x7b$FOR i 1 2$\x7d b\x7b$END$\x7d" = .ok ⟨#[.root #[1, 2],
      .text "a", .loop ⟨⟨"i", by decide⟩, .int 1, .int 2, none⟩ #[3], .text " b"]⟩ := by
    decide +kernel
  obtain ⟨hparts, -, hroot⟩ := parse_fragments hparse (by decide)
  obtain ⟨n, e, hbelow, hreparse, -, hchild, hnodes⟩ := hparts 2 (by decide) (by decide)
  have hthree := (hbelow 3).1 (.single (by decide))
  exact ⟨_, e, hparse, hreparse, hchild, hnodes 3 hthree.1 hthree.2, hroot⟩

end Template
