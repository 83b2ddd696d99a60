import Template.Proofs.PreOrder
import Template.Proofs.Spelling
import Template.Proofs.TokenRuns

/-! The documents that sources have are those that are well formed. -/
namespace Template

/-- The name that the element is or refers to. -/
def Element.name? : Element → Option Name
  | .var name | .function name => some name
  | .string _ | .int _ | .double _ | .operator _ => none

def Node.names : Node → List Name
  | .root _ | .text _ => []
  | .echo elements => elements.filterMap Element.name?
  | .loop head _ => head.counter :: head.operands.filterMap Element.name?

namespace Document

def IsText (d : Document) (id : NodeNumber) : Prop := ∃ value, d.node? id = some (.text value)

/-- Two siblings that may stand next to each other. -/
def Apart (d : Document) (m n : NodeNumber) : Prop := d.IsText m → ¬ d.IsText n

/-- What is asked of the document of a source. -/
structure WellFormed (d : Document) : Prop where
  /-- A tree, its nodes numbered in order and the root at number zero. -/
  numbered : d.Numbered
  texts : ∀ value, .text value ∈ d.nodes.toList → value ≠ ""
  /-- No two texts stand next to each other among the children of a node. -/
  apart : ∀ id, (d.childrenOf id).IsChain d.Apart
  echoes : ∀ elements, .echo elements ∈ d.nodes.toList → elements ≠ []
  names : ∀ node ∈ d.nodes.toList, ∀ name ∈ node.names, isName name.text.toList
  operands : ∀ e ∈ d.operands, e.isLoopOperand
  numbers : ∀ e ∈ d.elements, e.isNaN = false

end Document

theorem Document.mem_nodes_of_node? {d : Document} {id : NodeNumber} {node : Node}
    (h : d.node? id = some node) : node ∈ d.nodes.toList := by
  obtain ⟨hlt, rfl⟩ := Array.getElem?_eq_some_iff.1 h
  exact Array.getElem_mem_toList hlt

namespace Content

variable {d : Document} {c : Content} {first id : Nat}

theorem wellFormed_iff (c : Content) (first : Nat) : c.WellFormed ↔
    (∀ elements, .echo elements ∈ c.nodes first → elements ≠ []) ∧
      ∀ e ∈ c.operands, e.isLoopOperand := by
  induction c generalizing first with
  | nil => simp [WellFormed, nodes, operands]
  | text value next ih => simpa [WellFormed, nodes, operands] using ih (first + 1)
  | echo elements next ih =>
    simp [WellFormed, nodes, operands, ih (first + 1), and_assoc]
  | loop head body next ihb ihn =>
    have hnodes : (∀ elements, .echo elements ∈ (loop head body next).nodes first →
        elements ≠ []) ↔ (∀ elements, .echo elements ∈ body.nodes (first + 1) → elements ≠ []) ∧
          ∀ elements, .echo elements ∈ next.nodes (first + 1 + body.size) → elements ≠ [] := by
      simp [nodes, or_imp, forall_and]
    rw [WellFormed, ihb (first + 1), ihn (first + 1 + body.size), hnodes, operands,
      List.forall_mem_append, List.forall_mem_append, Loop.WellFormed]
    tauto

theorem text_ne_of_mem_nodes {value : String} (hspaced : c.Spaced)
    (h : .text value ∈ c.nodes first) : value ≠ "" := by
  induction c generalizing first with
  | nil => cases h
  | text value' next ih =>
    rcases List.mem_cons.1 h with heq | hmem
    · cases heq
      exact hspaced.1
    · exact ih hspaced.2.2 hmem
  | echo elements next ih =>
    rcases List.mem_cons.1 h with heq | hmem
    · cases heq
    · exact ih hspaced hmem
  | loop head body next ihb ihn =>
    rcases List.mem_cons.1 h with heq | hmem
    · cases heq
    · rcases List.mem_append.1 hmem with hmem | hmem
      · exact ihb hspaced.1 hmem
      · exact ihn hspaced.2 hmem

theorem isText_head (h : d.Holds first c) (hid : id ∈ (c.numbers first).head?) :
    d.IsText id ↔ c.beginsWithText := by
  cases c with
  | nil => cases hid
  | text value next =>
    cases hid
    exact iff_of_true ⟨value, h.text.1⟩ rfl
  | echo elements next =>
    cases hid
    refine iff_of_false ?_ Bool.false_ne_true
    rintro ⟨value, hvalue⟩
    cases h.echo.1.symm.trans hvalue
  | loop head body next =>
    cases hid
    refine iff_of_false ?_ Bool.false_ne_true
    rintro ⟨value, hvalue⟩
    cases h.loop.1.symm.trans hvalue

/-- In a spaced tree no texts stand next to each other among the outermost parts. -/
theorem apart_numbers (h : d.Holds first c) (hspaced : c.Spaced) :
    (c.numbers first).IsChain d.Apart := by
  induction c generalizing first with
  | nil => exact .nil
  | text value next ih =>
    obtain ⟨-, hnext, hspaced⟩ := hspaced
    obtain ⟨-, hrest⟩ := h.text
    refine List.isChain_cons.2 ⟨fun id hid _ htext => ?_, ih hrest hspaced⟩
    exact Bool.false_ne_true (hnext.symm.trans ((isText_head hrest hid).1 htext))
  | echo elements next ih =>
    refine List.isChain_cons.2 ⟨fun id _ htext => ?_, ih h.echo.2 hspaced⟩
    cases (isText_head h rfl).1 htext
  | loop head body next _ ihn =>
    refine List.isChain_cons.2 ⟨fun id _ htext => ?_, ihn h.loop.2.2 hspaced.2⟩
    cases (isText_head h rfl).1 htext

theorem Tail.spaced {tail : Content} (h : tail.Tail c) (hspaced : c.Spaced) : tail.Spaced := by
  induction h with
  | refl => exact hspaced
  | text _ ih => exact ih hspaced.2.2
  | echo _ ih => exact ih hspaced
  | body _ ih => exact ih hspaced.1
  | next _ ih => exact ih hspaced.2

theorem apart_childrenOf (h : d.Holds first c) (hspaced : c.Spaced) (hfirst : first ≤ id)
    (hid : id < first + c.size) : (d.childrenOf id).IsChain d.Apart := by
  obtain ⟨tail, hne, htail, hholds, -⟩ := h.exists_tail hfirst hid
  cases tail with
  | nil => exact (hne rfl).elim
  | text value next =>
    rw [Document.childrenOf_of_node? hholds.text.1]
    exact .nil
  | echo elements next =>
    rw [Document.childrenOf_of_node? hholds.echo.1]
    exact .nil
  | loop head body next =>
    obtain ⟨hnode, hbody, -⟩ := hholds.loop
    rw [Document.childrenOf_of_node? hnode]
    exact apart_numbers hbody (htail.spaced hspaced).1

/-- A tree is spaced if no text is empty and no texts stand next to each other. -/
theorem spaced_of_apart (h : d.Holds first c)
    (htexts : ∀ value, .text value ∈ d.nodes.toList → value ≠ "")
    (hchildren : ∀ id, (d.childrenOf id).IsChain d.Apart)
    (hnumbers : (c.numbers first).IsChain d.Apart) : c.Spaced := by
  induction c generalizing first with
  | nil => trivial
  | text value next ih =>
    obtain ⟨hnode, hrest⟩ := h.text
    obtain ⟨happart, hchain⟩ := List.isChain_cons.1 hnumbers
    refine ⟨htexts value (Document.mem_nodes_of_node? hnode), ?_, ih hrest hchain⟩
    rw [Bool.eq_false_iff]
    intro hbegins
    have hne : next ≠ nil := by
      rintro rfl
      cases hbegins
    have hhead : (next.numbers (first + 1)).head? = some (first + 1) := head?_numbers hne
    exact happart _ hhead ⟨value, hnode⟩ ((isText_head hrest hhead).2 hbegins)
  | echo elements next ih =>
    exact ih h.echo.2 (List.isChain_cons.1 hnumbers).2
  | loop head body next ihb ihn =>
    obtain ⟨hnode, hbody, hrest⟩ := h.loop
    have hinner := hchildren first
    rw [Document.childrenOf_of_node? hnode] at hinner
    exact ⟨ihb hbody hinner, ihn hrest (List.isChain_cons.1 hnumbers).2⟩

end Content

namespace Document

variable {c : Content}

theorem apart_document (hspaced : c.Spaced) (id : NodeNumber) :
    (c.document.childrenOf id).IsChain c.document.Apart := by
  cases hnode : c.document.node? id with
  | none =>
    have hnone : c.document.childrenOf id = [] := by simp [childrenOf, hnode]
    rw [hnone]
    exact .nil
  | some node =>
    by_cases hzero : id = rootNumber
    · subst hzero
      rw [childrenOf_of_node? (node?_root c)]
      exact Content.apart_numbers (Holds.document c) hspaced
    · obtain ⟨hlt, -⟩ := Array.getElem?_eq_some_iff.1 hnode
      have hsize : c.document.nodes.size = c.size + 1 := Content.size_document
      exact Content.apart_childrenOf (Holds.document c) hspaced (Nat.pos_of_ne_zero hzero)
        (by omega)

theorem wellFormed_document (hc : c.WellFormed) (hspaced : c.Spaced)
    (hnumbers : ∀ e ∈ c.elements, e.isNaN = false) : c.document.WellFormed := by
  obtain ⟨hechoes, hoperands⟩ := (Content.wellFormed_iff c 1).1 hc
  refine ⟨numbered_document c, ?_, ?_, ?_, fun _ _ name _ => name.wellFormed, ?_, ?_⟩
  · intro value hmem
    rcases List.mem_cons.1 hmem with heq | hmem
    · cases heq
    · exact Content.text_ne_of_mem_nodes hspaced hmem
  · exact apart_document hspaced
  · intro elements hmem
    rcases List.mem_cons.1 hmem with heq | hmem
    · cases heq
    · exact hechoes elements hmem
  · rwa [Content.operands_document]
  · rwa [Content.elements_document]

theorem WellFormed.exists_content {d : Document} (h : d.WellFormed) : ∃ c : Content,
    d = c.document ∧ c.WellFormed ∧ c.Spaced ∧ ∀ e ∈ c.elements, e.isNaN = false := by
  obtain ⟨c, rfl⟩ := exists_content_of_numbered h.numbered
  have hholds := Holds.document c
  refine ⟨c, rfl, (Content.wellFormed_iff c 1).2 ⟨?_, ?_⟩, ?_, ?_⟩
  · intro elements hmem
    exact h.echoes elements (List.mem_cons_of_mem _ hmem)
  · rw [← Content.operands_document]
    exact h.operands
  · have hroot := h.apart rootNumber
    rw [childrenOf_of_node? (node?_root c)] at hroot
    exact Content.spaced_of_apart hholds h.texts h.apart hroot
  · rw [← Content.elements_document]
    exact h.numbers

end Document

/-- Sources parse to the well-formed documents and to nothing else. -/
theorem exists_parse_iff_wellFormed (d : Document) :
    (∃ source, Document.parse source = .ok d) ↔ d.WellFormed := by
  constructor
  · rintro ⟨source, h⟩
    obtain ⟨c, hc, rfl, hspaced, hnumbers⟩ := spaced_of_parse h
    exact Document.wellFormed_document hc hspaced hnumbers
  · intro h
    obtain ⟨c, rfl, hc, hspaced, hnumbers⟩ := h.exists_content
    exact ⟨_, parse_spelling hc hspaced hnumbers⟩

end Template
