import Template.Document

/-! What containers hold, as a tree that a document numbers in order. -/
namespace Template

/-- The parts that a container holds, in order. -/
inductive Content
  | nil
  | text (value : String) (next : Content)
  | echo (elements : List Element) (next : Content)
  | loop (head : Loop) (body next : Content)
deriving DecidableEq

namespace Content

/-- How many parts there are at all depths. -/
def size : Content → Nat
  | nil => 0
  | text _ next | echo _ next => next.size + 1
  | loop _ body next => body.size + next.size + 1

/-- The numbers of the outermost parts, when numbers are given out from `first` on. -/
def numbers (first : Nat) : Content → List Nat
  | nil => []
  | text _ next | echo _ next => first :: next.numbers (first + 1)
  | loop _ body next => first :: next.numbers (first + 1 + body.size)

/-- The parts as nodes, in the order of their numbers, which are given out from `first` on. -/
def nodes (first : Nat) : Content → List Node
  | nil => []
  | text value next => .text value :: next.nodes (first + 1)
  | echo elements next => .echo elements :: next.nodes (first + 1)
  | loop head body next =>
    .loop head (body.numbers (first + 1)).toArray ::
      (body.nodes (first + 1) ++ next.nodes (first + 1 + body.size))

def document (c : Content) : Document := ⟨(.root (c.numbers 1).toArray :: c.nodes 1).toArray⟩

def append : Content → Content → Content
  | nil, d => d
  | text value next, d => text value (next.append d)
  | echo elements next, d => echo elements (next.append d)
  | loop head body next, d => loop head body (next.append d)

instance : Append Content := ⟨append⟩

variable {c d e : Content} {first : Nat} {value : String} {elements : List Element}
  {head : Loop} {body next : Content}

@[simp] theorem nil_append : nil ++ d = d := rfl

@[simp] theorem text_append : text value next ++ d = text value (next ++ d) := rfl

@[simp] theorem echo_append : echo elements next ++ d = echo elements (next ++ d) := rfl

@[simp] theorem loop_append : loop head body next ++ d = loop head body (next ++ d) := rfl

@[simp] theorem append_nil (c : Content) : c ++ nil = c := by
  induction c <;> simp_all

theorem append_assoc (c d e : Content) : c ++ d ++ e = c ++ (d ++ e) := by
  induction c <;> simp_all

@[simp] theorem numbers_append :
    (c ++ d).numbers first = c.numbers first ++ d.numbers (first + c.size) := by
  induction c generalizing first <;> simp_all [numbers, size, Nat.add_assoc, Nat.add_comm 1]

@[simp] theorem nodes_append :
    (c ++ d).nodes first = c.nodes first ++ d.nodes (first + c.size) := by
  induction c generalizing first <;> simp_all [nodes, size, Nat.add_assoc, Nat.add_comm 1]

@[simp] theorem length_nodes : (c.nodes first).length = c.size := by
  induction c generalizing first <;> simp_all [nodes, size]

@[simp] theorem size_document : c.document.size = c.size + 1 := by
  simp [document, Document.size]

theorem numbers_eq_nil_iff : c.numbers first = [] ↔ c = nil := by
  cases c <;> simp [numbers]

theorem head?_numbers (hc : c ≠ nil) : (c.numbers first).head? = some first := by
  cases c <;> simp_all [numbers]

/-- Where the next siblings of a loop begin tells how many parts its body has. -/
theorem size_eq_of_numbers_eq {c d : Content} {m n k : Nat} (hc : c ≠ nil)
    (h : c.numbers (k + m) = d.numbers (k + n)) : m = n := by
  have hd : d ≠ nil := by
    rintro rfl
    exact hc (numbers_eq_nil_iff.1 h)
  have := congrArg List.head? h
  rw [head?_numbers hc, head?_numbers hd, Option.some.injEq] at this
  exact Nat.add_left_cancel this

/-- The numbered nodes determine the tree. -/
theorem eq_of_nodes_eq (hn : c.numbers first = d.numbers first)
    (h : c.nodes first = d.nodes first) : c = d := by
  induction c generalizing d first with
  | nil => exact (numbers_eq_nil_iff.1 hn.symm).symm
  | text value next ih =>
    cases d with
    | text =>
      simp only [numbers, nodes, List.cons.injEq, Node.text.injEq, true_and] at hn h
      rw [h.1, ih hn h.2]
    | _ => simp [nodes] at h
  | echo elements next ih =>
    cases d with
    | echo =>
      simp only [numbers, nodes, List.cons.injEq, Node.echo.injEq, true_and] at hn h
      rw [h.1, ih hn h.2]
    | _ => simp [nodes] at h
  | loop head body next ihb ihn =>
    cases d with
    | loop head' body' next' =>
      simp only [numbers, nodes, List.cons.injEq, Node.loop.injEq, true_and] at hn h
      obtain ⟨⟨rfl, hb⟩, hnodes⟩ := h
      have hsize : body.size = body'.size := by
        by_cases hnil : next = nil
        · subst hnil
          have hnil' := numbers_eq_nil_iff.1 hn.symm
          subst hnil'
          simpa [nodes] using congrArg List.length hnodes
        · exact size_eq_of_numbers_eq hnil hn
      rw [hsize] at hn hnodes
      obtain ⟨hbody, hnext⟩ := List.append_inj hnodes (by simp [hsize])
      rw [ihb (List.toArray_inj hb) hbody, ihn hn hnext]
    | _ => simp [nodes] at h

theorem document_injective (h : c.document = d.document) : c = d := by
  have hnodes := List.toArray_inj (congrArg Document.nodes h)
  simp only [List.cons.injEq, Node.root.injEq] at hnodes
  exact eq_of_nodes_eq (List.toArray_inj hnodes.1) hnodes.2

end Content

/-- The parts from one of the parts on, up to the end of its siblings. -/
inductive Content.Tail (tail : Content) : Content → Prop
  | refl : Tail tail tail
  | text {value : String} {next : Content} (h : Tail tail next) : Tail tail (.text value next)
  | echo {elements : List Element} {next : Content} (h : Tail tail next) :
      Tail tail (.echo elements next)
  | body {head : Loop} {body next : Content} (h : Tail tail body) : Tail tail (.loop head body next)
  | next {head : Loop} {body next : Content} (h : Tail tail next) : Tail tail (.loop head body next)

theorem Document.node?_root (c : Content) :
    c.document.node? rootNumber = some (.root (c.numbers 1).toArray) := by
  simp [node?, Content.document, rootNumber]

/-- The nodes of the document from number `first` on begin with those of `c`. -/
def Document.Holds (d : Document) (first : Nat) (c : Content) : Prop :=
  c.nodes first <+: d.nodes.toList.drop first

namespace Document.Holds

variable {d : Document} {first : Nat} {c next body : Content} {value : String}
  {elements : List Element} {head : Loop} {node : Node} {nodes : List Node}

theorem document (c : Content) : c.document.Holds 1 c := List.prefix_refl _

theorem node?_of_cons (h : node :: nodes <+: d.nodes.toList.drop first) :
    d.node? first = some node ∧ nodes <+: d.nodes.toList.drop (first + 1) := by
  obtain ⟨rest, h⟩ := h
  constructor
  · have := congrArg (·[0]?) h
    simpa [Document.node?] using this.symm
  · refine ⟨rest, ?_⟩
    rw [← List.drop_drop, ← h]
    rfl

theorem text (h : d.Holds first (.text value next)) :
    d.node? first = some (.text value) ∧ d.Holds (first + 1) next :=
  node?_of_cons h

theorem echo (h : d.Holds first (.echo elements next)) :
    d.node? first = some (.echo elements) ∧ d.Holds (first + 1) next :=
  node?_of_cons h

theorem loop (h : d.Holds first (.loop head body next)) :
    d.node? first = some (.loop head (body.numbers (first + 1)).toArray) ∧
      d.Holds (first + 1) body ∧ d.Holds (first + 1 + body.size) next := by
  obtain ⟨hnode, rest, h⟩ := node?_of_cons h
  refine ⟨hnode, ⟨_, (List.append_assoc ..).symm.trans h⟩, rest, ?_⟩
  rw [← List.drop_drop, ← h, List.append_assoc, List.drop_left' (by simp)]

/-- From each number on that a part has, the document holds the parts from that part on. -/
theorem exists_tail {id : Nat} (h : d.Holds first c) (hfirst : first ≤ id)
    (hid : id < first + c.size) : ∃ tail, tail ≠ Content.nil ∧ tail.Tail c ∧ d.Holds id tail ∧
      id + tail.size ≤ first + c.size := by
  induction c generalizing first with
  | nil => exact absurd hid (Nat.not_lt.2 hfirst)
  | text value next ih =>
    obtain rfl | hlt := Nat.eq_or_lt_of_le hfirst
    · exact ⟨_, by simp, .refl, h, Nat.le_refl _⟩
    · simp only [Content.size] at hid ⊢
      obtain ⟨tail, hne, htail, hholds, hle⟩ := ih h.text.2 hlt (by omega)
      exact ⟨tail, hne, .text htail, hholds, by omega⟩
  | echo elements next ih =>
    obtain rfl | hlt := Nat.eq_or_lt_of_le hfirst
    · exact ⟨_, by simp, .refl, h, Nat.le_refl _⟩
    · simp only [Content.size] at hid ⊢
      obtain ⟨tail, hne, htail, hholds, hle⟩ := ih h.echo.2 hlt (by omega)
      exact ⟨tail, hne, .echo htail, hholds, by omega⟩
  | loop head body next ihb ihn =>
    obtain ⟨-, hbody, hnext⟩ := h.loop
    obtain rfl | hlt := Nat.eq_or_lt_of_le hfirst
    · exact ⟨_, by simp, .refl, h, Nat.le_refl _⟩
    · simp only [Content.size] at hid ⊢
      by_cases hin : id < first + 1 + body.size
      · obtain ⟨tail, hne, htail, hholds, hle⟩ := ihb hbody hlt hin
        exact ⟨tail, hne, .body htail, hholds, by omega⟩
      · obtain ⟨tail, hne, htail, hholds, hle⟩ := ihn hnext (by omega) (by omega)
        exact ⟨tail, hne, .next htail, hholds, by omega⟩

end Document.Holds

end Template
