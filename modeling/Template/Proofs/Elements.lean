import Template.Proofs.Content

/-! The elements of a document, and what equality of documents asks of them. -/
namespace Template

namespace Element

def isInfinite : Element → Bool
  | .double x => x.isInfinite
  | _ => false

def isNaN : Element → Bool
  | .double x => x.isNaN
  | _ => false

def isNegativeInfinity : Element → Bool
  | .double x => x.isInfinite && x.negative
  | _ => false

def isNegativeZero : Element → Bool
  | .double x => x.negative && x.magnitude == 0
  | _ => false

theorem isFinite_double_iff {x : Double} :
    x.isFinite ↔ (double x).isInfinite = false ∧ (double x).isNaN = false := by
  simp only [isInfinite, isNaN, Double.isFinite, Double.isInfinite, Double.isNaN,
    decide_eq_true_eq, decide_eq_false_iff_not]
  omega

end Element

namespace Node

/-- The elements that the node shows; those of a loop are its bounds and its step. -/
def elements : Node → List Element
  | .root _ | .text _ => []
  | .echo elements => elements
  | .loop head _ => head.operands

/-- The bounds and the step of a loop. -/
def operands : Node → List Element
  | .root _ | .text _ | .echo _ => []
  | .loop head _ => head.operands

end Node

namespace Document

variable (d : Document)

def elements : List Element := d.nodes.toList.flatMap Node.elements

def operands : List Element := d.nodes.toList.flatMap Node.operands

end Document

namespace Content

/-- All elements of the parts, those of loops being their bounds and steps. -/
def elements : Content → List Element
  | nil => []
  | text _ next => next.elements
  | echo elements next => elements ++ next.elements
  | loop head body next => head.operands ++ (body.elements ++ next.elements)

def operands : Content → List Element
  | nil => []
  | text _ next | echo _ next => next.operands
  | loop head body next => head.operands ++ (body.operands ++ next.operands)

theorem flatMap_elements_nodes (c : Content) (first : Nat) :
    (c.nodes first).flatMap Node.elements = c.elements := by
  induction c generalizing first with
  | nil => rfl
  | text value next ih => exact ih _
  | echo elements next ih =>
    rw [nodes, List.flatMap_cons, ih]
    rfl
  | loop head body next ihb ihn =>
    rw [nodes, List.flatMap_cons, List.flatMap_append, ihb, ihn]
    rfl

theorem flatMap_operands_nodes (c : Content) (first : Nat) :
    (c.nodes first).flatMap Node.operands = c.operands := by
  induction c generalizing first with
  | nil => rfl
  | text value next ih => exact ih _
  | echo elements next ih => exact ih _
  | loop head body next ihb ihn =>
    rw [nodes, List.flatMap_cons, List.flatMap_append, ihb, ihn]
    rfl

theorem elements_document (c : Content) : c.document.elements = c.elements :=
  flatMap_elements_nodes c 1

theorem operands_document (c : Content) : c.document.operands = c.operands :=
  flatMap_operands_nodes c 1

end Content

section Lists

variable {α : Type} {f : α → α → Bool} {as bs : List α} {b : α}

theorem isEqv_self (h : ∀ a ∈ as, f a a) : as.isEqv as f := by
  induction as with
  | nil => rfl
  | cons a as ih =>
    obtain ⟨ha, has⟩ := List.forall_mem_cons.1 h
    rw [List.isEqv, ha, ih has]
    rfl

theorem exists_of_isEqv (h : as.isEqv bs f) (hb : b ∈ bs) : ∃ a ∈ as, f a b := by
  induction as generalizing bs with
  | nil =>
    cases bs with
    | nil => cases hb
    | cons => cases h
  | cons a as ih =>
    cases bs with
    | nil => cases hb
    | cons c cs =>
      rw [List.isEqv, Bool.and_eq_true] at h
      rcases List.mem_cons.1 hb with rfl | hb
      · exact ⟨a, List.mem_cons_self, h.1⟩
      · obtain ⟨a', ha', hab⟩ := ih h.2 hb
        exact ⟨a', List.mem_cons_of_mem _ ha', hab⟩

theorem eq_of_isEqv (hf : ∀ a ∈ as, ∀ b ∈ bs, f a b → a = b) (h : as.isEqv bs f) : as = bs := by
  induction as generalizing bs with
  | nil =>
    cases bs with
    | nil => rfl
    | cons => cases h
  | cons a as ih =>
    cases bs with
    | nil => cases h
    | cons b bs =>
      rw [List.isEqv, Bool.and_eq_true] at h
      have hrest : as = bs := by
        refine ih (fun a ha b hb => ?_) h.2
        exact hf a (List.mem_cons_of_mem _ ha) b (List.mem_cons_of_mem _ hb)
      rw [hf a List.mem_cons_self b List.mem_cons_self h.1, hrest]

end Lists

variable {e e' : Element} {node node' : Node} {d d' : Document}

theorem Element.sameValue_self (h : e.isNaN = false) : e.sameValue e := by
  cases e with
  | double x =>
    have hx : x.isNaN = false := h
    simp [sameValue, Double.sameNumber, hx]
  | _ => simp [sameValue]

theorem Element.isInfinite_of_sameValue (h : e.sameValue e') : e.isInfinite = e'.isInfinite := by
  unfold sameValue at h
  split at h
  · next x y =>
    simp only [Double.sameNumber, Bool.and_eq_true, Bool.or_eq_true, beq_iff_eq] at h
    rcases h.2 with rfl | ⟨hx, hy⟩
    · rfl
    · simp [isInfinite, Double.isInfinite, hx, hy]
  · next =>
    rw [eq_of_beq h]

theorem Node.sameValue_self (h : ∀ e ∈ node.elements, e.isNaN = false) :
    node.sameValue node := by
  have hself : sameValues node.elements node.elements := by
    apply isEqv_self
    intro e he
    exact Element.sameValue_self (h e he)
  cases node with
  | root children => simp [sameValue]
  | text value => simp [sameValue]
  | echo elements => exact hself
  | loop head children =>
    have hself : sameValues head.operands head.operands := hself
    simp [sameValue, hself]

theorem Node.sameValues_elements (h : node.sameValue node') :
    sameValues node.elements node'.elements := by
  cases node <;> cases node' <;> simp_all [sameValue, elements, sameValues]

theorem Document.sameValue_self (h : ∀ e ∈ d.elements, e.isNaN = false) : d.sameValue d := by
  apply isEqv_self
  intro node hnode
  apply Node.sameValue_self
  intro e he
  exact h e (List.mem_flatMap.2 ⟨node, hnode, he⟩)

/-- Each element of a document has an equal one in an equal document. -/
theorem Document.exists_of_sameValue (h : d.sameValue d') (he : e' ∈ d'.elements) :
    ∃ e ∈ d.elements, e.sameValue e' := by
  obtain ⟨node', hnode', he'⟩ := List.mem_flatMap.1 he
  obtain ⟨node, hnode, hsame⟩ := exists_of_isEqv h hnode'
  obtain ⟨e, he, hee'⟩ := exists_of_isEqv (Node.sameValues_elements hsame) he'
  exact ⟨e, List.mem_flatMap.2 ⟨node, hnode, he⟩, hee'⟩

/-- Numbers that are equal have the same bits, except for the zeros. -/
theorem Element.eq_of_sameValue (he : e.isNegativeZero = false) (he' : e'.isNegativeZero = false)
    (h : e.sameValue e') : e = e' := by
  unfold sameValue at h
  split at h
  · next x y =>
    simp only [Double.sameNumber, Bool.and_eq_true, Bool.or_eq_true, beq_iff_eq] at h
    rcases h.2 with rfl | ⟨hx, hy⟩
    · rfl
    · have hpositive : x.negative = false ∧ y.negative = false := by
        simpa [isNegativeZero, hx, hy] using And.intro he he'
      rw [← Double.ofMagnitude_eta x, ← Double.ofMagnitude_eta y, hx, hy, hpositive.1, hpositive.2]
  · exact eq_of_beq h

theorem Loop.eq_of_operands_eq {head head' : Loop} (hcounter : head.counter = head'.counter)
    (hoperands : head.operands = head'.operands) : head = head' := by
  obtain ⟨counter, start, stop, step⟩ := head
  obtain ⟨counter', start', stop', step'⟩ := head'
  cases step <;> cases step' <;> simp_all [operands]

theorem Node.eq_of_sameValue (hnode : ∀ e ∈ node.elements, e.isNegativeZero = false)
    (hnode' : ∀ e ∈ node'.elements, e.isNegativeZero = false) (h : node.sameValue node') :
    node = node' := by
  have helements : node.elements = node'.elements := by
    refine eq_of_isEqv (fun a ha b hb => ?_) (Node.sameValues_elements h)
    exact Element.eq_of_sameValue (hnode a ha) (hnode' b hb)
  cases node with
  | root children =>
    cases node' with
    | root => simpa [sameValue] using h
    | _ => cases h
  | text value =>
    cases node' with
    | text => simpa [sameValue] using h
    | _ => cases h
  | echo as =>
    cases node' with
    | echo => exact congrArg Node.echo helements
    | _ => cases h
  | loop head children =>
    cases node' with
    | loop head' children' =>
      simp only [sameValue, Bool.and_eq_true, beq_iff_eq] at h
      obtain ⟨⟨hcounter, -⟩, rfl⟩ := h
      rw [Loop.eq_of_operands_eq hcounter helements]
    | _ => cases h

theorem Document.eq_of_sameValue (hd : ∀ e ∈ d.elements, e.isNegativeZero = false)
    (hd' : ∀ e ∈ d'.elements, e.isNegativeZero = false) (h : d.sameValue d') : d = d' := by
  have hnodes : d.nodes.toList = d'.nodes.toList := by
    refine eq_of_isEqv (fun node hnode node' hnode' hsame => ?_) h
    refine Node.eq_of_sameValue (fun e he => ?_) (fun e he => ?_) hsame
    · exact hd e (List.mem_flatMap.2 ⟨node, hnode, he⟩)
    · exact hd' e (List.mem_flatMap.2 ⟨node', hnode', he⟩)
  exact congrArg Document.mk (Array.toList_inj.1 hnodes)

end Template
