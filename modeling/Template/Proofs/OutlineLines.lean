import Mathlib.Data.Set.Card
import Template.Proofs.Outlines
import Template.Proofs.Quoting
import Template.Proofs.Traversal

/-! The lines of an outline and the nodes of its document. -/
namespace Template

open Outline

namespace Document

def ancestors (d : Document) (k : NodeNumber) : Set NodeNumber := {j | j ≠ k ∧ d.IsBelow j k}

/-- There is one line for each node, which says what the node is behind two spaces for each node
above it. -/
structure LinePerNode (d : Document) (lines : List (List Char)) : Prop where
  length : lines.length = d.size
  line : ∀ k node, d.node? k = some node → lines[k]? =
    some (List.replicate (2 * (d.ancestors k).ncard) ' ' ++ (heading node).toList)

end Document

def Element.lineEnds : Element → Nat
  | .string value => value.toList.count '\n'
  | .var _ | .int _ | .double _ | .function _ | .operator _ => 0

variable {d : Document} {c : Content} {first depth j k parent child : Nat} {es : List Element}

namespace Document.Numbered

variable (h : d.Numbered)
include h

theorem le_of_isBelow (hk : d.IsBelow j k) : j ≤ k := by
  induction hk with
  | refl => exact Nat.le_refl j
  | tail _ hchild ih => exact Nat.le_trans ih (Nat.le_of_lt (h.child _ _ hchild).1)

theorem parent_unique (hj : child ∈ d.childrenOf j) (hk : child ∈ d.childrenOf k) : j = k := by
  obtain ⟨hlt, hsize⟩ := h.child _ _ hj
  obtain ⟨parent, -, hother⟩ := h.parent child hsize (Nat.ne_of_gt (Nat.zero_lt_of_lt hlt))
  have hunique : ∀ other, child ∈ d.childrenOf other → other = parent := by
    intro other hmem
    by_contra hne
    exact hother other hne hmem
  rw [hunique j hj, hunique k hk]

theorem ancestors_root : d.ancestors rootNumber = ∅ := by
  ext j
  simp only [ancestors, Set.mem_ofPred_eq, Set.mem_empty_iff_false, iff_false, not_and]
  intro hne hbelow
  exact hne (Nat.le_zero.1 (h.le_of_isBelow hbelow))

theorem ancestors_child (hchild : child ∈ d.childrenOf parent) :
    d.ancestors child = insert parent (d.ancestors parent) := by
  have hlt := (h.child _ _ hchild).1
  ext j
  simp only [ancestors, Set.mem_ofPred_eq, Set.mem_insert_iff]
  constructor
  · rintro ⟨hne, hbelow⟩
    rcases hbelow.cases_tail with heq | ⟨k, hk, hchild'⟩
    · exact absurd heq.symm hne
    · obtain rfl := h.parent_unique hchild' hchild
      by_cases hj : j = k
      · exact .inl hj
      · exact .inr ⟨hj, hk⟩
  · rintro (rfl | ⟨-, hbelow⟩)
    · exact ⟨Nat.ne_of_lt hlt, .single hchild⟩
    · have hne := Nat.ne_of_lt (Nat.lt_of_le_of_lt (h.le_of_isBelow hbelow) hlt)
      exact ⟨hne, hbelow.tail hchild⟩

theorem ncard_ancestors_child (hchild : child ∈ d.childrenOf parent) :
    (d.ancestors child).ncard = (d.ancestors parent).ncard + 1 := by
  have hfinite : (d.ancestors parent).Finite := by
    refine (Set.finite_le_nat parent).subset ?_
    rintro j ⟨-, hbelow⟩
    exact h.le_of_isBelow hbelow
  rw [h.ancestors_child hchild, Set.ncard_insert_of_notMem (fun hmem => hmem.1 rfl) hfinite]

end Document.Numbered

noncomputable def Document.lineOf (d : Document) (numbered : Node × NodeNumber) : String :=
  line (d.ancestors numbered.2).ncard numbered.1

/-- Parts whose outermost are at a depth have the lines of their nodes, in order. -/
theorem lines_eq_map (h : d.Numbered) (hholds : d.Holds first c)
    (hdepth : ∀ id ∈ c.numbers first, (d.ancestors id).ncard = depth) :
    c.lines depth = ((c.nodes first).zipIdx first).map d.lineOf := by
  induction c generalizing first depth with
  | nil => rfl
  | text value next ih =>
    obtain ⟨hfirst, hnext⟩ := List.forall_mem_cons.1 hdepth
    rw [Content.lines, Content.nodes, List.zipIdx_cons, List.map_cons, ih hholds.text.2 hnext,
      Document.lineOf, hfirst]
  | echo elements next ih =>
    obtain ⟨hfirst, hnext⟩ := List.forall_mem_cons.1 hdepth
    rw [Content.lines, Content.nodes, List.zipIdx_cons, List.map_cons, ih hholds.echo.2 hnext,
      Document.lineOf, hfirst]
  | loop head body next ihb ihn =>
    obtain ⟨hfirst, hnext⟩ := List.forall_mem_cons.1 hdepth
    obtain ⟨hnode, hbody, hrest⟩ := hholds.loop
    have hinner : ∀ id ∈ body.numbers (first + 1), (d.ancestors id).ncard = depth + 1 := by
      intro id hid
      rw [← hfirst]
      apply h.ncard_ancestors_child
      rwa [Document.childrenOf_of_node? hnode]
    rw [Content.lines, Content.nodes, List.zipIdx_cons, List.map_cons, List.zipIdx_append,
      List.map_append, ihb hbody hinner, ihn hrest hnext, Document.lineOf, hfirst,
      Content.length_nodes]
    rfl

theorem outlineLines_eq_map (c : Content) :
    c.document.outlineLines = c.document.nodes.toList.zipIdx.map c.document.lineOf := by
  have h := Document.numbered_document c
  have hroot : (c.document.ancestors Document.rootNumber).ncard = 0 := by
    rw [h.ancestors_root, Set.ncard_empty]
  have hdepth : ∀ id ∈ c.numbers 1, (c.document.ancestors id).ncard = 1 := by
    intro id hid
    have hchild : id ∈ c.document.childrenOf Document.rootNumber := by
      rwa [Document.childrenOf_of_node? (Document.node?_root c)]
    rw [h.ncard_ancestors_child hchild, hroot]
  have hnodes : c.document.nodes.toList = .root (c.numbers 1).toArray :: c.nodes 1 := rfl
  have hfirst : c.document.lineOf (.root (c.numbers 1).toArray, Document.rootNumber) =
      "Document" := by
    rw [Document.lineOf, hroot]
    rfl
  rw [outlineLines_document, lines_eq_map h (Document.Holds.document c) hdepth, hnodes,
    List.zipIdx_cons, List.map_cons, ← Document.rootNumber, hfirst]
  rfl

theorem Name.count_text (name : Name) : name.text.toList.count '\n' = 0 := by
  obtain ⟨c, cs, hname, -, hall⟩ := Lexeme.exists_cons_of_name name
  rw [List.count_eq_zero, hname]
  intro hmem
  have hblank := isNameChar_eq_false_of_isBlank (c := '\n') rfl
  rw [hall _ hmem] at hblank
  cases hblank

/-- What a string literal adds to a string is no line end. -/
theorem Escape.count_stringBody (cs : List Char) :
    (stringBody cs).count '\n' = cs.count '\n' := by
  induction cs with
  | nil => rfl
  | cons c cs ih =>
    rw [stringBody, List.flatMap_cons, ← stringBody, List.count_append, ih]
    split <;> simp [List.count_cons, Nat.add_comm]

theorem Element.count_source (e : Element) : e.source.count '\n' = e.lineEnds := by
  cases e with
  | var name => exact name.count_text
  | string value => simp [source, Escape.encodeString_eq, Escape.count_stringBody, lineEnds]
  | int value =>
    rw [source, ← Numeral.raw_ofInt]
    exact Numeral.count_raw (Numeral.wellFormed_ofInt _)
  | double x => exact x.count_pointed
  | function name => simp [source, lineEnds, name.count_text]
  | operator op => cases op <;> rfl

theorem count_spacedSource (es : List Element) :
    (spacedSource es).count '\n' = (es.map Element.lineEnds).sum := by
  rw [spacedSource, List.count_flatMap]
  have hcount : List.count '\n' ∘ (fun e : Element => ' ' :: e.source) = Element.lineEnds := by
    funext e
    simp [Element.count_source]
  rw [hcount]

theorem count_heading (node : Node) :
    (heading node).toList.count '\n' = (node.elements.map Element.lineEnds).sum := by
  cases node with
  | root children => simp [heading, Node.elements]
  | text value =>
    have hquoted := Quoted.newline_notMem_enclose (.inl rfl) value.toList
    rw [toList_heading_text, List.count_append, List.count_eq_zero.2 hquoted]
    rfl
  | echo elements =>
    by_cases hnil : elements = []
    · subst hnil
      rfl
    · rw [toList_heading_echo hnil, List.count_append, count_spacedSource]
      exact Nat.zero_add _
  | loop head children =>
    change (heading (.loop head #[])).toList.count '\n' = _
    rw [toList_heading_loop, List.count_append, count_spacedSource, List.map_cons, List.sum_cons]
    simp [Element.lineEnds, Node.elements]

theorem count_lineOf (d : Document) (numbered : Node × NodeNumber) :
    (d.lineOf numbered).toList.count '\n' = (numbered.1.elements.map Element.lineEnds).sum := by
  have hspaces : ∀ n, (List.replicate n ' ').count '\n' = 0 := by
    intro n
    simp [List.count_replicate]
  rw [Document.lineOf, line, indent, String.toList_append, String.toList_ofList,
    List.count_append, hspaces, count_heading, Nat.zero_add]

theorem length_splitOn (x : Char) (cs : List Char) : (cs.splitOn x).length = cs.count x + 1 := by
  induction cs with
  | nil => rfl
  | cons c cs ih =>
    rw [List.splitOn_cons_eq_if_modifyHead, List.count_cons]
    split <;> simp [ih]

theorem toList_outline (d : Document) :
    d.outline.toList = ['\n'].intercalate (d.outlineLines.map String.toList) :=
  String.toList_intercalate

/-- There is one line end fewer than lines, apart from those within the lines. -/
theorem count_intercalate (x : Char) (l : List Char) (ls : List (List Char)) :
    ([x].intercalate (l :: ls)).count x + 1 =
      (l :: ls).length + ((l :: ls).map (List.count x)).sum := by
  have hrest : (ls.flatMap (x :: ·)).count x = ls.length + (ls.map (List.count x)).sum := by
    simp [List.count_flatMap, Function.comp_def, List.sum_map_add, Nat.add_comm]
  rw [intercalate_cons, List.count_append, hrest, List.length_cons, List.map_cons, List.sum_cons]
  omega

theorem sum_count_outlineLines (c : Content) :
    ((c.document.outlineLines.map String.toList).map (List.count '\n')).sum =
      (c.document.elements.map Element.lineEnds).sum := by
  have hlines : (c.document.outlineLines.map String.toList).map (List.count '\n') =
      c.document.nodes.toList.map fun node => (node.elements.map Element.lineEnds).sum := by
    rw [outlineLines_eq_map, List.map_map, List.map_map]
    conv_rhs => rw [← List.zipIdx_map_fst 0 c.document.nodes.toList, List.map_map]
    exact List.map_congr_left fun numbered _ => count_lineOf c.document numbered
  rw [hlines, Document.elements]
  simp [List.flatMap, List.sum_flatten, Function.comp_def]

/-- Text is split into one line for each node and one for each line end in an element. -/
theorem length_splitOn_outline (c : Content) : (c.document.outline.toList.splitOn '\n').length =
    c.document.size + (c.document.elements.map Element.lineEnds).sum := by
  have hlength : c.document.outlineLines.length = c.document.size := by
    simp [outlineLines_eq_map, Document.size]
  rw [length_splitOn, ← sum_count_outlineLines, ← hlength, toList_outline, outlineLines_document,
    List.map_cons, count_intercalate]
  simp

theorem linePerNode_document (c : Content) :
    c.document.LinePerNode (c.document.outlineLines.map String.toList) := by
  rw [outlineLines_eq_map]
  refine ⟨by simp [Document.size], fun k node hnode => ?_⟩
  have hget : c.document.nodes.toList.zipIdx[k]? = some (node, k) := by
    have : c.document.nodes[k]? = some node := hnode
    simp [List.getElem?_zipIdx, this]
  simp [hget, Document.lineOf, line, indent]

theorem splitOn_outline (h : (c.document.elements.map Element.lineEnds).sum = 0) :
    c.document.outline.toList.splitOn '\n' = c.document.outlineLines.map String.toList := by
  rw [← sum_count_outlineLines, List.sum_eq_zero_iff_forall_eq_nat, List.forall_mem_map] at h
  rw [toList_outline]
  refine List.splitOn_intercalate '\n' ?_ (by simp [outlineLines_document])
  intro l hl
  exact List.count_eq_zero.1 (h l hl)

theorem sum_lineEnds_eq_zero_iff : (es.map Element.lineEnds).sum = 0 ↔
    ∀ value, .string value ∈ es → '\n' ∉ value.toList := by
  rw [List.sum_eq_zero_iff_forall_eq_nat, List.forall_mem_map]
  constructor
  · intro h value hvalue
    exact List.count_eq_zero.1 (h _ hvalue)
  · intro h e he
    cases e with
    | string value => exact List.count_eq_zero.2 (h value he)
    | _ => rfl

/-- The walk of a parsed document adds a line for each node, indented by the nodes above it. The
text is split into more lines than that if strings in tags hold line ends, and into just these if
none does. -/
theorem linePerNode_outline {source : String} {d : Document} (h : Document.parse source = .ok d) :
    d.LinePerNode (d.outlineLines.map String.toList) ∧
    (d.outline.toList.splitOn '\n').length = d.size + (d.elements.map Element.lineEnds).sum ∧
    (d.LinePerNode (d.outline.toList.splitOn '\n') ↔
      ∀ value, .string value ∈ d.elements → '\n' ∉ value.toList) := by
  obtain ⟨c, -, rfl, -⟩ := exists_content_of_parse h
  have hlength := length_splitOn_outline c
  refine ⟨linePerNode_document c, hlength, ?_⟩
  rw [← sum_lineEnds_eq_zero_iff]
  constructor
  · intro hlines
    rw [hlines.length] at hlength
    omega
  · intro hends
    rw [splitOn_outline hends]
    exact linePerNode_document c

/-- A loop with a text of two lines in it. -/
theorem linePerNode_outline_loop :
    ∃ d, Document.parse "\x7b$FOR i 1 \"a\" $\x7d\n\n\x7b$END$\x7d" = .ok d ∧
      d.LinePerNode (d.outline.toList.splitOn '\n') := by
  have hparse : Document.parse "\x7b$FOR i 1 \"a\" $\x7d\n\n\x7b$END$\x7d" = .ok ⟨#[.root #[1],
      .loop ⟨⟨"i", by decide⟩, .int 1, .string "a", none⟩ #[2], .text "\n\n"]⟩ := by
    decide +kernel
  refine ⟨_, hparse, (linePerNode_outline hparse).2.2.2 ?_⟩
  exact sum_lineEnds_eq_zero_iff.1 (by decide)

/-- A string of two lines is written on two lines. -/
theorem not_linePerNode_outline_string :
    ∃ d, Document.parse "\x7b$= \"a\\nb\" $\x7d" = .ok d ∧ d.size = 2 ∧
      (d.outline.toList.splitOn '\n').length = 3 ∧
      ¬ d.LinePerNode (d.outline.toList.splitOn '\n') := by
  have hparse : Document.parse "\x7b$= \"a\\nb\" $\x7d" =
      .ok (Content.echo [.string "a\nb"] .nil).document := by
    decide +kernel
  have hlength := length_splitOn_outline (.echo [.string "a\nb"] .nil)
  refine ⟨_, hparse, rfl, hlength, fun hlines => ?_⟩
  rw [hlines.length] at hlength
  cases hlength

end Template
