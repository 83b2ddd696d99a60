import Template.Proofs.Printing

/-! What a builder makes of a canonical source. -/
namespace Template

open Token

variable {p place : Position} {es : List Element} {e : Element} {c : Content} {head : Loop}
  {ts : List Token} {loops : OpenLoops} {before : Content}

/-- The elements whose texts stand from a place on, each behind a space, with their places. -/
def placesFrom (p : Position) : List Element → List (Element × Position)
  | [] => []
  | e :: es => (e, p.step ' ') :: placesFrom ((p.step ' ').after e.source) es

def Loop.operandPlaces (head : Loop) (p : Position) : List (Element × Position) :=
  placesFrom (p.after (counterSource head)) head.operands

/-- The loop with each operand as its text is read. -/
def Loop.reread (head : Loop) : Loop where
  counter := head.counter
  start := head.start.asWord
  stop := head.stop.asWord
  step := head.step.map Element.asWord

namespace Content

/-- The operands of the loops in order, with their places when the source stands at a place. -/
def operandPlaces (p : Position) : Content → List (Element × Position)
  | nil => []
  | text value next => next.operandPlaces (p.after (Escape.encodeText value.toList))
  | echo elements next => next.operandPlaces (p.after (Source.echo elements))
  | loop head body next =>
    head.operandPlaces p ++ (body.operandPlaces (p.after (Source.loop head)) ++
      next.operandPlaces (p.after (Source.loop head ++ body.source ++ Source.endLoop)))

/-- The parts with each element as its text is read, if that is no negative infinity in a loop. -/
def reread : Content → Content
  | nil => nil
  | text value next => text value next.reread
  | echo elements next => echo (elements.flatMap Element.reread) next.reread
  | loop head body next => loop head.reread body.reread next.reread

end Content

theorem Element.isInfinite_of_isNegativeInfinity (h : e.isNegativeInfinity) : e.isInfinite := by
  cases e with
  | double x =>
    simp only [isNegativeInfinity, Bool.and_eq_true] at h
    exact h.1
  | _ => cases h

theorem Element.isInfinite_asWord (e : Element) : e.asWord.isInfinite = false := by
  unfold asWord
  split
  · rfl
  · next h => exact Bool.eq_false_iff.2 h

theorem Element.asWord_eq_self (h : e.isInfinite = false) : e.asWord = e := by
  rw [asWord, if_neg (by simp [h])]

theorem Element.isInfinite_of_mem_reread {e' : Element} (h : e' ∈ e.reread) :
    e'.isInfinite = false := by
  unfold reread at h
  split at h
  · rcases h with _ | ⟨_, _ | ⟨_, ⟨⟩⟩⟩ <;> rfl
  · rw [List.mem_singleton.1 h]
    exact isInfinite_asWord e

theorem Element.isNegativeInfinity_eq_false (h : e.isInfinite = false) :
    e.isNegativeInfinity = false := by
  rw [Bool.eq_false_iff]
  intro hnegative
  exact Bool.false_ne_true (h.symm.trans (isInfinite_of_isNegativeInfinity hnegative))

theorem map_asWord (h : ∀ e ∈ es, e.isInfinite = false) : es.map Element.asWord = es :=
  (List.map_congr_left fun e he => Element.asWord_eq_self (h e he)).trans (List.map_id' es)

theorem Loop.reread_eq_self (h : ∀ e ∈ head.operands, e.isInfinite = false) :
    head.reread = head := by
  have hoperands := map_asWord h
  obtain ⟨counter, start, stop, step⟩ := head
  cases step <;> simp_all [reread, operands]

theorem map_fst_elementMarks (p : Position) (es : List Element) :
    (elementMarks p es).map Prod.fst = (es.flatMap Element.reread).map Element.kind := by
  induction es generalizing p with
  | nil => rfl
  | cons e es ih =>
    simp only [elementMarks, List.map_append, Element.map_fst_marks, ih, List.flatMap_cons]

theorem map_fst_echoMarks (p : Position) (es : List Element) :
    (echoMarks p es).map Prod.fst = echoKinds (es.flatMap Element.reread) := by
  simp [echoMarks, tagMarks, echoKinds, tagKinds, map_fst_elementMarks]

theorem map_fst_loopMarks (p : Position) (head : Loop) : (loopMarks p head).map Prod.fst =
    tagKinds (.keyword .loop :: .identifier head.counter.text ::
      (head.operands.flatMap Element.reread).map Element.kind) := by
  simp [loopMarks, tagMarks, tagKinds, map_fst_elementMarks]

theorem map_fst_endMarks (p : Position) : (endMarks p).map Prod.fst = endKinds := rfl

theorem flatMap_reread (h : ∀ e ∈ es, e.isNegativeInfinity = false) :
    es.flatMap Element.reread = es.map Element.asWord := by
  induction es with
  | nil => rfl
  | cons e es ih =>
    obtain ⟨he, hes⟩ := List.forall_mem_cons.1 h
    have hword : e.reread = [e.asWord] := by
      rw [Element.reread, if_neg (by simp [he])]
    rw [List.flatMap_cons, hword, ih hes]
    rfl

theorem Loop.operands_reread (head : Loop) :
    head.reread.operands = head.operands.map Element.asWord := by
  obtain ⟨counter, start, stop, step⟩ := head
  cases step <;> rfl

theorem Loop.map_fst_marks (h : ∀ e ∈ head.operands, e.isNegativeInfinity = false)
    (p : Position) : (loopMarks p head).map Prod.fst = head.reread.kinds := by
  rw [map_fst_loopMarks, flatMap_reread h, ← Loop.operands_reread]
  rfl

theorem Element.isLoopOperand_asWord (h : e.isLoopOperand) : e.asWord.isLoopOperand := by
  unfold asWord
  split
  · rfl
  · exact h

theorem Loop.wellFormed_reread (h : head.WellFormed) : head.reread.WellFormed := by
  intro e he
  rw [Loop.operands_reread] at he
  obtain ⟨e', he', rfl⟩ := List.mem_map.1 he
  exact Element.isLoopOperand_asWord (h e' he')

namespace Content

theorem map_fst_marks (h : ∀ e ∈ c.operands, e.isNegativeInfinity = false) (p : Position) :
    (c.marks p).map Prod.fst = c.reread.kinds := by
  induction c generalizing p with
  | nil => rfl
  | text value next ih => simp [marks, reread, kinds, ih h]
  | echo elements next ih => simp [marks, reread, kinds, map_fst_echoMarks, ih h]
  | loop head body next ihb ihn =>
    simp only [operands, List.forall_mem_append] at h
    obtain ⟨hhead, hbody, hnext⟩ := h
    simp only [marks, reread, kinds, List.map_append, map_fst_endMarks,
      Loop.map_fst_marks hhead, ihb hbody, ihn hnext, List.append_assoc]

theorem isInfinite_of_mem_reread (h : e ∈ c.reread.elements) : e.isInfinite = false := by
  induction c with
  | nil => cases h
  | text value next ih => exact ih h
  | echo elements next ih =>
    rcases List.mem_append.1 h with h | h
    · obtain ⟨e', -, h⟩ := List.mem_flatMap.1 h
      exact Element.isInfinite_of_mem_reread h
    · exact ih h
  | loop head body next ihb ihn =>
    simp only [reread, elements, Loop.operands_reread, List.mem_append, List.mem_map] at h
    rcases h with ⟨e', -, rfl⟩ | h | h
    · exact Element.isInfinite_asWord e'
    · exact ihb h
    · exact ihn h

theorem mem_elements_of_mem_operands (h : e ∈ c.operands) : e ∈ c.elements := by
  induction c with
  | nil => cases h
  | text value next ih => exact ih h
  | echo elements next ih => exact List.mem_append_right _ (ih h)
  | loop head body next ihb ihn =>
    simp only [operands, elements, List.mem_append] at h ⊢
    exact h.imp_right (.imp ihb ihn)

theorem reread_eq_self (h : ∀ e ∈ c.elements, e.isInfinite = false) : c.reread = c := by
  induction c with
  | nil => rfl
  | text value next ih => rw [reread, ih h]
  | echo elements next ih =>
    obtain ⟨helements, hnext⟩ := List.forall_mem_append.1 h
    have hnegative : ∀ e ∈ elements, e.isNegativeInfinity = false := by
      intro e he
      exact Element.isNegativeInfinity_eq_false (helements e he)
    rw [reread, flatMap_reread hnegative, map_asWord helements, ih hnext]
  | loop head body next ihb ihn =>
    simp only [Content.elements, List.forall_mem_append] at h
    obtain ⟨hhead, hbody, hnext⟩ := h
    rw [reread, Loop.reread_eq_self hhead, ihb hbody, ihn hnext]

theorem wellFormed_reread (h : c.WellFormed) : c.reread.WellFormed := by
  induction c with
  | nil => trivial
  | text value next ih => exact ih h
  | echo elements next ih =>
    refine ⟨?_, ih h.2⟩
    obtain ⟨e, es, rfl⟩ := List.exists_cons_of_ne_nil h.1
    rw [List.flatMap_cons, Element.reread]
    split <;> simp
  | loop head body next ihb ihn =>
    exact ⟨Loop.wellFormed_reread h.1, ihb h.2.1, ihn h.2.2⟩

end Content

theorem ofSource_ofList (cs : List Char) :
    Reader.ofSource (String.ofList cs) = Spot.reader ⟨.text, false, {}, cs⟩ none := by
  rw [Reader.ofSource, String.toList_ofList]
  rfl

theorem feedFrom_end (c : Content) (p : Position) (last : Option Token) :
    (Builder.inside [] c .between).feedFrom (Spot.reader ⟨.text, false, p, []⟩ last) =
      .ok c.document := by
  rw [Builder.feedFrom_of_token (t := ⟨.eof, p, p.offset⟩) rfl]
  rfl

/-- Characters that give the tokens of a tree parse to its document. -/
theorem parse_of_gives {cs : List Char} {marks : List Mark} {q : Position} (hc : c.WellFormed)
    (h : Spot.Gives ⟨.text, false, {}, cs⟩ marks ⟨.text, false, q, []⟩)
    (hkinds : marks.map Prod.fst = c.kinds) :
    Document.parse (String.ofList cs) = .ok c.document := by
  obtain ⟨ts, last, hreads, hmarks⟩ := h none
  have hts : ts.map Token.kind = c.kinds := (map_kind_of_marks hmarks).trans hkinds
  rw [Document.parse, ofSource_ofList, Builder.feedFrom_of_reads hreads, Builder.initial_eq,
    Builder.feedAll_content [] .nil hc hts]
  exact feedFrom_end ..

/-- The canonical source of a spaced tree gives the tokens of the tree. -/
theorem gives_source (hspaced : c.Spaced) (hnumbers : ∀ e ∈ c.elements, e.isNaN = false) :
    Spot.Gives ⟨.text, false, {}, c.source⟩ (c.marks {})
      ⟨.text, false, Position.after {} c.source, []⟩ := by
  have h := Spot.gives_content hspaced hnumbers {} [] (.inl rfl)
  rwa [List.append_nil] at h

/-- A spaced tree without doubles that are no numbers, as it is read again. -/
theorem parse_source (hc : c.WellFormed) (hspaced : c.Spaced)
    (hnumbers : ∀ e ∈ c.elements, e.isNaN = false)
    (hoperands : ∀ e ∈ c.operands, e.isNegativeInfinity = false) :
    Document.parse c.document.source = .ok c.reread.document := by
  rw [source_document]
  exact parse_of_gives (Content.wellFormed_reread hc) (gives_source hspaced hnumbers)
    (Content.map_fst_marks hoperands {})

theorem map_fst_placesFrom (p : Position) (es : List Element) :
    (placesFrom p es).map Prod.fst = es := by
  induction es generalizing p with
  | nil => rfl
  | cons e es ih => rw [placesFrom, List.map_cons, ih]

theorem Content.map_fst_operandPlaces (c : Content) (p : Position) :
    (c.operandPlaces p).map Prod.fst = c.operands := by
  induction c generalizing p with
  | nil => rfl
  | text value next ih => exact ih _
  | echo elements next ih => exact ih _
  | loop head body next ihb ihn =>
    simp only [operandPlaces, operands, List.map_append, ihb, ihn, Loop.operandPlaces,
      map_fst_placesFrom]

theorem find?_places_eq_none {places : List (Element × Position)} {f : Element → Bool}
    (h : places.find? (f ·.1) = none) : ∀ e ∈ places.map Prod.fst, f e = false := by
  intro e he
  obtain ⟨found, hfound, rfl⟩ := List.mem_map.1 he
  simpa using List.find?_eq_none.1 h found hfound

/-- The first operand that a loop may not have is the sign of the first negative infinity. -/
theorem find?_placed_reread (hes : ∀ e ∈ es, e.isLoopOperand)
    (hts : ts.map Token.mark = elementMarks p es)
    (hfind : (placesFrom p es).find? (·.1.isNegativeInfinity) = some (e, place)) :
    (Builder.placed (es.flatMap Element.reread) ts).find? (!·.1.isLoopOperand) =
      some (.operator .sub, place) := by
  induction es generalizing p ts with
  | nil => cases hfind
  | cons d es ih =>
    rw [elementMarks, Element.marks] at hts
    rw [placesFrom, List.find?_cons] at hfind
    rw [List.flatMap_cons, Element.reread]
    cases hd : d.isNegativeInfinity with
    | true =>
      rw [hd, if_pos rfl] at hts
      rw [hd] at hfind
      obtain ⟨t, us, rfl, ht, -⟩ := List.map_eq_cons_iff.1 hts
      cases hfind
      have hplace : t.span.start = p.step ' ' := congrArg Prod.snd ht
      simp [Builder.placed, Element.isLoopOperand, hplace]
    | false =>
      rw [hd, if_neg Bool.false_ne_true] at hts
      rw [hd] at hfind
      obtain ⟨t, us, rfl, ht, hus⟩ := List.map_eq_cons_iff.1 hts
      obtain ⟨hoperand, hes⟩ := List.forall_mem_cons.1 hes
      have hrest := ih hes hus hfind
      have hoperand := Element.isLoopOperand_asWord hoperand
      simpa [Builder.placed, hoperand] using hrest

/-- The tag of a loop with a negative infinity is refused at that place. -/
theorem Builder.feedAll_loopMarks (hhead : head.WellFormed)
    (hts : ts.map Token.mark = loopMarks p head)
    (hfind : (head.operandPlaces p).find? (·.1.isNegativeInfinity) = some (e, place)) :
    (inside loops before .between).feedAll ts =
      .error ⟨.badOperand (.operator .sub), place⟩ := by
  have hkinds : ts.map Token.kind = tagKinds (.keyword .loop :: .identifier head.counter.text ::
      (head.operands.flatMap Element.reread).map Element.kind) :=
    (map_kind_of_marks hts).trans (map_fst_loopMarks p head)
  obtain ⟨front, us, back, mark, rfl, hlength, hus, hfeed⟩ :=
    feedAll_loopTag loops before hkinds
  have hmarks : us.map Token.mark = elementMarks (p.after (counterSource head)) head.operands := by
    have hcount := congrArg List.length hus
    rw [← map_fst_elementMarks (p.after (counterSource head))] at hcount
    simp only [List.length_map] at hcount
    obtain ⟨front', back', hsplit, hlength'⟩ : ∃ front' back', loopMarks p head =
        front' ++ (elementMarks (p.after (counterSource head)) head.operands ++ back') ∧
          front'.length = 4 :=
      ⟨[_, _, _, _], [_, _], rfl, rfl⟩
    rw [hsplit, List.append_assoc, List.map_append, List.map_append] at hts
    obtain ⟨-, hbehind⟩ := List.append_inj hts (by simp [hlength, hlength'])
    exact (List.append_inj hbehind (by simp [hcount])).1
  rw [hfeed, Loop.ofElements, find?_placed_reread hhead hmarks hfind]
  rfl

/-- A builder that gets the tokens of the parts stops at the first negative infinity in a loop. -/
theorem Builder.feedAll_marks (hc : c.WellFormed) (hts : ts.map Token.mark = c.marks p)
    (hfind : (c.operandPlaces p).find? (·.1.isNegativeInfinity) = some (e, place)) :
    (inside loops before .between).feedAll ts =
      .error ⟨.badOperand (.operator .sub), place⟩ := by
  induction c generalizing p ts loops before with
  | nil => cases hfind
  | text value next ih =>
    obtain ⟨t, us, rfl, ht, hus⟩ := List.map_eq_cons_iff.1 hts
    have hkind : [t].map Token.kind = (Content.text value .nil).kinds :=
      congrArg (fun mark : Mark => [mark.1]) ht
    rw [← List.singleton_append, feedAll_append
      (feedAll_content loops before (d := .text value .nil) trivial hkind)]
    exact ih hc hus hfind
  | echo elements next ih =>
    obtain ⟨us, vs, rfl, hus, hvs⟩ := List.map_eq_append_iff.1 hts
    have hkinds := (map_kind_of_marks hus).trans (map_fst_echoMarks p elements)
    have hne := (Content.wellFormed_reread (c := .echo elements .nil) ⟨hc.1, trivial⟩).1
    rw [feedAll_append (feedAll_echo hne hkinds)]
    exact ih hc.2 hvs hfind
  | loop head body next ihb ihn =>
    obtain ⟨ts₁, us, rfl, h₁, hus⟩ := List.map_eq_append_iff.1 hts
    obtain ⟨ts₂, us, rfl, h₂, hus⟩ := List.map_eq_append_iff.1 hus
    obtain ⟨ts₃, ts₄, rfl, h₃, h₄⟩ := List.map_eq_append_iff.1 hus
    rw [Content.operandPlaces, List.find?_append, List.find?_append] at hfind
    cases hhead : (head.operandPlaces p).find? (·.1.isNegativeInfinity) with
    | some found =>
      rw [hhead] at hfind
      cases hfind
      exact feedAll_append_error (feedAll_loopMarks hc.1 h₁ hhead)
    | none =>
      have hfinite := find?_places_eq_none hhead
      rw [Loop.operandPlaces, map_fst_placesFrom] at hfinite
      have hkinds₁ := (map_kind_of_marks h₁).trans (Loop.map_fst_marks hfinite p)
      rw [hhead, Option.none_or] at hfind
      rw [feedAll_append (feedAll_loop (Loop.wellFormed_reread hc.1) hkinds₁)]
      cases hbody : (body.operandPlaces (p.after (Source.loop head))).find?
          (·.1.isNegativeInfinity) with
      | some found =>
        rw [hbody] at hfind
        cases hfind
        exact feedAll_append_error (ihb hc.2.1 h₂ hbody)
      | none =>
        have hfinite' := find?_places_eq_none hbody
        rw [Content.map_fst_operandPlaces] at hfinite'
        have hkinds₂ := (map_kind_of_marks h₂).trans (Content.map_fst_marks hfinite' _)
        have hkinds₃ := (map_kind_of_marks h₃).trans (map_fst_endMarks _)
        rw [hbody, Option.none_or] at hfind
        rw [feedAll_append (feedAll_content _ _ (Content.wellFormed_reread hc.2.1) hkinds₂),
          feedAll_append (feedAll_end hkinds₃)]
        exact ihn hc.2.2 h₄ hfind

/-- The source of a spaced tree with a negative infinity in a loop does not parse. -/
theorem parse_source_of_find? (hc : c.WellFormed) (hspaced : c.Spaced)
    (hnumbers : ∀ e ∈ c.elements, e.isNaN = false)
    (hfind : (c.operandPlaces {}).find? (·.1.isNegativeInfinity) = some (e, place)) :
    Document.parse c.document.source = .error ⟨.badOperand (.operator .sub), place⟩ := by
  obtain ⟨ts, last, hreads, hmarks⟩ := gives_source hspaced hnumbers none
  rw [source_document, Document.parse, ofSource_ofList, Builder.feedFrom_of_reads hreads,
    Builder.initial_eq, Builder.feedAll_marks hc hmarks hfind]

end Template
