import Template.Proofs.RoundTrip

/-! Formatting comes to an end after one step or after two. -/
namespace Template

/-- The source is the canonical one of the document that it parses to. -/
def IsStable (source : String) : Prop := ∃ d, Document.parse source = .ok d ∧ d.source = source

variable {e : Element} {es : List Element} {head : Loop} {c : Content}

/-- An infinity that is not negative is written as the word that it is read as. -/
theorem Element.source_asWord (h : e.isNegativeInfinity = false) : e.asWord.source = e.source := by
  by_cases hinfinite : e.isInfinite
  · rw [asWord, if_pos hinfinite, source_of_isInfinite hinfinite, h]
    rfl
  · rw [asWord, if_neg hinfinite]

/-- A sign and a word take one space more than the negative infinity that they are read from. -/
theorem length_spacedSource_reread (e : Element) :
    (spacedSource e.reread).length =
      (spacedSource [e]).length + if e.isNegativeInfinity then 1 else 0 := by
  cases hnegative : e.isNegativeInfinity with
  | true =>
    have hinfinite := Element.isInfinite_of_isNegativeInfinity hnegative
    have hwhole : spacedSource [e] = [' ', '-', 'i', 'n', 'f'] := by
      rw [spacedSource, List.flatMap_singleton, Element.source_of_isInfinite hinfinite, hnegative]
      rfl
    have hapart : spacedSource e.reread = [' ', '-', ' ', 'i', 'n', 'f'] := by
      rw [Element.reread, if_pos hnegative]
      rfl
    rw [hwhole, hapart]
    rfl
  | false =>
    simp [spacedSource, Element.reread, hnegative, Element.source_asWord hnegative]

theorem spacedSource_append (es es' : List Element) :
    spacedSource (es ++ es') = spacedSource es ++ spacedSource es' :=
  List.flatMap_append

theorem length_spacedSource_flatMap_reread (es : List Element) :
    (spacedSource (es.flatMap Element.reread)).length =
      (spacedSource es).length + es.countP Element.isNegativeInfinity := by
  induction es with
  | nil => rfl
  | cons e es ih =>
    have hfirst := length_spacedSource_reread e
    rw [List.flatMap_cons, spacedSource_append, ← List.singleton_append, spacedSource_append,
      List.length_append, List.length_append, ih, hfirst, List.singleton_append, List.countP_cons]
    omega

theorem spacedSource_map_asWord (h : ∀ e ∈ es, e.isNegativeInfinity = false) :
    spacedSource (es.map Element.asWord) = spacedSource es := by
  rw [spacedSource, List.flatMap_map]
  refine List.flatMap_congr fun e he => ?_
  rw [Element.source_asWord (h e he)]

theorem Source.length_echo (es : List Element) :
    (Source.echo es).length = (spacedSource es).length + 7 := by
  simp [Source.echo, spacedSource]

theorem Loop.source_reread (h : ∀ e ∈ head.operands, e.isNegativeInfinity = false) :
    Source.loop head.reread = Source.loop head := by
  have hoperands := spacedSource_map_asWord h
  rw [← Loop.operands_reread] at hoperands
  simp only [spacedSource] at hoperands
  rw [Source.loop, Source.loop, hoperands]
  rfl

namespace Content

/-- Without a negative infinity the parts are written as they are read again. -/
theorem source_reread (h : ∀ e ∈ c.elements, e.isNegativeInfinity = false) :
    c.reread.source = c.source := by
  induction c with
  | nil => rfl
  | text value next ih => rw [reread, source, source, ih h]
  | echo elements next ih =>
    obtain ⟨helements, hnext⟩ := List.forall_mem_append.1 h
    have hecho := spacedSource_map_asWord helements
    simp only [spacedSource] at hecho
    rw [reread, source, source, ih hnext, flatMap_reread helements, Source.echo, Source.echo, hecho]
  | loop head body next ihb ihn =>
    simp only [elements, List.forall_mem_append] at h
    obtain ⟨hhead, hbody, hnext⟩ := h
    rw [reread, source, source, Loop.source_reread hhead, ihb hbody, ihn hnext]

/-- Each negative infinity in an echo takes one space more when it is read again. -/
theorem length_source_reread (h : ∀ e ∈ c.operands, e.isNegativeInfinity = false) :
    c.reread.source.length = c.source.length + c.elements.countP Element.isNegativeInfinity := by
  induction c with
  | nil => rfl
  | text value next ih =>
    rw [reread, source, source, List.length_append, List.length_append, ih h, elements]
    omega
  | echo elements next ih =>
    rw [reread, source, source, List.length_append, List.length_append, ih h, Content.elements,
      List.countP_append, Source.length_echo, Source.length_echo,
      length_spacedSource_flatMap_reread]
    omega
  | loop head body next ihb ihn =>
    simp only [operands, List.forall_mem_append] at h
    obtain ⟨hhead, hbody, hnext⟩ := h
    have hnone : head.operands.countP Element.isNegativeInfinity = 0 :=
      List.countP_eq_zero.2 fun e he => by simp [hhead e he]
    rw [reread, source, source, Loop.source_reread hhead, elements, List.countP_append,
      List.countP_append, hnone]
    simp only [List.length_append, ihb hbody, ihn hnext]
    omega

theorem source_reread_eq_iff (h : ∀ e ∈ c.operands, e.isNegativeInfinity = false) :
    c.reread.source = c.source ↔ ∀ e ∈ c.elements, e.isNegativeInfinity = false := by
  constructor
  · intro hsame
    have hlength := length_source_reread h
    rw [hsame] at hlength
    have hnone : c.elements.countP Element.isNegativeInfinity = 0 := by omega
    simpa using List.countP_eq_zero.1 hnone
  · exact source_reread

end Content

theorem isStable_of_finite {source : String} {d : Document} (h : Document.parse source = .ok d)
    (hfinite : ∀ e ∈ d.elements, e.isInfinite = false) : IsStable d.source := by
  obtain ⟨c, hc, rfl, hspaced, hnumbers⟩ := spaced_of_parse h
  rw [Content.elements_document] at hfinite
  exact ⟨c.document, parse_source_of_finite hc hspaced hnumbers hfinite, rfl⟩

/-- The canonical source of a parsed document is stable if there is no negative infinity in the
document. If there are some but none in a loop, the source parses, and the canonical source of what
it parses to is another one, which is stable. -/
theorem source_stability {source : String} {d : Document} (h : Document.parse source = .ok d) :
    ((∀ e ∈ d.elements, e.isNegativeInfinity = false) → IsStable d.source) ∧
    ((∃ e ∈ d.elements, e.isNegativeInfinity) →
      (∀ e ∈ d.operands, e.isNegativeInfinity = false) →
      ∃ d', Document.parse d.source = .ok d' ∧ d'.source ≠ d.source ∧ IsStable d'.source) := by
  obtain ⟨c, hc, rfl, hspaced, hnumbers⟩ := spaced_of_parse h
  rw [Content.elements_document, Content.operands_document]
  have hreread := parse_source hc hspaced hnumbers
  refine ⟨?_, ?_⟩
  · intro hnone
    refine ⟨c.reread.document, hreread fun e he => ?_, ?_⟩
    · exact hnone e (Content.mem_elements_of_mem_operands he)
    · rw [source_document, source_document, Content.source_reread hnone]
  · rintro ⟨e, he, hnegative⟩ hoperands
    refine ⟨c.reread.document, hreread hoperands, ?_, isStable_of_finite (hreread hoperands) ?_⟩
    · rw [source_document, source_document, ne_eq, String.ofList_inj,
        Content.source_reread_eq_iff hoperands]
      intro hnone
      rw [hnone e he] at hnegative
      cases hnegative
    · intro e he
      rw [Content.elements_document] at he
      exact Content.isInfinite_of_mem_reread he

/-- What an echo of a negative numeral beyond all doubles is read as. -/
def echoOfNegativeInfinity : Content := .echo [.double (.ofMagnitude true Double.infinite)] .nil

theorem parse_echoOfNegativeInfinity :
    Document.parse (String.ofList echoOfNegativeInfinity.spelling) =
      .ok echoOfNegativeInfinity.document :=
  parse_spelling ⟨List.cons_ne_nil _ _, trivial⟩ trivial (by decide)

/-- An integer, and the negative infinity, which is written apart from its sign the second time. -/
theorem stability_of_numerals :
    (∃ d, Document.parse "\x7b$= 1$\x7d" = .ok d ∧ IsStable d.source) ∧
    ∃ d d', Document.parse (String.ofList echoOfNegativeInfinity.spelling) = .ok d ∧
      Document.parse d.source = .ok d' ∧ d'.source ≠ d.source ∧ IsStable d'.source := by
  refine ⟨⟨_, parse_integer, (source_stability parse_integer).1 (by decide)⟩, ?_⟩
  obtain ⟨d', hparse, hdiffer, hstable⟩ := (source_stability parse_echoOfNegativeInfinity).2
    ⟨_, List.mem_cons_self, by decide⟩ (by rintro e ⟨⟩)
  exact ⟨_, d', parse_echoOfNegativeInfinity, hparse, hdiffer, hstable⟩

end Template
