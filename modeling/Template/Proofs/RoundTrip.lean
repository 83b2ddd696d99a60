import Template.Document.RoundTrip
import Template.Proofs.Spelling
import Template.Proofs.TokenRuns

/-! Parsed documents, written as source and parsed again. -/
namespace Template

open Token

namespace Source

/-- The place reached in the canonical source, and the operands found with their places. -/
abbrev Locator := StateM (Position × List (Element × Position))

/-- Goes on behind characters in which operands have been found. -/
def locate (cs : List Char) (found : Position → List (Element × Position)) : Locator Unit :=
  modify fun (p, before) => (p.after cs, before ++ found p)

/-- Follows the writer and tells where in its text each operand of a loop begins. -/
def locator : Walker Locator where
  root _ := pure ()
  text value := locate (Escape.encodeText value.toList) fun _ => []
  echo elements := locate (echo elements) fun _ => []
  loop head _ := locate (loop head) head.operandPlaces
  leaveRoot _ := pure ()
  leaveLoop _ _ := locate endLoop fun _ => []

end Source

namespace Document

variable (d : Document)

/-- The operands of the loops with their places in the canonical source, in order. -/
def operandPlaces : List (Element × Position) :=
  ((d.walk Source.locator).run ({}, [])).2.2

end Document

variable {c : Content} {first : Nat} {p : Position} {e : Element}

theorem locate_nil : Source.locate [] (fun _ => []) = pure () := by
  funext ⟨p, before⟩
  exact congrArg (fun found => ((), p, found)) (List.append_nil before)

theorem locate_append {cs ds : List Char} {found found' : Position → List (Element × Position)} :
    (do Source.locate cs found; Source.locate ds found') =
      Source.locate (cs ++ ds) fun p => found p ++ found' (p.after cs) := by
  funext ⟨p, before⟩
  have hplaces : (before ++ found p) ++ found' (p.after cs) =
      before ++ (found p ++ found' (p.after cs)) :=
    List.append_assoc ..
  have hplace : (p.after cs).after ds = p.after (cs ++ ds) := Position.after_append.symm
  exact congrArg (Prod.mk ()) (congrArg₂ Prod.mk hplace hplaces)

theorem walk_locator (c : Content) (first : Nat) :
    c.walk Source.locator first = Source.locate c.source fun p => c.operandPlaces p := by
  induction c generalizing first with
  | nil => exact locate_nil.symm
  | text value next ih =>
    rw [Content.walk, ih]
    change (do Source.locate (Escape.encodeText value.toList) fun _ => []
               Source.locate next.source fun p => next.operandPlaces p) = _
    simp only [locate_append, Content.source, Content.operandPlaces, List.nil_append]
  | echo elements next ih =>
    rw [Content.walk, ih]
    change (do Source.locate (Source.echo elements) fun _ => []
               Source.locate next.source fun p => next.operandPlaces p) = _
    simp only [locate_append, Content.source, Content.operandPlaces, List.nil_append]
  | loop head body next ihb ihn =>
    rw [Content.walk, ihb, ihn]
    change (do Source.locate (Source.loop head) head.operandPlaces
               Source.locate body.source fun p => body.operandPlaces p
               Source.locate Source.endLoop fun _ => []
               Source.locate next.source fun p => next.operandPlaces p) = _
    simp only [locate_append, Content.source, Content.operandPlaces, List.nil_append,
      Position.after_append]

theorem operandPlaces_document (c : Content) : c.document.operandPlaces = c.operandPlaces {} := by
  rw [Document.operandPlaces, Document.walk_document, walk_locator]
  rfl

/-- The text of an operand stands at its place. -/
theorem source_of_mem_placesFrom {es : List Element} {place : Position}
    (h : (e, place) ∈ placesFrom p es) :
    ∃ cs ds, spacedSource es = cs ++ e.source ++ ds ∧ place = p.after cs := by
  induction es generalizing p with
  | nil => cases h
  | cons e' es ih =>
    rcases List.mem_cons.1 h with h | h
    · cases h
      exact ⟨[' '], spacedSource es, rfl, rfl⟩
    · obtain ⟨cs, ds, hsource, rfl⟩ := ih h
      refine ⟨' ' :: e'.source ++ cs, ds, ?_, by simp⟩
      simp only [spacedSource] at hsource
      simp [spacedSource, hsource]

theorem source_of_mem_operandPlaces {place : Position} (h : (e, place) ∈ c.operandPlaces p) :
    ∃ cs ds, c.source = cs ++ e.source ++ ds ∧ place = p.after cs := by
  induction c generalizing p with
  | nil => cases h
  | text value next ih =>
    obtain ⟨cs, ds, hsource, rfl⟩ := ih h
    exact ⟨Escape.encodeText value.toList ++ cs, ds, by simp [Content.source, hsource], by simp⟩
  | echo elements next ih =>
    obtain ⟨cs, ds, hsource, rfl⟩ := ih h
    exact ⟨Source.echo elements ++ cs, ds, by simp [Content.source, hsource], by simp⟩
  | loop head body next ihb ihn =>
    simp only [Content.operandPlaces, List.mem_append] at h
    rcases h with h | h | h
    · obtain ⟨cs, ds, hsource, rfl⟩ := source_of_mem_placesFrom h
      have hhead : Source.loop head =
          counterSource head ++ spacedSource head.operands ++ [' ', '$', '}'] := rfl
      exact ⟨counterSource head ++ cs,
        ds ++ [' ', '$', '}'] ++ (body.source ++ (Source.endLoop ++ next.source)),
        by simp [Content.source, hhead, hsource], by simp⟩
    · obtain ⟨cs, ds, hsource, rfl⟩ := ihb h
      exact ⟨Source.loop head ++ cs, ds ++ (Source.endLoop ++ next.source),
        by simp [Content.source, hsource], by simp⟩
    · obtain ⟨cs, ds, hsource, rfl⟩ := ihn h
      exact ⟨Source.loop head ++ body.source ++ Source.endLoop ++ cs, ds,
        by simp [Content.source, hsource], by simp⟩

section Outcomes

variable (hc : c.WellFormed) (hspaced : c.Spaced) (hnumbers : ∀ e ∈ c.elements, e.isNaN = false)
include hc hspaced hnumbers

theorem parse_source_of_finite (h : ∀ e ∈ c.elements, e.isInfinite = false) :
    Document.parse c.document.source = .ok c.document := by
  have hoperands : ∀ e ∈ c.operands, e.isNegativeInfinity = false := by
    intro e he
    apply Element.isNegativeInfinity_eq_false
    exact h e (Content.mem_elements_of_mem_operands he)
  rw [parse_source hc hspaced hnumbers hoperands, Content.reread_eq_self h]

theorem parse_source_of_infinite (he : e ∈ c.elements) (hinfinite : e.isInfinite)
    (hoperands : ∀ e ∈ c.operands, e.isNegativeInfinity = false) :
    ∃ d, Document.parse c.document.source = .ok d ∧ d.sameValue c.document = false := by
  refine ⟨c.reread.document, parse_source hc hspaced hnumbers hoperands, ?_⟩
  rw [Bool.eq_false_iff]
  intro hsame
  have he : e ∈ c.document.elements := (Content.elements_document c).symm ▸ he
  obtain ⟨e', he', hee'⟩ := Document.exists_of_sameValue hsame he
  rw [Content.elements_document] at he'
  have := Content.isInfinite_of_mem_reread he'
  rw [Element.isInfinite_of_sameValue hee', hinfinite] at this
  cases this

theorem parse_source_of_negative (h : ∃ e ∈ c.operands, e.isNegativeInfinity) :
    ∃ e place, (c.operandPlaces {}).find? (·.1.isNegativeInfinity) = some (e, place) ∧
      Document.parse c.document.source = .error ⟨.badOperand (.operator .sub), place⟩ := by
  obtain ⟨e, he, hnegative⟩ := h
  cases hfind : (c.operandPlaces {}).find? (·.1.isNegativeInfinity) with
  | none =>
    have hnone := find?_places_eq_none hfind
    rw [Content.map_fst_operandPlaces] at hnone
    rw [hnone e he] at hnegative
    cases hnegative
  | some found =>
    exact ⟨found.1, found.2, rfl, parse_source_of_find? hc hspaced hnumbers hfind⟩

/-- A document comes back equal exactly if it has no infinity. -/
theorem roundTrip_document_eq_equal_iff :
    c.document.roundTrip = .equal ↔ ∀ e ∈ c.elements, e.isInfinite = false := by
  constructor
  · intro hequal e he
    rw [Bool.eq_false_iff]
    intro hinfinite
    by_cases hoperands : ∃ e ∈ c.operands, e.isNegativeInfinity
    · obtain ⟨_, _, -, hparse⟩ := parse_source_of_negative hc hspaced hnumbers hoperands
      simp [Document.roundTrip, hparse] at hequal
    · have hoperands : ∀ e ∈ c.operands, e.isNegativeInfinity = false := by
        simpa using hoperands
      obtain ⟨d, hparse, hdiffer⟩ :=
        parse_source_of_infinite hc hspaced hnumbers he hinfinite hoperands
      simp [Document.roundTrip, hparse, hdiffer] at hequal
  · intro hfinite
    have hself : c.document.sameValue c.document :=
      Document.sameValue_self ((Content.elements_document c).symm ▸ hnumbers)
    simp [Document.roundTrip, parse_source_of_finite hc hspaced hnumbers hfinite, hself]

end Outcomes

/-- An echo of a numeral beyond all doubles. -/
def echoBeyond : List Char :=
  ['{', '$', ' ', '=', ' '] ++ (Numeral.beyond false).raw ++ [' ', '$', '}']

/-- What the echo is read as. -/
def echoOfInfinity : Content := .echo [.double (.ofMagnitude false Double.infinite)] .nil

theorem parse_echoBeyond :
    Document.parse (String.ofList echoBeyond) = .ok echoOfInfinity.document := by
  have hnumbers : ∀ e ∈ echoOfInfinity.elements, e.isNaN = false := by decide
  have hspelling : echoOfInfinity.spelling = echoBeyond := by
    simp [echoOfInfinity, echoBeyond, Content.spelling, tagSpelling, Element.spelling_infinity,
      Keyword.text]
  rw [← hspelling]
  exact parse_spelling ⟨List.cons_ne_nil _ _, trivial⟩ trivial hnumbers

/-- A loop between the negative of such a numeral and the numeral. -/
def loopBeyond : List Char :=
  ['{', '$'] ++ ([' ', 'F', 'O', 'R', ' ', 'i'] ++ ' ' :: (Numeral.beyond true).raw ++
    ' ' :: (Numeral.beyond false).raw ++ ([' ', '$', '}'] ++ Source.endLoop))

def loopOfInfinities : Content :=
  .loop ⟨⟨"i", by decide⟩, .double (.ofMagnitude true Double.infinite),
    .double (.ofMagnitude false Double.infinite), none⟩ .nil .nil

theorem parse_loopBeyond :
    Document.parse (String.ofList loopBeyond) = .ok loopOfInfinities.document := by
  have hwellFormed : loopOfInfinities.WellFormed := by
    simp [loopOfInfinities, Content.WellFormed, Loop.WellFormed, Loop.operands,
      Element.isLoopOperand]
  have hnumbers : ∀ e ∈ loopOfInfinities.elements, e.isNaN = false := by decide
  have hspelling : loopOfInfinities.spelling = loopBeyond := by
    simp [loopOfInfinities, loopBeyond, Content.spelling, tagSpelling, Element.spelling_infinity,
      Keyword.text, Loop.operands, Element.spelling_var]
  rw [← hspelling]
  exact parse_spelling hwellFormed ⟨trivial, trivial⟩ hnumbers

theorem parse_integer : Document.parse "\x7b$= 1$\x7d" =
    .ok (Content.echo [.int 1] .nil).document := by
  decide +kernel

/-- What becomes of a parsed document that is written as source and parsed again: itself if it has
no infinity, another document if it has one but none that is negative in a loop, and otherwise the
error that the sign of the first of these is no operand. -/
theorem parse_source_outcome {source : String} {d : Document} (h : Document.parse source = .ok d) :
    ((∀ e ∈ d.elements, e.isInfinite = false) → Document.parse d.source = .ok d) ∧
    ((∃ e ∈ d.elements, e.isInfinite) → (∀ e ∈ d.operands, e.isNegativeInfinity = false) →
      ∃ d', Document.parse d.source = .ok d' ∧ d'.sameValue d = false) ∧
    ((∃ e ∈ d.operands, e.isNegativeInfinity) →
      ∃ e place, d.operandPlaces.find? (·.1.isNegativeInfinity) = some (e, place) ∧
        (∃ before behind, d.source.toList = before ++ e.source ++ behind ∧
          place = Position.after {} before) ∧
        Document.parse d.source = .error ⟨.badOperand (.operator .sub), place⟩ ∧
        (Element.operator .sub).phrase = "operator '-'") := by
  obtain ⟨c, hc, rfl, hspaced, hnumbers⟩ := spaced_of_parse h
  rw [Content.elements_document, Content.operands_document, operandPlaces_document]
  refine ⟨parse_source_of_finite hc hspaced hnumbers, ?_, ?_⟩
  · rintro ⟨e, he, hinfinite⟩ hoperands
    exact parse_source_of_infinite hc hspaced hnumbers he hinfinite hoperands
  · intro hoperands
    obtain ⟨e, place, hfind, hparse⟩ := parse_source_of_negative hc hspaced hnumbers hoperands
    refine ⟨e, place, hfind, ?_, hparse, rfl⟩
    rw [source_document, String.toList_ofList]
    exact source_of_mem_operandPlaces (List.mem_of_find?_eq_some hfind)

theorem outcomes_of_numerals :
    (∃ d, Document.parse "\x7b$= 1$\x7d" = .ok d ∧ Document.parse d.source = .ok d) ∧
    (∃ d d', Document.parse (String.ofList echoBeyond) = .ok d ∧
      Document.parse d.source = .ok d' ∧ d'.sameValue d = false) ∧
    (∃ d place, Document.parse (String.ofList loopBeyond) = .ok d ∧
      Document.parse d.source = .error ⟨.badOperand (.operator .sub), place⟩) := by
  refine ⟨⟨_, parse_integer, (parse_source_outcome parse_integer).1 (by decide)⟩, ?_, ?_⟩
  · obtain ⟨d', hparse, hdiffer⟩ := (parse_source_outcome parse_echoBeyond).2.1
      ⟨_, List.mem_cons_self, by decide⟩ (by rintro e ⟨⟩)
    exact ⟨_, d', parse_echoBeyond, hparse, hdiffer⟩
  · obtain ⟨e, place, -, -, hparse, -⟩ := (parse_source_outcome parse_loopBeyond).2.2
      ⟨_, List.mem_cons_self, by decide⟩
    exact ⟨_, place, parse_loopBeyond, hparse⟩

/-- The canonical source of a parsed document parses to an equal one exactly if no double in it is
an infinity. -/
theorem roundTrip_eq_equal_iff {source : String} {d : Document}
    (h : Document.parse source = .ok d) :
    d.roundTrip = .equal ↔ ∀ e ∈ d.elements, e.isInfinite = false := by
  obtain ⟨c, hc, rfl, hspaced, hnumbers⟩ := spaced_of_parse h
  rw [Content.elements_document]
  exact roundTrip_document_eq_equal_iff hc hspaced hnumbers

theorem roundTrip_integer :
    ∃ d, Document.parse "\x7b$= 1$\x7d" = .ok d ∧ d.roundTrip = .equal :=
  ⟨_, parse_integer, (roundTrip_eq_equal_iff parse_integer).2 (by decide)⟩

/-- A numeral beyond all doubles does not come back. -/
theorem roundTrip_echoBeyond :
    ∃ d, Document.parse (String.ofList echoBeyond) = .ok d ∧ d.roundTrip = .different := by
  refine ⟨_, parse_echoBeyond, ?_⟩
  obtain ⟨d', hparse, hdiffer⟩ := parse_source_of_infinite (c := echoOfInfinity)
    ⟨List.cons_ne_nil _ _, trivial⟩ trivial (by decide) List.mem_cons_self (by decide)
    (by rintro e ⟨⟩)
  simp [Document.roundTrip, hparse, hdiffer]

end Template
