import Template.Document.Source
import Template.Proofs.ElementTokens
import Template.Proofs.Walking

/-! The canonical source, read again. -/
namespace Template

open Token Source

variable {es : List Element} {p q : Position} {more rest body gap : List Char} {fresh : Bool}
  {inner : List Mark}

namespace Content

def source : Content → List Char
  | nil => []
  | text value next => Escape.encodeText value.toList ++ next.source
  | echo elements next => Source.echo elements ++ next.source
  | loop head body next => Source.loop head ++ (body.source ++ (endLoop ++ next.source))

def beginsWithText : Content → Bool
  | text _ _ => true
  | nil | echo _ _ | loop _ _ _ => false

/-- No text is empty, and no text follows another. -/
def Spaced : Content → Prop
  | nil => True
  | text value next => value ≠ "" ∧ next.beginsWithText = false ∧ next.Spaced
  | echo _ next => next.Spaced
  | loop _ body next => body.Spaced ∧ next.Spaced

end Content

theorem write_nil : write [] = pure () := by
  funext written
  exact congrArg (Prod.mk ()) String.append_empty

theorem write_append {cs ds : List Char} : (do write cs; write ds) = write (cs ++ ds) := by
  funext written
  have hwritten : written ++ String.ofList cs ++ String.ofList ds =
      written ++ String.ofList (cs ++ ds) := by
    rw [String.ofList_append, String.append_assoc]
  exact congrArg (Prod.mk ()) hwritten

theorem walk_writer (c : Content) (first : Nat) : c.walk writer first = write c.source := by
  induction c generalizing first with
  | nil => exact write_nil.symm
  | text value next ih =>
    rw [Content.walk, ih]
    exact write_append
  | echo elements next ih =>
    rw [Content.walk, ih]
    exact write_append
  | loop head body next ihb ihn =>
    rw [Content.walk, ihb, ihn]
    change (do write (loop head); write body.source; write endLoop; write next.source) = _
    simp only [write_append, Content.source]

theorem source_document (c : Content) : c.document.source = String.ofList c.source := by
  rw [Document.source, Document.walk_document, walk_writer]
  exact String.empty_append

def elementMarks (p : Position) : List Element → List Mark
  | [] => []
  | e :: es => e.marks (p.step ' ') ++ elementMarks ((p.step ' ').after e.source) es

/-- The tokens of a tag whose opening delimiter stands at `p`, its closing one at `q`. -/
def tagMarks (p : Position) (inner : List Mark) (q : Position) : List Mark :=
  [(.tagOpen, p), (.tagMark, p.step '{')] ++ inner ++ [(.tagMark, q), (.tagClose, q.step '$')]

def spacedSource (es : List Element) : List Char := es.flatMap (' ' :: ·.source)

def echoMarks (p : Position) (es : List Element) : List Mark :=
  tagMarks p ((.keyword .echo, p.after ['{', '$', ' ']) ::
      elementMarks (p.after ['{', '$', ' ', '=']) es)
    (p.after (['{', '$', ' ', '='] ++ spacedSource es ++ [' ']))

def counterSource (head : Loop) : List Char :=
  ['{', '$', ' ', 'F', 'O', 'R', ' '] ++ head.counter.text.toList

def loopMarks (p : Position) (head : Loop) : List Mark :=
  tagMarks p ((.keyword .loop, p.after ['{', '$', ' ']) ::
      (.identifier head.counter.text, p.after ['{', '$', ' ', 'F', 'O', 'R', ' ']) ::
      elementMarks (p.after (counterSource head)) head.operands)
    (p.after (counterSource head ++ spacedSource head.operands ++ [' ']))

def endMarks (p : Position) : List Mark :=
  tagMarks p [(.keyword .endLoop, p.after ['{', '$'])] (p.after ['{', '$', 'E', 'N', 'D'])

/-- The tokens of the parts, when their source stands from a place on. -/
def Content.marks (p : Position) : Content → List Mark
  | nil => []
  | text value next => (.text value, p) :: next.marks (p.after (Escape.encodeText value.toList))
  | echo elements next => echoMarks p elements ++ next.marks (p.after (Source.echo elements))
  | loop head body next =>
    loopMarks p head ++ (body.marks (p.after (Source.loop head)) ++
      (endMarks (p.after (Source.loop head ++ body.source)) ++
        next.marks (p.after (Source.loop head ++ body.source ++ endLoop))))

theorem separated_spaced (text : Element → List Char) (es : List Element)
    (hmore : Separated more) : Separated (es.flatMap (' ' :: text ·) ++ more) := by
  cases es with
  | nil => exact hmore
  | cons e es => exact .cons rfl

namespace Spot

theorem gives_elements (hnumbers : ∀ e ∈ es, e.isNaN = false) (hmore : Separated more) :
    Gives ⟨.tag, false, p, spacedSource es ++ more⟩ (elementMarks p es)
      ⟨.tag, false, p.after (spacedSource es), more⟩ := by
  induction es generalizing p with
  | nil => exact .nil
  | cons e es ih =>
    obtain ⟨he, hes⟩ := List.forall_mem_cons.1 hnumbers
    have hrest : Separated (spacedSource es ++ more) := separated_spaced Element.source es hmore
    have hfirst := gives_element (p := p) forall_blank_space he hrest
    have hnext := ih (p := (p.step ' ').after e.source) hes
    simpa [spacedSource, elementMarks] using hfirst.append hnext

/-- A tag, when what stands in it gives the `inner` tokens. -/
theorem gives_enclosed (body : List Char) (hgap : ∀ c ∈ gap, Character.isBlank c)
    (h : Gives ⟨.tag, true, p.after ['{', '$'], body ++ (gap ++ '$' :: '}' :: rest)⟩ inner
      ⟨.tag, false, q, gap ++ '$' :: '}' :: rest⟩) :
    Gives ⟨.text, false, p, '{' :: '$' :: (body ++ (gap ++ '$' :: '}' :: rest))⟩
      (tagMarks p inner (q.after gap)) ⟨.text, false, (q.after gap).after ['$', '}'], rest⟩ :=
  ((gives_open false p _).append h).append (gives_close hgap)

theorem gives_echoName (p : Position) (more : List Char) :
    Gives ⟨.tag, true, p.after ['{', '$'], ' ' :: '=' :: more⟩
      [(.keyword .echo, p.after ['{', '$', ' '])]
      ⟨.tag, false, p.after ['{', '$', ' ', '='], more⟩ := by
  have hkeyword : Lexeme.ofTag true ('=' :: more) = ⟨['='], more, .ok (.keyword .echo)⟩ := rfl
  exact gives_lexeme forall_blank_space hkeyword (by simp)

theorem gives_counter (name : Name) (p : Position) (hmore : EndsClass isNameChar more) :
    Gives ⟨.tag, true, p.after ['{', '$'],
        ' ' :: 'F' :: 'O' :: 'R' :: ' ' :: (name.text.toList ++ more)⟩
      [(.keyword .loop, p.after ['{', '$', ' ']),
        (.identifier name.text, p.after ['{', '$', ' ', 'F', 'O', 'R', ' '])]
      ⟨.tag, false, p.after (['{', '$', ' ', 'F', 'O', 'R', ' '] ++ name.text.toList), more⟩ := by
  have hblank : EndsClass isNameChar (' ' :: (name.text.toList ++ more)) := .cons rfl
  have hword := Lexeme.ofTag_word true ⟨"FOR", by decide⟩ hblank
  have hkeyword : Lexeme.ofTag true ('F' :: 'O' :: 'R' :: ' ' :: (name.text.toList ++ more)) =
      ⟨['F', 'O', 'R'], ' ' :: (name.text.toList ++ more), .ok (.keyword .loop)⟩ :=
    hword
  have hcounter : Lexeme.ofTag false (name.text.toList ++ more) =
      ⟨name.text.toList, more, .ok (.identifier name.text)⟩ :=
    Lexeme.ofTag_word false name hmore
  have hname := gives_lexeme (p := p.after ['{', '$']) forall_blank_space hkeyword (by simp)
  have hname' := gives_lexeme (p := p.after ['{', '$', ' ', 'F', 'O', 'R']) forall_blank_space
    hcounter (by simp)
  simpa using hname.append hname'

theorem gives_echo (hnumbers : ∀ e ∈ es, e.isNaN = false) (p : Position) (rest : List Char) :
    Gives ⟨.text, false, p, Source.echo es ++ rest⟩ (echoMarks p es)
      ⟨.text, false, p.after (Source.echo es), rest⟩ := by
  have hclosing : Separated (' ' :: '$' :: '}' :: rest) := .cons rfl
  have helements := (gives_echoName p _).append
    (gives_elements hnumbers hclosing)
  have htag := gives_enclosed ([' ', '='] ++ spacedSource es) forall_blank_space
    (by simpa using helements)
  simpa [echoMarks, Source.echo, spacedSource] using htag

theorem gives_loop {head : Loop} (hnumbers : ∀ e ∈ head.operands, e.isNaN = false) (p : Position)
    (rest : List Char) : Gives ⟨.text, false, p, Source.loop head ++ rest⟩ (loopMarks p head)
      ⟨.text, false, p.after (Source.loop head), rest⟩ := by
  have hseparated : Separated (spacedSource head.operands ++ ' ' :: '$' :: '}' :: rest) :=
    separated_spaced Element.source head.operands (.cons rfl)
  have hcounter := gives_counter head.counter p
    (hseparated.endsClass fun _ => isNameChar_eq_false_of_isBlank)
  have hoperands := hcounter.append (gives_elements hnumbers (.cons rfl))
  have htag := gives_enclosed
    ([' ', 'F', 'O', 'R', ' '] ++ head.counter.text.toList ++ spacedSource head.operands)
    forall_blank_space (by simpa using hoperands)
  simpa [loopMarks, counterSource, Source.loop, spacedSource] using htag

theorem gives_endLoop (p : Position) (rest : List Char) :
    Gives ⟨.text, false, p, endLoop ++ rest⟩ (endMarks p)
      ⟨.text, false, p.after endLoop, rest⟩ := by
  have hmark : EndsClass isNameChar ('$' :: '}' :: rest) := .cons rfl
  have hword := Lexeme.ofTag_word true ⟨"END", by decide⟩ hmark
  have hkeyword : Lexeme.ofTag true ('E' :: 'N' :: 'D' :: '$' :: '}' :: rest) =
      ⟨['E', 'N', 'D'], '$' :: '}' :: rest, .ok (.keyword .endLoop)⟩ :=
    hword
  have hname := gives_lexeme (p := p.after ['{', '$']) (List.forall_mem_nil _) hkeyword (by simp)
  have htag := gives_enclosed (p := p) ['E', 'N', 'D'] (List.forall_mem_nil _) hname
  simpa [endMarks, endLoop] using htag

theorem atTag_source {c : Content} (hc : c.beginsWithText = false) (hmore : Escape.AtTag more) :
    Escape.AtTag (c.source ++ more) := by
  cases c with
  | nil => exact hmore
  | text value next => cases hc
  | echo elements next => exact .inr rfl
  | loop head body next => exact .inr rfl

/-- In front of a tag or the end of input, the source of the parts gives their tokens. -/
theorem gives_content {c : Content} (hspaced : c.Spaced)
    (hnumbers : ∀ e ∈ c.elements, e.isNaN = false) (p : Position) (more : List Char)
    (hmore : Escape.AtTag more) : Gives ⟨.text, false, p, c.source ++ more⟩ (c.marks p)
      ⟨.text, false, p.after c.source, more⟩ := by
  induction c generalizing p more with
  | nil => exact .nil
  | text value next ih =>
    obtain ⟨hvalue, hnext, hspaced⟩ := hspaced
    have hchars : value.toList ≠ [] := by simpa using hvalue
    have htag := atTag_source hnext hmore
    have htext := gives_text (p := p) (by simp [Escape.encodeText_ne_nil hchars])
      (Escape.ends_encodeText hchars htag) (Lexeme.ofText_encodeText value.toList htag)
    rw [String.ofList_toList] at htext
    simpa [Content.source, Content.marks] using htext.append (ih hspaced hnumbers _ _ hmore)
  | echo elements next ih =>
    obtain ⟨helements, hrest⟩ := List.forall_mem_append.1 hnumbers
    have htag := gives_echo helements p (next.source ++ more)
    have hnext := ih hspaced hrest (p.after (Source.echo elements)) more hmore
    simpa [Content.source, Content.marks] using htag.append hnext
  | loop head body next ihb ihn =>
    simp only [Content.elements, List.forall_mem_append] at hnumbers
    obtain ⟨hhead, hinner, hrest⟩ := hnumbers
    obtain ⟨hbody, hnext⟩ := hspaced
    have htag := gives_loop hhead p (body.source ++ (endLoop ++ (next.source ++ more)))
    have hinside := ihb hbody hinner (p.after (Source.loop head))
      (endLoop ++ (next.source ++ more)) (.inr rfl)
    have hend := gives_endLoop (p.after (Source.loop head ++ body.source)) (next.source ++ more)
    have hbehind := ihn hnext hrest (p.after (Source.loop head ++ body.source ++ endLoop)) more
      hmore
    simp only [Position.after_append] at hend hbehind
    simpa [Content.source, Content.marks] using
      htag.append (hinside.append (hend.append hbehind))

end Spot

end Template
