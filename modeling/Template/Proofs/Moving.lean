import Template.Proofs.Feeding
import Template.Proofs.Places
import Template.Proofs.TokenRuns

/-! Readers and builders farther down in a source. -/
namespace Template

open String Token Character

/-- Where the place `p` of a text lies when the characters `before` come before the text. Only the
first line of the text begins with them. -/
def Position.behind (before : List Char) (p : Position) : Position where
  offset := p.offset + utf8Len before
  line := p.line + before.count '\n'
  column := if p.line = 1 then p.column + ((Position.after {} before).column - 1) else p.column

def Span.behind (before : List Char) (s : Span) : Span where
  start := s.start.behind before
  stop := s.stop + utf8Len before

def Token.behind (before : List Char) (t : Token) : Token := ⟨t.kind, t.span.behind before⟩

def LexicalError.behind (before : List Char) (e : LexicalError) : LexicalError :=
  ⟨e.cause, e.place.behind before⟩

def ParseError.behind (before : List Char) (e : ParseError) : ParseError :=
  ⟨e.cause, e.place.behind before⟩

namespace Position

variable {p : Position} {c : Char} {before cs : List Char}

theorem line_pos_step (h : 1 ≤ p.line) (c : Char) : 1 ≤ (p.step c).line := by
  simp only [step]
  split <;> omega

theorem line_pos_after (h : 1 ≤ p.line) (cs : List Char) : 1 ≤ (p.after cs).line := by
  induction cs generalizing p with
  | nil => exact h
  | cons c cs ih => exact ih (line_pos_step h c)

theorem behind_step (h : 1 ≤ p.line) (c : Char) :
    (p.step c).behind before = (p.behind before).step c := by
  by_cases hc : c = '\n'
  · have hline : ¬ p.line + 1 = 1 := by omega
    simp only [behind, step, if_pos hc, if_neg hline, Nat.add_right_comm]
  · by_cases hline : p.line = 1
    · simp [behind, step, hc, hline, Nat.add_right_comm]
    · simp [behind, step, hc, hline, Nat.add_right_comm]

theorem behind_after (h : 1 ≤ p.line) (cs : List Char) :
    (p.after cs).behind before = (p.behind before).after cs := by
  induction cs generalizing p with
  | nil => rfl
  | cons c cs ih => rw [after_cons, ih (line_pos_step h c), behind_step h, after_cons]

theorem behind_start (before : List Char) : behind before {} = after {} before := by
  have hend := isBehind_nil.after before
  rw [List.nil_append] at hend
  have hbegin : (behind before {}).IsBehind before := by
    refine ⟨Nat.zero_add _, Nat.add_comm 1 _, ?_⟩
    rw [behind, if_pos rfl, hend.column]
    exact Nat.add_comm 1 _
  exact hbegin.eq hend

end Position

namespace Reader

/-- The reader with the characters `before` in front of its source. -/
def behind (before : List Char) (last : Option Token) (r : Reader) : Reader :=
  { r with
    position := r.position.behind before
    pending := r.pending.map (Token.behind before)
    last }

variable {r s : Reader} {t : Token} {e : LexicalError} {before raw rest : List Char}
  {last : Option Token}

theorem spanOf_behind (h : 1 ≤ r.position.line) (raw : List Char) :
    (r.behind before last).spanOf raw = (r.spanOf raw).behind before := by
  simp only [spanOf, Span.behind, behind, ← Position.behind_after h]
  rfl

theorem advance_behind (h : 1 ≤ r.position.line) (raw rest : List Char) :
    (r.behind before last).advance raw rest = (r.advance raw rest).behind before last := by
  simp only [advance, behind, Position.behind_after h]

theorem afterBlanks_behind (h : 1 ≤ r.position.line) :
    (r.behind before last).afterBlanks = r.afterBlanks.behind before last :=
  advance_behind h _ _

theorem afterLexeme_behind (h : 1 ≤ r.position.line) (raw rest : List Char) :
    (r.behind before last).afterLexeme raw rest = (r.afterLexeme raw rest).behind before last := by
  rw [afterLexeme, advance_behind h]
  rfl

theorem errorPlace_behind (h : 1 ≤ r.position.line) (cause : LexicalError.Cause)
    (raw : List Char) :
    (r.behind before last).errorPlace cause raw = (r.errorPlace cause raw).behind before := by
  unfold errorPlace
  split
  · rfl
  · exact (Position.behind_after h raw).symm

theorem afterDelimiter_behind (h : 1 ≤ r.position.line) (first second : Char × Kind)
    (rest : List Char) (mode : Mode) :
    (r.behind before last).afterDelimiter first second rest mode =
      (r.afterDelimiter first second rest mode).behind before last := by
  have hmiddle : 1 ≤ (r.advance [first.1] rest).position.line := Position.line_pos_after h _
  simp only [afterDelimiter, advance_behind h, spanOf_behind hmiddle, advance_behind hmiddle]
  rfl

theorem line_pos_afterBlanks (h : 1 ≤ r.position.line) : 1 ≤ r.afterBlanks.position.line :=
  Position.line_pos_after h r.blanks

theorem Step.line_pos (hline : 1 ≤ r.position.line) (h : r.Step t s) : 1 ≤ s.position.line := by
  have hblanks := line_pos_afterBlanks hline
  cases h with
  | pending => exact hline
  | eof => exact hline
  | opening =>
    exact Position.line_pos_after (Position.line_pos_after hline ['{']) ['$']
  | text => exact Position.line_pos_after hline _
  | blanks => exact hblanks
  | closing => exact Position.line_pos_after (Position.line_pos_after hblanks ['$']) ['}']
  | inTag => exact Position.line_pos_after hblanks _

theorem pending_behind (h : r.pending = none) : (r.behind before last).pending = none := by
  simp only [behind, h, Option.map_none]

/-- A step is the same behind another text. -/
theorem Step.behind (hline : 1 ≤ r.position.line) (h : r.Step t s) (before : List Char)
    (last : Option Token) :
    (r.behind before last).Step (t.behind before) (s.behind before last) := by
  have hblanks := line_pos_afterBlanks hline
  have hafter : (r.behind before last).afterBlanks = r.afterBlanks.behind before last :=
    afterBlanks_behind hline
  cases h with
  | pending hpending =>
    refine .pending (r := r.behind before last) ?_
    simp only [Reader.behind, hpending, Option.map_some]
  | eof hpending hmode hrest =>
    have hstep := Step.eof (r := r.behind before last) (pending_behind hpending) hmode hrest
    rw [spanOf_behind hline] at hstep
    exact hstep
  | opening hpending hmode hrest =>
    have hstep := Step.opening (r := r.behind before last) (pending_behind hpending) hmode hrest
    rw [spanOf_behind hline, afterDelimiter_behind hline] at hstep
    exact hstep
  | text hpending hmode hne hends hlex =>
    have hstep := Step.text (r := r.behind before last) (pending_behind hpending) hmode hne hends
      hlex
    rw [spanOf_behind hline, afterLexeme_behind hline] at hstep
    exact hstep
  | blanks hpending hmode hkeeps hne =>
    have hstep := Step.blanks (r := r.behind before last) (pending_behind hpending) hmode hkeeps hne
    rw [spanOf_behind hline, hafter] at hstep
    exact hstep
  | closing hpending hmode hrest hkept =>
    have hstep := Step.closing (r := r.behind before last) (pending_behind hpending) hmode hrest
      hkept
    rw [hafter, spanOf_behind hblanks, afterDelimiter_behind hblanks] at hstep
    exact hstep
  | inTag hpending hmode hne hclose hlex hkept =>
    have hstep := Step.inTag (r := r.behind before last) (pending_behind hpending) hmode hne hclose
      hlex hkept
    rw [hafter, spanOf_behind hblanks, afterLexeme_behind hblanks] at hstep
    exact hstep

theorem Fails.behind (hline : 1 ≤ r.position.line) (h : r.Fails e s) (before : List Char)
    (last : Option Token) :
    (r.behind before last).Fails (e.behind before) (s.behind before last) := by
  have hblanks := line_pos_afterBlanks hline
  have hafter : (r.behind before last).afterBlanks = r.afterBlanks.behind before last :=
    afterBlanks_behind hline
  cases h with
  | text hpending hmode hlex =>
    have hfails := Fails.text (r := r.behind before last) (pending_behind hpending) hmode hlex
    rw [errorPlace_behind hline, afterLexeme_behind hline] at hfails
    exact hfails
  | openTag hpending hmode hrest hkept =>
    have hfails := Fails.openTag (r := r.behind before last) (pending_behind hpending) hmode hrest
      hkept
    rw [hafter] at hfails
    exact hfails
  | inTag hpending hmode hlex hkept =>
    have hfails := Fails.inTag (r := r.behind before last) (pending_behind hpending) hmode hlex
      hkept
    rw [hafter, errorPlace_behind hblanks, afterLexeme_behind hblanks] at hfails
    exact hfails

/-- A token is given behind another text as it is at the beginning. -/
theorem next_behind (hline : 1 ≤ r.position.line) (h : r.next = (.ok t, s)) (before : List Char)
    (last : Option Token) : (r.behind before last).next =
      (.ok (t.behind before), s.behind before (some (t.behind before))) := by
  obtain ⟨hended, u, hstep, rfl⟩ := step_of_next h
  exact next_of_step (r := r.behind before last) hended (hstep.behind hline before last)

theorem next_behind_error (hline : 1 ≤ r.position.line) (h : r.next = (.error e, s))
    (before : List Char) (last : Option Token) :
    ∃ s', (r.behind before last).next = (.error (e.behind before), s') := by
  rcases fails_of_next h with ⟨hended, rfl, rfl⟩ | ⟨hended, hfails⟩
  · have hended' : (s.behind before last).ended = true := hended
    refine ⟨s.behind before last, ?_⟩
    rw [next, hended']
    rfl
  · have hnext := next_of_fails (r := r.behind before last) hended (hfails.behind hline before last)
    exact ⟨_, Prod.ext hnext rfl⟩

theorem line_pos_next (hline : 1 ≤ r.position.line) (h : r.next = (.ok t, s)) :
    1 ≤ s.position.line := by
  obtain ⟨-, u, hstep, rfl⟩ := step_of_next h
  exact Step.line_pos (s := u) hline hstep

/-- A run behind another text gives the same tokens, at places behind that text, and ends in the
same way. -/
theorem run_behind (hline : 1 ≤ r.position.line) (before : List Char) (last : Option Token) :
    (r.behind before last).run =
      ⟨r.run.tokens.map (Token.behind before), r.run.failure.map (LexicalError.behind before)⟩ := by
  induction hn : r.remaining using Nat.strongRecOn generalizing r last with
  | ind n ih =>
    subst hn
    rcases hnext : r.next with ⟨e | t, s⟩
    · obtain ⟨s', hnext'⟩ := next_behind_error hline hnext before last
      rw [run_of_error hnext, run_of_error hnext']
      rfl
    · have hkind : (t.behind before).kind = t.kind := rfl
      have hrest := ih _ (remaining_lt_of_next hnext) (line_pos_next hline hnext)
        (some (t.behind before)) rfl
      rw [run_of_token hnext, run_of_token (next_behind hline hnext before last), hkind, hrest]
      by_cases ht : t.kind = .eof
      · rw [if_pos ht, if_pos ht]
        rfl
      · rw [if_neg ht, if_neg ht]
        rfl

end Reader

def placesBehind (before : List Char) (read : List (Element × Position)) :
    List (Element × Position) :=
  read.map fun (e, place) => (e, place.behind before)

def ElementTag.behind (before : List Char) : ElementTag → ElementTag
  | .echo keyword => .echo (keyword.behind before)
  | .loop counter => .loop counter

def Stage.behind (before : List Char) : Stage → Stage
  | .between => .between
  | .afterBrace => .afterBrace
  | .tagName => .tagName
  | .loopCounter => .loopCounter
  | .elements tag read => .elements (tag.behind before) (placesBehind before read.toList).toArray
  | .closing tag read mark =>
    .closing (tag.behind before) (placesBehind before read.toList).toArray (mark.behind before)
  | .endTag keyword => .endTag (keyword.behind before)
  | .closingEnd keyword => .closingEnd (keyword.behind before)

section Elements

variable {before : List Char} {read : List (Element × Position)} {t : Token} {mark : Position}

theorem map_fst_placesBehind (before : List Char) (read : List (Element × Position)) :
    (placesBehind before read).map (·.1) = read.map (·.1) := by
  simp [placesBehind, Function.comp_def]

theorem Name.ofIdentifier_behind (text : String) (place : Position) (before : List Char) :
    Name.ofIdentifier text (place.behind before) =
      (Name.ofIdentifier text place).mapError (ParseError.behind before) := by
  unfold ofIdentifier
  cases ofString? text <;> rfl

theorem Element.ofToken_behind (t : Token) (before : List Char) :
    Element.ofToken (t.behind before) = (Element.ofToken t).mapError (ParseError.behind before) := by
  obtain ⟨kind, span⟩ := t
  cases kind with
  | identifier text =>
    have hname := Name.ofIdentifier_behind text span.start before
    simp only [ofToken, Token.behind, Span.behind, hname]
    cases Name.ofIdentifier text span.start <;> rfl
  | function text =>
    have hname := Name.ofIdentifier_behind text span.start before
    simp only [ofToken, Token.behind, Span.behind, hname]
    cases Name.ofIdentifier text span.start <;> rfl
  | operator c =>
    simp only [ofToken, Token.behind]
    cases Operator.ofChar? c <;> rfl
  | _ => rfl

theorem Loop.ofElements_behind (counter : Name) (read : List (Element × Position))
    (mark : Position) (before : List Char) :
    Loop.ofElements counter (placesBehind before read) (mark.behind before) =
      (Loop.ofElements counter read mark).mapError (ParseError.behind before) := by
  have hfind : (placesBehind before read).find? (!·.1.isLoopOperand) =
      (read.find? (!·.1.isLoopOperand)).map fun (e, place) => (e, place.behind before) := by
    rw [placesBehind, List.find?_map]
    rfl
  unfold ofElements
  rw [hfind, map_fst_placesBehind]
  cases read.find? (!·.1.isLoopOperand) with
  | some bad => rfl
  | none =>
    simp only [Option.map_none]
    split <;> rfl

end Elements

namespace Builder

/-- The builder `c` stands in the grammar where `b` does, at places behind another text, with as
many loops open. -/
structure Mirrors (before : List Char) (b c : Builder) : Prop where
  loops : c.loops.length = b.loops.length
  stage : c.stage = b.stage.behind before

/-- Both go on, both are done, or both fail in the same way. -/
inductive Mirrored (before : List Char) :
    Except ParseError Progress → Except ParseError Progress → Prop
  | error (e : ParseError) : Mirrored before (.error e) (.error (e.behind before))
  | ongoing {b c : Builder} (h : Mirrors before b c) :
      Mirrored before (.ok (.ongoing b)) (.ok (.ongoing c))
  | complete (d d' : Document) : Mirrored before (.ok (.complete d)) (.ok (.complete d'))

variable {before : List Char} {b c : Builder} {t : Token} {tag : ElementTag}
  {read : Array (Element × Position)} {place : Position}

theorem Mirrors.loops_eq_nil (h : Mirrors before b c) (hb : b.loops = []) : c.loops = [] := by
  rw [← List.length_eq_zero_iff, h.loops, hb, List.length_nil]

theorem Mirrors.exists_loops {id : NodeNumber} {outer : List NodeNumber} (h : Mirrors before b c)
    (hb : b.loops = id :: outer) :
    ∃ id' outer', c.loops = id' :: outer' ∧ outer'.length = outer.length := by
  have hloops := h.loops
  rw [hb, List.length_cons] at hloops
  obtain ⟨id', outer', hc⟩ := List.exists_cons_of_length_eq_add_one hloops
  rw [hc, List.length_cons, Nat.add_right_cancel_iff] at hloops
  exact ⟨id', outer', hc, hloops⟩

theorem mirrored_finish (h : Mirrors before b c) (place : Position) :
    Mirrored before (b.finish place) (c.finish (place.behind before)) := by
  unfold finish
  cases hb : b.loops with
  | nil =>
    rw [h.loops_eq_nil hb]
    exact .complete _ _
  | cons id outer =>
    obtain ⟨id', outer', hc, houter⟩ := h.exists_loops hb
    simp only [hc, List.length_cons, houter]
    exact .error _

theorem mirrored_closeLoop (h : Mirrors before b c) (keyword : Position) :
    Mirrored before (b.closeLoop keyword) (c.closeLoop (keyword.behind before)) := by
  unfold closeLoop
  cases hb : b.loops with
  | nil =>
    rw [h.loops_eq_nil hb]
    exact .error _
  | cons id outer =>
    obtain ⟨id', outer', hc, houter⟩ := h.exists_loops hb
    rw [hc]
    exact .ongoing ⟨houter, rfl⟩

theorem mirrored_feedBetween (h : Mirrors before b c) (t : Token) :
    Mirrored before (b.feedBetween t) (c.feedBetween (t.behind before)) := by
  obtain ⟨kind, span⟩ := t
  cases kind with
  | text value => exact .ongoing ⟨h.loops, rfl⟩
  | tagOpen => exact .ongoing ⟨h.loops, rfl⟩
  | eof => exact mirrored_finish h span.start
  | _ => exact .error _

theorem mirrored_feedTagName (h : Mirrors before b c) (t : Token) :
    Mirrored before (b.feedTagName t) (c.feedTagName (t.behind before)) := by
  obtain ⟨kind, span⟩ := t
  cases kind with
  | keyword k => cases k <;> exact .ongoing ⟨h.loops, rfl⟩
  | _ => exact .error _

theorem mirrored_feedCounter (h : Mirrors before b c) (t : Token) :
    Mirrored before (b.feedCounter t) (c.feedCounter (t.behind before)) := by
  obtain ⟨kind, span⟩ := t
  cases kind with
  | identifier text =>
    have hname := Name.ofIdentifier_behind text span.start before
    simp only [feedCounter, Token.behind, Span.behind, hname]
    cases Name.ofIdentifier text span.start with
    | error e => exact .error e
    | ok counter => exact .ongoing ⟨h.loops, rfl⟩
  | _ => exact .error _

theorem feedElement_of_ne (ht : t.kind ≠ .tagMark) : b.feedElement tag read t =
    (Element.ofToken t >>= fun e => b.enter (.elements tag (read.push (e, t.span.start)))) := by
  unfold feedElement
  split
  · next hmark => exact (ht hmark).elim
  · rfl

theorem mirrored_feedElement (h : Mirrors before b c) (tag : ElementTag)
    (read : Array (Element × Position)) (t : Token) :
    Mirrored before (b.feedElement tag read t)
      (c.feedElement (tag.behind before) (placesBehind before read.toList).toArray
        (t.behind before)) := by
  have hkind : (t.behind before).kind = t.kind := rfl
  by_cases ht : t.kind = .tagMark
  · simp only [feedElement, hkind, ht]
    exact .ongoing ⟨h.loops, rfl⟩
  · rw [feedElement_of_ne ht, feedElement_of_ne (t := t.behind before) ht,
      Element.ofToken_behind t before]
    cases Element.ofToken t with
    | error e => exact .error e
    | ok e =>
      refine .ongoing ⟨h.loops, ?_⟩
      simp [Stage.behind, placesBehind, Token.behind, Span.behind]

theorem mirrored_closeTag (h : Mirrors before b c) (tag : ElementTag)
    (read : List (Element × Position)) (mark : Position) :
    Mirrored before (b.closeTag read mark tag)
      (c.closeTag (placesBehind before read) (mark.behind before) (tag.behind before)) := by
  cases tag with
  | echo keyword =>
    cases read with
    | nil => exact .error _
    | cons e read => exact .ongoing ⟨h.loops, rfl⟩
  | loop counter =>
    have hhead := Loop.ofElements_behind counter read mark before
    simp only [closeTag, ElementTag.behind, hhead]
    cases Loop.ofElements counter read mark with
    | error e => exact .error e
    | ok head => exact .ongoing ⟨congrArg (· + 1) h.loops, rfl⟩

/-- A token behind another text does what it does at the beginning. -/
theorem mirrored_feed (h : Mirrors before b c) (t : Token) :
    Mirrored before (b.feed t) (c.feed (t.behind before)) := by
  have hstage := h.stage
  have hkind : (t.behind before).kind = t.kind := rfl
  unfold feed
  rw [hstage]
  cases b.stage with
  | between => exact mirrored_feedBetween h t
  | afterBrace =>
    simp only [Stage.behind, hkind]
    split
    · exact .ongoing ⟨h.loops, rfl⟩
    · exact .error _
  | tagName => exact mirrored_feedTagName h t
  | loopCounter => exact mirrored_feedCounter h t
  | elements tag read => exact mirrored_feedElement h tag read t
  | closing tag read mark =>
    simp only [Stage.behind, hkind]
    split
    · exact mirrored_closeTag h tag read.toList mark
    · exact .error _
  | endTag keyword =>
    simp only [Stage.behind, hkind]
    split
    · exact .ongoing ⟨h.loops, rfl⟩
    · exact .error _
  | closingEnd keyword =>
    simp only [Stage.behind, hkind]
    split
    · exact mirrored_closeLoop h keyword
    · exact .error _

/-- A parse that fails fails in the same way behind another text. -/
theorem feedFrom_behind {r : Reader} {e : ParseError} {last : Option Token}
    (hbuilder : Mirrors before b c) (hline : 1 ≤ r.position.line) (h : b.feedFrom r = .error e) :
    c.feedFrom (r.behind before last) = .error (e.behind before) := by
  induction hn : r.remaining using Nat.strongRecOn generalizing r b c last with
  | ind n ih =>
    subst hn
    rcases hnext : r.next with ⟨e' | t, s⟩
    · obtain ⟨s', hnext'⟩ := Reader.next_behind_error hline hnext before last
      rw [feedFrom_of_error hnext] at h
      cases h
      rw [feedFrom_of_error hnext']
      rfl
    · have hnext' := Reader.next_behind hline hnext before last
      have hmirrored := mirrored_feed hbuilder t
      rw [feedFrom_of_token hnext] at h
      rw [feedFrom_of_token hnext']
      generalize b.feed t = progress, c.feed (t.behind before) = progress' at h hmirrored
      cases hmirrored with
      | error e' =>
        cases h
        rfl
      | ongoing hbuilder' =>
        exact ih _ (Reader.remaining_lt_of_next hnext) hbuilder' (Reader.line_pos_next hline hnext)
          h rfl
      | complete d d' => cases h

end Builder

end Template
