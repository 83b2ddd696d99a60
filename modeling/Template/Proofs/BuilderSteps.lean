import Template.Proofs.Grammar

/-! What one token makes of a builder. -/
namespace Template

theorem exists_of_bind_eq_ok {ε α β : Type} {x : Except ε α} {k : α → Except ε β} {y : β}
    (h : (x >>= k) = .ok y) : ∃ a, x = .ok a ∧ k a = .ok y := by
  cases x with
  | error e => cases h
  | ok a => exact ⟨a, rfl, h⟩

theorem exists_of_bind_eq_error {ε α β : Type} {x : Except ε α} {k : α → Except ε β} {e : ε}
    (h : (x >>= k) = .error e) : x = .error e ∨ ∃ a, x = .ok a ∧ k a = .error e := by
  cases x with
  | error e' =>
    cases h
    exact .inl rfl
  | ok a => exact .inr ⟨a, rfl, h⟩

/-- How a token leads from one place in the grammar to the next when no node comes of it. -/
inductive Stage.Enters (t : Token) : Stage → Stage → Prop
  | opening (hkind : t.kind = .tagOpen) : Enters t .between .afterBrace
  | mark (hkind : t.kind = .tagMark) : Enters t .afterBrace .tagName
  | loopName (hkind : t.kind = .keyword .loop) : Enters t .tagName .loopCounter
  | echoName (hkind : t.kind = .keyword .echo) :
      Enters t .tagName (.elements (.echo t.span.start) #[])
  | endName (hkind : t.kind = .keyword .endLoop) : Enters t .tagName (.endTag t.span.start)
  | counter {counter : Name} (hkind : t.kind = .identifier counter.text) :
      Enters t .loopCounter (.elements (.loop counter) #[])
  | element {tag : ElementTag} {read : Array (Element × Position)} {e : Element}
      (hkind : t.kind = e.kind) :
      Enters t (.elements tag read) (.elements tag (read.push (e, t.span.start)))
  | closing {tag : ElementTag} {read : Array (Element × Position)} (hkind : t.kind = .tagMark) :
      Enters t (.elements tag read) (.closing tag read t.span.start)
  | closingEnd {keyword : Position} (hkind : t.kind = .tagMark) :
      Enters t (.endTag keyword) (.closingEnd keyword)

namespace Builder

/-- How a builder goes on after a token. -/
inductive Step (b : Builder) (t : Token) : Builder → Prop
  | enter {stage : Stage} (hstage : b.stage.Enters t stage) : Step b t { b with stage }
  | text {value : String} (hstage : b.stage = .between) (hkind : t.kind = .text value) :
      Step b t (b.addLeaf (.text value))
  | echo {keyword mark : Position} {read : Array (Element × Position)}
      (hstage : b.stage = .closing (.echo keyword) read mark) (hkind : t.kind = .tagClose)
      (hread : read ≠ #[]) : Step b t (b.addLeaf (.echo (read.toList.map (·.1))))
  | loop {counter : Name} {mark : Position} {read : Array (Element × Position)} {head : Loop}
      (hstage : b.stage = .closing (.loop counter) read mark) (hkind : t.kind = .tagClose)
      (hhead : Loop.ofElements counter read.toList mark = .ok head) : Step b t (b.openLoop head)
  | endLoop {keyword : Position} {id : NodeNumber} {outer : List NodeNumber}
      (hstage : b.stage = .closingEnd keyword) (hkind : t.kind = .tagClose)
      (hloops : b.loops = id :: outer) : Step b t { b with loops := outer, stage := .between }

variable {b c : Builder} {t : Token} {stage : Stage} {tag : ElementTag}
  {read : Array (Element × Position)} {place : Position} {d : Document}

theorem step_of_enter (h : b.enter stage = .ok (.ongoing c)) (hstage : b.stage.Enters t stage) :
    b.Step t c := by
  cases h
  exact .enter hstage

theorem step_of_feedBetween (hstage : b.stage = .between)
    (h : b.feedBetween t = .ok (.ongoing c)) : b.Step t c := by
  unfold feedBetween at h
  split at h
  · next hkind =>
    cases h
    exact .text hstage hkind
  · next hkind => exact step_of_enter h (hstage ▸ .opening hkind)
  · unfold finish at h
    split at h <;> cases h
  · cases h

theorem step_of_feedTagName (hstage : b.stage = .tagName)
    (h : b.feedTagName t = .ok (.ongoing c)) : b.Step t c := by
  unfold feedTagName at h
  split at h
  · next hkind => exact step_of_enter h (hstage ▸ .loopName hkind)
  · next hkind => exact step_of_enter h (hstage ▸ .echoName hkind)
  · next hkind => exact step_of_enter h (hstage ▸ .endName hkind)
  · cases h
  · cases h

theorem step_of_feedCounter (hstage : b.stage = .loopCounter)
    (h : b.feedCounter t = .ok (.ongoing c)) : b.Step t c := by
  unfold feedCounter at h
  split at h
  · next hkind =>
    obtain ⟨counter, hname, henter⟩ := exists_of_bind_eq_ok h
    rw [← Name.text_of_ofIdentifier hname] at hkind
    exact step_of_enter henter (hstage ▸ .counter hkind)
  · cases h

theorem step_of_feedElement (hstage : b.stage = .elements tag read)
    (h : b.feedElement tag read t = .ok (.ongoing c)) : b.Step t c := by
  unfold feedElement at h
  split at h
  · next hkind => exact step_of_enter h (hstage ▸ .closing hkind)
  · obtain ⟨e, he, henter⟩ := exists_of_bind_eq_ok h
    exact step_of_enter henter (hstage ▸ .element (Element.kind_of_ofToken he))

theorem step_of_closeTag (hstage : b.stage = .closing tag read place) (hkind : t.kind = .tagClose)
    (h : b.closeTag read.toList place tag = .ok (.ongoing c)) : b.Step t c := by
  cases tag with
  | echo keyword =>
    simp only [closeTag] at h
    split at h
    · cases h
    · next hread =>
      cases h
      exact .echo hstage hkind (by simpa using hread)
  | loop counter =>
    obtain ⟨head, hhead, hopen⟩ := exists_of_bind_eq_ok h
    cases hopen
    exact .loop hstage hkind hhead

theorem step_of_closeLoop (hstage : b.stage = .closingEnd place) (hkind : t.kind = .tagClose)
    (h : b.closeLoop place = .ok (.ongoing c)) : b.Step t c := by
  unfold closeLoop at h
  split at h
  · cases h
  · next hloops =>
    cases h
    exact .endLoop hstage hkind hloops

theorem step_of_feed (h : b.feed t = .ok (.ongoing c)) : b.Step t c := by
  unfold feed at h
  split at h
  · next hstage => exact step_of_feedBetween hstage h
  · next hstage =>
    split at h
    · next hkind => exact step_of_enter h (hstage ▸ .mark hkind)
    · cases h
  · next hstage => exact step_of_feedTagName hstage h
  · next hstage => exact step_of_feedCounter hstage h
  · next hstage => exact step_of_feedElement hstage h
  · next hstage =>
    split at h
    · next hkind => exact step_of_closeTag hstage hkind h
    · cases h
  · next hstage =>
    split at h
    · next hkind => exact step_of_enter h (hstage ▸ .closingEnd hkind)
    · cases h
  · next hstage =>
    split at h
    · next hkind => exact step_of_closeLoop hstage hkind h
    · cases h

theorem feed_of_enters (h : b.stage.Enters t stage) :
    b.feed t = .ok (.ongoing { b with stage }) := by
  obtain ⟨document, loops, stage'⟩ := b
  cases h with
  | opening hkind => simp [feed, feedBetween, enter, hkind]
  | mark hkind => simp [feed, enter, hkind]
  | loopName hkind => simp [feed, feedTagName, enter, hkind]
  | echoName hkind => simp [feed, feedTagName, enter, hkind]
  | endName hkind => simp [feed, feedTagName, enter, hkind]
  | counter hkind =>
    simp only [feed, feedCounter, hkind, Name.ofIdentifier_text]
    rfl
  | @element _ _ e hkind =>
    have hmark : t.kind ≠ .tagMark := by
      rw [hkind]
      cases e <;> simp [Element.kind]
    simp only [feed, feedElement, Element.ofToken_of_kind hkind]
    rfl
  | closing hkind => simp [feed, feedElement, enter, hkind]
  | closingEnd hkind => simp [feed, enter, hkind]

theorem feed_of_step (h : b.Step t c) : b.feed t = .ok (.ongoing c) := by
  cases h with
  | enter hstage => exact feed_of_enters hstage
  | text hstage hkind => simp [feed, feedBetween, hstage, hkind]
  | echo hstage hkind hread => simp [feed, closeTag, hstage, hkind, hread]
  | loop hstage hkind hhead =>
    simp only [feed, closeTag, hstage, hkind, hhead, if_true]
    rfl
  | endLoop hstage hkind hloops => simp [feed, closeLoop, hstage, hkind, hloops]

theorem kind_ne_eof_of_enters {stage' : Stage} (h : stage.Enters t stage') : t.kind ≠ .eof := by
  intro heof
  cases h with
  | @element _ _ e hkind =>
    rw [hkind] at heof
    cases e <;> cases heof
  | opening hkind => cases hkind.symm.trans heof
  | mark hkind => cases hkind.symm.trans heof
  | loopName hkind => cases hkind.symm.trans heof
  | echoName hkind => cases hkind.symm.trans heof
  | endName hkind => cases hkind.symm.trans heof
  | counter hkind => cases hkind.symm.trans heof
  | closing hkind => cases hkind.symm.trans heof
  | closingEnd hkind => cases hkind.symm.trans heof

theorem Step.kind_ne_eof (h : b.Step t c) : t.kind ≠ .eof := by
  cases h with
  | enter hstage => exact kind_ne_eof_of_enters hstage
  | text _ hkind => simp [hkind]
  | echo _ hkind _ => simp [hkind]
  | loop _ hkind _ => simp [hkind]
  | endLoop _ hkind _ => simp [hkind]

theorem finish_eq_complete (h : b.finish place = .ok (.complete d)) :
    b.loops = [] ∧ d = b.document := by
  unfold finish at h
  split at h
  · next hnone =>
    cases h
    exact ⟨hnone, rfl⟩
  · cases h

theorem closeTag_ne_complete {read : List (Element × Position)} :
    b.closeTag read place tag ≠ .ok (.complete d) := by
  intro h
  cases tag with
  | echo keyword =>
    simp only [closeTag] at h
    split at h <;> cases h
  | loop counter =>
    obtain ⟨head, _, hopen⟩ := exists_of_bind_eq_ok h
    cases hopen

/-- Only the end of input completes a document, and only between tags with no loop open. -/
theorem stage_of_complete (h : b.feed t = .ok (.complete d)) :
    b.stage = .between ∧ t.kind = .eof ∧ b.loops = [] ∧ d = b.document := by
  unfold feed at h
  split at h
  · next hstage =>
    unfold feedBetween at h
    split at h
    · cases h
    · cases h
    · next hk => exact ⟨hstage, hk, finish_eq_complete h⟩
    · cases h
  · split at h <;> cases h
  · unfold feedTagName at h
    split at h <;> cases h
  · unfold feedCounter at h
    split at h
    · obtain ⟨_, _, henter⟩ := exists_of_bind_eq_ok h
      cases henter
    · cases h
  · unfold feedElement at h
    split at h
    · cases h
    · obtain ⟨_, _, henter⟩ := exists_of_bind_eq_ok h
      cases henter
  · split at h
    · exact (closeTag_ne_complete h).elim
    · cases h
  · split at h <;> cases h
  · split at h
    · unfold closeLoop at h
      split at h <;> cases h
    · cases h

theorem feed_eq_complete_iff : b.feed t = .ok (.complete d) ↔
    b.stage = .between ∧ t.kind = .eof ∧ b.loops = [] ∧ d = b.document := by
  constructor
  · exact stage_of_complete
  · rintro ⟨hstage, hkind, hloops, rfl⟩
    simp [feed, feedBetween, finish, hstage, hkind, hloops]

end Builder

end Template
