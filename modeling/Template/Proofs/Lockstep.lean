import Template.Proofs.Faults
import Template.Proofs.Numbering

/-! Builder and reader in step: the one's place in the grammar tells where the other stands. -/
namespace Template

open Token Character

/-- What is read next, as far as the place in the grammar tells. -/
inductive Area
  | text
  /-- Between the halves of an opening delimiter. -/
  | opening
  | tag
  /-- Between the halves of a closing delimiter. -/
  | closing
deriving DecidableEq

def Stage.area : Stage → Area
  | .between => .text
  | .afterBrace => .opening
  | .tagName | .loopCounter | .elements _ _ | .endTag _ => .tag
  | .closing _ _ _ | .closingEnd _ => .closing

/-- The kinds of tokens that come in an area, and the area behind each. -/
inductive Area.Moves : Area → Kind → Area → Prop
  | text {kind : Kind} (hkind : kind.isText) : Moves .text kind .text
  | eof : Moves .text .eof .text
  | opening : Moves .text .tagOpen .opening
  | mark : Moves .opening .tagMark .tag
  | content {kind : Kind} (hkind : kind.isContent) : Moves .tag kind .tag
  | closing : Moves .tag .tagMark .closing
  | brace : Moves .closing .tagClose .text

inductive Reader.StandsIn (r : Reader) : Area → Prop
  | text (hpending : r.pending = none) (hmode : r.mode = .text) : StandsIn r .text
  | opening {t : Token} (hpending : r.pending = some t) (hkind : t.kind = .tagMark)
      (hmode : r.mode = .tag) : StandsIn r .opening
  | tag (hpending : r.pending = none) (hmode : r.mode = .tag) : StandsIn r .tag
  | closing {t : Token} (hpending : r.pending = some t) (hkind : t.kind = .tagClose)
      (hmode : r.mode = .text) : StandsIn r .closing

/-- The name of the token is a name, and its operator is one of the operators. -/
def Token.Kind.WellNamed : Kind → Prop
  | .identifier name | .function name => isName name.toList
  | .operator c => isOperatorChar c
  | _ => True

/-- Why a token is refused, and the error that is reported. -/
inductive Builder.Refuses (b : Builder) (t : Token) : ParseError → Prop
  | tagName (hstage : b.stage = .tagName) (hkeyword : ∀ k, t.kind ≠ .keyword k)
      (hname : ∀ name, t.kind ≠ .identifier name) :
      Refuses b t ⟨.unexpected .tagName t.kind, t.span.start⟩
  | unknownTag {name : String} (hstage : b.stage = .tagName) (hkind : t.kind = .identifier name) :
      Refuses b t ⟨.unknownTag name, t.span.start⟩
  | counter (hstage : b.stage = .loopCounter) (hname : ∀ name, t.kind ≠ .identifier name) :
      Refuses b t ⟨.badCounter t.kind, t.span.start⟩
  | element {tag : ElementTag} {read : Array (Element × Position)}
      (hstage : b.stage = .elements tag read) (hmark : t.kind ≠ .tagMark)
      (helement : ∀ e : Element, t.kind ≠ e.kind) :
      Refuses b t ⟨.unexpected .elementOrEnd t.kind, t.span.start⟩
  | endOfTag {keyword : Position} (hstage : b.stage = .endTag keyword)
      (hmark : t.kind ≠ .tagMark) : Refuses b t ⟨.unexpected .endOfTag t.kind, t.span.start⟩
  | emptyEcho {keyword mark : Position} (hstage : b.stage = .closing (.echo keyword) #[] mark)
      (hkind : t.kind = .tagClose) : Refuses b t ⟨.emptyEcho, keyword⟩
  | badOperand {counter : Name} {read : Array (Element × Position)} {mark place : Position}
      {e : Element} (hstage : b.stage = .closing (.loop counter) read mark)
      (hkind : t.kind = .tagClose)
      (hfirst : read.toList.find? (!·.1.isLoopOperand) = some (e, place)) :
      Refuses b t ⟨.badOperand e, place⟩
  | loopSize {counter : Name} {read : Array (Element × Position)} {mark : Position}
      (hstage : b.stage = .closing (.loop counter) read mark) (hkind : t.kind = .tagClose)
      (hoperands : ∀ x ∈ read.toList, x.1.isLoopOperand) (htwo : read.size ≠ 2)
      (hthree : read.size ≠ 3) : Refuses b t ⟨.loopSize (read.size + 1), mark⟩
  | strayEnd {keyword : Position} (hstage : b.stage = .closingEnd keyword)
      (hkind : t.kind = .tagClose) (hloops : b.loops = []) : Refuses b t ⟨.strayEnd, keyword⟩
  | openLoops (hstage : b.stage = .between) (hkind : t.kind = .eof) (hloops : b.loops ≠ []) :
      Refuses b t ⟨.openLoops b.loops.length, t.span.start⟩

/-- The span can be cut out of the source: it begins and ends between two characters. -/
structure Span.FitsIn (s : Span) (source : String) : Prop where
  start_le_stop : s.start.offset ≤ s.stop
  start : String.Pos.Raw.IsValid source ⟨s.start.offset⟩
  stop : String.Pos.Raw.IsValid source ⟨s.stop⟩

variable {source : String} {b c : Builder} {r s : Reader} {t : Token} {area area' area'' : Area}
  {kind : Kind} {raw rest : List Char} {e : ParseError} {stage stage' : Stage} {tag : ElementTag}
  {read : Array (Element × Position)} {place keyword : Position}

namespace Area.Moves

theorem eq (h : area.Moves kind area') (h' : area.Moves kind area'') : area' = area'' := by
  cases h with
  | text hkind =>
    cases h' with
    | text => rfl
    | eof => rfl
    | opening => cases hkind
  | eof =>
    cases h' with
    | text => rfl
    | eof => rfl
  | opening =>
    cases h' with
    | text hkind => cases hkind
    | opening => rfl
  | mark =>
    cases h'
    rfl
  | content hkind =>
    cases h' with
    | content => rfl
    | closing => cases hkind
  | closing =>
    cases h' with
    | content hkind => cases hkind
    | closing => rfl
  | brace =>
    cases h'
    rfl

theorem of_text (h : Moves .text kind area) : kind.isText ∨ kind = .eof ∨ kind = .tagOpen := by
  cases h with
  | text hkind => exact .inl hkind
  | eof => exact .inr (.inl rfl)
  | opening => exact .inr (.inr rfl)

theorem of_opening (h : Moves .opening kind area) : kind = .tagMark := by
  cases h
  rfl

theorem of_closing (h : Moves .closing kind area) : kind = .tagClose := by
  cases h
  rfl

end Area.Moves

namespace Reader.StandsIn

theorem eq_text (h : r.StandsIn area) (hpending : r.pending = none) (hmode : r.mode = .text) :
    area = .text := by
  cases h with
  | text => rfl
  | opening hpending' => cases hpending.symm.trans hpending'
  | tag _ hmode' => cases hmode.symm.trans hmode'
  | closing hpending' => cases hpending.symm.trans hpending'

theorem eq_tag (h : r.StandsIn area) (hpending : r.pending = none) (hmode : r.mode = .tag) :
    area = .tag := by
  cases h with
  | text _ hmode' => cases hmode.symm.trans hmode'
  | opening hpending' => cases hpending.symm.trans hpending'
  | tag => rfl
  | closing hpending' => cases hpending.symm.trans hpending'

/-- A token that is given moves the reader to the area behind it. -/
theorem step (h : r.StandsIn area) (hkeeps : r.keepsBlanks = false) (hstep : r.Step t s) :
    ∃ area', area.Moves t.kind area' ∧ s.StandsIn area' := by
  cases hstep with
  | pending hpending =>
    cases h with
    | text hnone => cases hnone.symm.trans hpending
    | opening hsome hkind hmode =>
      cases hsome.symm.trans hpending
      exact ⟨.tag, hkind ▸ .mark, .tag rfl hmode⟩
    | tag hnone => cases hnone.symm.trans hpending
    | closing hsome hkind hmode =>
      cases hsome.symm.trans hpending
      exact ⟨.text, hkind ▸ .brace, .text rfl hmode⟩
  | eof hpending hmode hrest =>
    obtain rfl := h.eq_text hpending hmode
    exact ⟨.text, .eof, .text hpending hmode⟩
  | opening hpending hmode hrest =>
    obtain rfl := h.eq_text hpending hmode
    exact ⟨.opening, .opening, .opening rfl rfl rfl⟩
  | text hpending hmode hne hends hlex =>
    obtain rfl := h.eq_text hpending hmode
    exact ⟨.text, .text (Lexeme.ofText_eq_ok hne hends hlex).1, .text hpending hmode⟩
  | blanks hpending hmode hkeeps' => cases hkeeps.symm.trans hkeeps'
  | closing hpending hmode hrest hkept =>
    obtain rfl := h.eq_tag hpending hmode
    exact ⟨.closing, .closing, .closing rfl rfl rfl⟩
  | inTag hpending hmode hne hclose hlex hkept =>
    obtain rfl := h.eq_tag hpending hmode
    exact ⟨.tag, .content (Lexeme.ofTag_eq_ok hlex).1, .tag hpending hmode⟩

theorem noted (h : r.StandsIn area) (last : Option Token) :
    ({ r with last := last } : Reader).StandsIn area := by
  cases h with
  | text hpending hmode => exact .text hpending hmode
  | opening hpending hkind hmode => exact .opening hpending hkind hmode
  | tag hpending hmode => exact .tag hpending hmode
  | closing hpending hkind hmode => exact .closing hpending hkind hmode

end Reader.StandsIn

theorem Token.Kind.Means.wellNamed (h : kind.Means raw rest) : kind.WellNamed := by
  cases kind with
  | identifier name => exact h.2.1
  | function name => exact h.2.1
  | operator c => exact h.2.1
  | _ => trivial

theorem Name.ofIdentifier_of_isName {text : String} (h : isName text.toList) (place : Position) :
    Name.ofIdentifier text place = .ok ⟨text, h⟩ :=
  Name.ofIdentifier_text ⟨text, h⟩ place

theorem Operator.exists_of_isOperatorChar {c : Char} (h : isOperatorChar c) :
    ∃ op, Operator.ofChar? c = some op := by
  simp only [isOperatorChar, List.contains_iff_mem, List.mem_cons, List.not_mem_nil,
    or_false] at h
  rcases h with rfl | rfl | rfl | rfl | rfl
  · exact ⟨.add, rfl⟩
  · exact ⟨.sub, rfl⟩
  · exact ⟨.mul, rfl⟩
  · exact ⟨.div, rfl⟩
  · exact ⟨.pow, rfl⟩

theorem Element.ofToken_eq_error (hnamed : t.kind.WellNamed) (h : Element.ofToken t = .error e) :
    e = ⟨.unexpected .elementOrEnd t.kind, t.span.start⟩ ∧ ∀ x : Element, t.kind ≠ x.kind := by
  refine ⟨?_, fun x hx => ?_⟩
  · unfold Element.ofToken at h
    split at h
    · next hkind =>
      rw [hkind] at hnamed
      rw [Name.ofIdentifier_of_isName hnamed] at h
      cases h
    · next hkind =>
      rw [hkind] at hnamed
      rw [Name.ofIdentifier_of_isName hnamed] at h
      cases h
    · cases h
    · cases h
    · cases h
    · next hkind =>
      rw [hkind] at hnamed
      obtain ⟨op, hop⟩ := Operator.exists_of_isOperatorChar hnamed
      rw [hop] at h
      cases h
    · cases h
      rfl
  · cases (Element.ofToken_of_kind hx).symm.trans h

/-- What keeps operands from making a loop: the first of the wrong sort, or their number. -/
theorem Loop.ofElements_eq_error {counter : Name} {read : List (Element × Position)}
    {mark : Position} (h : Loop.ofElements counter read mark = .error e) :
    (∃ x place, read.find? (!·.1.isLoopOperand) = some (x, place) ∧ e = ⟨.badOperand x, place⟩) ∨
      ((∀ x ∈ read, x.1.isLoopOperand) ∧ read.length ≠ 2 ∧ read.length ≠ 3 ∧
        e = ⟨.loopSize (read.length + 1), mark⟩) := by
  unfold Loop.ofElements at h
  split at h
  · next x place hfirst =>
    cases h
    exact .inl ⟨x, place, hfirst, rfl⟩
  · next hnone =>
    have hoperands : ∀ x ∈ read, x.1.isLoopOperand := by
      simpa using List.find?_eq_none.1 hnone
    split at h
    · cases h
    · cases h
    · next htwo hthree =>
      cases h
      refine .inr ⟨hoperands, ?_, ?_, by rw [List.length_map]⟩
      · intro hlength
        obtain ⟨x, y, hread⟩ := List.length_eq_two.1 ((List.length_map (·.1)).trans hlength)
        exact htwo x y hread
      · intro hlength
        obtain ⟨x, y, z, hread⟩ := List.length_eq_three.1 ((List.length_map (·.1)).trans hlength)
        exact hthree x y z hread

namespace Builder

theorem moves_of_enters (h : stage.Enters t stage') : stage.area.Moves t.kind stage'.area := by
  cases h with
  | opening hkind => exact hkind ▸ .opening
  | mark hkind => exact hkind ▸ .mark
  | loopName hkind => exact .content (hkind ▸ rfl)
  | echoName hkind => exact .content (hkind ▸ rfl)
  | endName hkind => exact .content (hkind ▸ rfl)
  | counter hkind => exact .content (hkind ▸ rfl)
  | @element _ _ x hkind =>
    refine .content ?_
    rw [hkind]
    cases x <;> rfl
  | closing hkind => exact hkind ▸ .closing
  | closingEnd hkind => exact hkind ▸ .closing

/-- A token that is taken moves the builder to the area behind it. -/
theorem Step.moves (h : b.Step t c) : b.stage.area.Moves t.kind c.stage.area := by
  cases h with
  | enter hstage => exact moves_of_enters hstage
  | text hstage hkind =>
    rw [hstage, hkind]
    exact .text rfl
  | echo hstage hkind =>
    rw [hstage, hkind]
    exact .brace
  | loop hstage hkind =>
    rw [hstage, hkind]
    exact .brace
  | endLoop hstage hkind =>
    rw [hstage, hkind]
    exact .brace

theorem refuses_of_feedBetween (hstage : b.stage = .between) (hmoves : Area.Moves .text t.kind area)
    (h : b.feedBetween t = .error e) : b.Refuses t e := by
  unfold feedBetween at h
  split at h
  · cases h
  · cases h
  · next hkind =>
    unfold finish at h
    split at h
    · cases h
    · next hloops =>
      cases h
      exact .openLoops hstage hkind hloops
  · next htext hopen heof =>
    rcases hmoves.of_text with hkind | hkind | hkind
    · generalize t.kind = kind at *
      cases kind with
      | text value => exact (htext value rfl).elim
      | _ => cases hkind
    · exact (heof hkind).elim
    · exact (hopen hkind).elim

theorem refuses_of_feedTagName (hstage : b.stage = .tagName) (h : b.feedTagName t = .error e) :
    b.Refuses t e := by
  unfold feedTagName at h
  split at h
  · cases h
  · cases h
  · cases h
  · next hkind =>
    cases h
    exact .unknownTag hstage hkind
  · next hloop hecho hend hname =>
    cases h
    refine .tagName hstage (fun k hkind => ?_) hname
    cases k with
    | loop => exact hloop hkind
    | echo => exact hecho hkind
    | endLoop => exact hend hkind

theorem refuses_of_feedCounter (hstage : b.stage = .loopCounter) (hnamed : t.kind.WellNamed)
    (h : b.feedCounter t = .error e) : b.Refuses t e := by
  unfold feedCounter at h
  split at h
  · next hkind =>
    rw [hkind] at hnamed
    rw [Name.ofIdentifier_of_isName hnamed] at h
    cases h
  · next hname =>
    cases h
    exact .counter hstage hname

theorem refuses_of_feedElement (hstage : b.stage = .elements tag read) (hnamed : t.kind.WellNamed)
    (h : b.feedElement tag read t = .error e) : b.Refuses t e := by
  unfold feedElement at h
  split at h
  · cases h
  · next hmark =>
    rcases exists_of_bind_eq_error h with helement | ⟨x, -, henter⟩
    · obtain ⟨rfl, hnone⟩ := Element.ofToken_eq_error hnamed helement
      exact .element hstage hmark hnone
    · cases henter

theorem refuses_of_closeTag (hstage : b.stage = .closing tag read place)
    (hkind : t.kind = .tagClose) (h : b.closeTag read.toList place tag = .error e) :
    b.Refuses t e := by
  cases tag with
  | echo keyword =>
    simp only [closeTag] at h
    split at h
    · next hempty =>
      cases h
      obtain rfl : read = #[] := by simpa using hempty
      exact .emptyEcho hstage hkind
    · cases h
  | loop counter =>
    rcases exists_of_bind_eq_error h with hhead | ⟨head, -, hopen⟩
    · rcases Loop.ofElements_eq_error hhead with
        ⟨x, place, hfirst, rfl⟩ | ⟨hoperands, htwo, hthree, rfl⟩
      · exact .badOperand hstage hkind hfirst
      · exact .loopSize hstage hkind hoperands htwo hthree
    · cases hopen

theorem refuses_of_closeLoop (hstage : b.stage = .closingEnd keyword) (hkind : t.kind = .tagClose)
    (h : b.closeLoop keyword = .error e) : b.Refuses t e := by
  unfold closeLoop at h
  split at h
  · next hloops =>
    cases h
    exact .strayEnd hstage hkind hloops
  · cases h

/-- A token that can come is refused for one of the reasons. -/
theorem refuses_of_feed (hmoves : b.stage.area.Moves t.kind area) (hnamed : t.kind.WellNamed)
    (h : b.feed t = .error e) : b.Refuses t e := by
  unfold feed at h
  split at h
  · next hstage =>
    rw [hstage] at hmoves
    exact refuses_of_feedBetween hstage hmoves h
  · next hstage =>
    rw [hstage] at hmoves
    rw [if_pos hmoves.of_opening] at h
    cases h
  · next hstage => exact refuses_of_feedTagName hstage h
  · next hstage => exact refuses_of_feedCounter hstage hnamed h
  · next hstage => exact refuses_of_feedElement hstage hnamed h
  · next hstage =>
    rw [hstage] at hmoves
    rw [if_pos hmoves.of_closing] at h
    exact refuses_of_closeTag hstage hmoves.of_closing h
  · next hstage =>
    split at h
    · cases h
    · next hmark =>
      cases h
      exact .endOfTag hstage hmark
  · next hstage =>
    rw [hstage] at hmoves
    rw [if_pos hmoves.of_closing] at h
    exact refuses_of_closeLoop hstage hmoves.of_closing h

namespace Refuses

theorem cause_ne (h : b.Refuses t e) :
    (∀ name, e.cause ≠ .badName name) ∧ ∀ cause, e.cause ≠ .lexical cause := by
  cases h <;> simp

/-- Both halves of a delimiter come, and a tag is text or begins where one is expected. -/
theorem expected {expected : Expected} {found : Kind} (h : b.Refuses t e)
    (hcause : e.cause = .unexpected expected found) :
    expected = .tagName ∨ expected = .elementOrEnd ∨ expected = .endOfTag := by
  cases h with
  | tagName =>
    cases hcause
    exact .inl rfl
  | element =>
    cases hcause
    exact .inr (.inl rfl)
  | endOfTag =>
    cases hcause
    exact .inr (.inr rfl)
  | _ => cases hcause

end Refuses

namespace Reached

/-- The tokens that have been given by then, and what the builder has made of them. -/
theorem exists_reads (h : Reached source b r) : ∃ ts, (Reader.ofSource source).Reads ts r ∧
    (∀ t ∈ ts, t.kind ≠ .eof) ∧ initial.feedAll ts = .ok (.ongoing b) := by
  induction h with
  | start => exact ⟨[], .nil, by simp, rfl⟩
  | @step b c r s t _ hnext hfeed ih =>
    obtain ⟨ts, hreads, hkinds, hall⟩ := ih
    refine ⟨ts ++ [t], hreads.append (.cons hnext .nil), ?_, ?_⟩
    · rw [List.forall_mem_append, List.forall_mem_singleton]
      exact ⟨hkinds, (step_of_feed hfeed).kind_ne_eof⟩
    · rw [feedAll_append hall, feedAll_cons hfeed]
      rfl

/-- The builder's place in the grammar tells where the reader stands. -/
theorem standsIn (h : Reached source b r) :
    r.StandsIn b.stage.area ∧ r.keepsBlanks = false ∧ r.ended = false := by
  induction h with
  | start => exact ⟨.text rfl rfl, rfl, rfl⟩
  | @step b c r s t _ hnext hfeed ih =>
    obtain ⟨hstands, hkeeps, -⟩ := ih
    have hkept := Reader.keepsBlanks_of_next hnext
    obtain ⟨hended, u, hstep, rfl⟩ := Reader.step_of_next hnext
    obtain ⟨area, hmoves, hu⟩ := hstands.step hkeeps hstep
    have htaken := step_of_feed hfeed
    obtain rfl := hmoves.eq htaken.moves
    exact ⟨hu.noted _, hkept.trans hkeeps, (hstep.ended_eq htaken.kind_ne_eof).trans hended⟩

theorem wellNamed_of_next (h : Reached source b r) (hnext : r.next = (.ok t, s)) :
    t.kind.WellNamed := by
  obtain ⟨ts, hreads, -⟩ := h.exists_reads
  have hgiven : ((Reader.ofSource source).keepBlanks false).Reads (ts ++ [t]) s :=
    hreads.append (.cons hnext .nil)
  obtain ⟨-, -, -, hmeans⟩ := hgiven.meansIn
  exact (hmeans t (.inl List.mem_concat_self)).wellNamed

theorem refuses (h : Reached source b r) (hnext : r.next = (.ok t, s))
    (hfeed : b.feed t = .error e) : b.Refuses t e := by
  obtain ⟨hstands, hkeeps, -⟩ := h.standsIn
  obtain ⟨-, u, hstep, -⟩ := Reader.step_of_next hnext
  obtain ⟨area, hmoves, -⟩ := hstands.step hkeeps hstep
  exact refuses_of_feed hmoves (h.wellNamed_of_next hnext) hfeed

/-- A parse that fails comes to a failure of the reader or to a token that is refused. -/
theorem exists_of_feedFrom (h : Reached source b r) (herror : b.feedFrom r = .error e) :
    (∃ c s e', Reached source c s ∧ s.next.1 = .error e' ∧ e = .ofLexical e') ∨
      ∃ c s t u, Reached source c s ∧ s.next = (.ok t, u) ∧ c.feed t = .error e := by
  induction hn : r.remaining using Nat.strongRecOn generalizing b r with
  | ind n ih =>
    subst hn
    rcases hnext : r.next with ⟨e' | t, s⟩
    · rw [feedFrom_of_error hnext] at herror
      cases herror
      exact .inl ⟨b, r, e', h, congrArg Prod.fst hnext, rfl⟩
    · rw [feedFrom_of_token hnext] at herror
      cases hfeed : b.feed t with
      | error e' =>
        rw [hfeed] at herror
        cases herror
        exact .inr ⟨b, r, t, s, h, hnext, hfeed⟩
      | ok progress =>
        rw [hfeed] at herror
        cases progress with
        | complete d => cases herror
        | ongoing c =>
          exact ih _ (Reader.remaining_lt_of_next hnext) (.step h hnext hfeed) herror rfl

end Reached

theorem getLast?_stack (b : Builder) : b.stack.getLast? = some b.container := by
  obtain ⟨document, loops, stage⟩ := b
  cases loops with
  | nil => rfl
  | cons id outer =>
    rw [stack, List.reverse_cons, ← List.cons_append, List.getLast?_concat]
    rfl

/-- A node goes to the container on top of the stack. -/
theorem Step.document_eq (h : b.Step t c) :
    c.document = b.document ∨ ∃ node, c.document = b.document.append b.container node := by
  cases h with
  | enter => exact .inl rfl
  | text => exact .inr ⟨_, rfl⟩
  | echo => exact .inr ⟨_, rfl⟩
  | loop => exact .inr ⟨_, rfl⟩
  | endLoop => exact .inl rfl

theorem Reached.containers (h : Reached source b r) :
    (∃ children, b.document.node? Document.rootNumber = some (.root children)) ∧
      ∀ id ∈ b.stack, ∃ node, b.document.node? id = some node ∧ node.IsContainer := by
  obtain ⟨loops, c, stage, rfl⟩ := exists_inside_of_reached h
  refine ⟨?_, (OpenLoops.isPath_document loops c).containers⟩
  simp only [inside, OpenLoops.document_eq_close]
  exact ⟨_, Document.node?_root _⟩

end Builder

theorem isValid_of_prefix {before after : List Char} (h : before ++ after = source.toList) :
    String.Pos.Raw.IsValid source ⟨String.utf8Len before⟩ := by
  refine String.Pos.Raw.isValid_iff_exists_append.2
    ⟨String.ofList before, String.ofList after, ?_, ?_⟩
  · rw [← String.ofList_append, h, String.ofList_toList]
  · rw [← String.utf8ByteSize_ofList]
    rfl

theorem Span.Covers.fitsIn {span : Span} {before : List Char} (h : span.Covers before raw)
    (hsource : before ++ raw ++ rest = source.toList) : span.FitsIn source where
  start_le_stop := h.start_le_stop
  start := by
    rw [List.append_assoc] at hsource
    rw [h.start.offset]
    exact isValid_of_prefix hsource
  stop := by
    rw [h.stop]
    exact isValid_of_prefix hsource

/-- A number is cut out of the source where characters begin and end. -/
theorem Builder.Reached.numeral_fitsIn (h : Reached source b r) (hpending : r.pending = none) :
    (r.afterBlanks.spanOf (Numeral.scan r.afterBlanks.rest).1.raw).FitsIn source ∧
      (r.afterBlanks.spanOf (Numeral.scan r.afterBlanks.rest).1.raw).slice source.toList =
        (Numeral.scan r.afterBlanks.rest).1.raw := by
  obtain ⟨ts, hreads, -⟩ := h.exists_reads
  obtain ⟨given, held, hstands⟩ := hreads.standsAt (Reader.standsAt_start source false)
  obtain ⟨-, hconsumed⟩ := hstands.consumed_of_nothing hpending
  have hblanks := hconsumed.afterBlanks
  have hcovers := hblanks.covers (Numeral.scan r.afterBlanks.rest).1.raw
  have hsource := hblanks.source_eq
  rw [← Numeral.raw_append_scan r.afterBlanks.rest, ← List.append_assoc] at hsource
  refine ⟨hcovers.fitsIn hsource, ?_⟩
  rw [← hsource]
  exact hcovers.slice _

/-- The error of a parse is that of the reader, which has not come to its end, or the reason for
which a token is refused. -/
theorem cause_of_parse_error (h : Document.parse source = .error e) :
    (∃ cause, e.cause = .lexical cause ∧ cause ≠ .exhausted) ∨
      ∃ b r t s, Builder.Reached source b r ∧ r.next = (.ok t, s) ∧ b.Refuses t e := by
  rcases Builder.Reached.start.exists_of_feedFrom h with
    ⟨b, r, e', hreached, hfails, rfl⟩ | ⟨b, r, t, s, hreached, hnext, hfeed⟩
  · obtain ⟨-, -, hended⟩ := hreached.standsIn
    rcases Reader.fails_of_next (Prod.ext hfails rfl) with ⟨hended', -⟩ | ⟨-, hfails⟩
    · cases hended.symm.trans hended'
    · exact .inl ⟨e'.cause, rfl, hfails.cause_ne_exhausted⟩
  · exact .inr ⟨b, r, t, s, hreached, hnext, hreached.refuses hnext hfeed⟩

/-- A parse gives a document or an error, and no error stands for a state of the parser that cannot
be: no name is refused as such, nothing is asked for behind the end of input, and no half of a
delimiter is missing. On the way each node gets a parent that is a container, the root is never
taken off the stack, and where a number is scanned, its span can be cut out of the source. -/
theorem parse_without_internal_error (source : String) :
    ((∃ d, Document.parse source = .ok d) ∨ ∃ e, Document.parse source = .error e ∧
      (∀ name, e.cause ≠ .badName name) ∧ e.cause ≠ .lexical .exhausted ∧
      ∀ expected found, e.cause = .unexpected expected found → expected.text ∉
        ["text or a tag", "'$' after '\x7b'", "'\x7d' after '$'", "an element"]) ∧
    Builder.initial.stack = [Document.rootNumber] ∧
    ∀ b r, Builder.Reached source b r →
      (∃ children, b.document.node? Document.rootNumber = some (.root children)) ∧
      (∀ t c, b.feed t = .ok (.ongoing c) →
        (c.document = b.document ∨ ∃ parent node container, b.stack.getLast? = some parent ∧
          b.document.node? parent = some container ∧ container.IsContainer ∧
          c.document = b.document.append parent node) ∧
        (c.stack = b.stack ∨ c.stack = b.stack ++ [b.document.size] ∨
          1 < b.stack.length ∧ c.stack = b.stack.dropLast)) ∧
      (r.pending = none → r.mode = .tag → Numeral.begins r.afterBlanks.rest →
        (r.afterBlanks.spanOf (Numeral.scan r.afterBlanks.rest).1.raw).FitsIn source ∧
        (r.afterBlanks.spanOf (Numeral.scan r.afterBlanks.rest).1.raw).slice source.toList =
          (Numeral.scan r.afterBlanks.rest).1.raw) := by
  refine ⟨?_, rfl, fun b r h => ⟨h.containers.1, fun t c hfeed => ⟨?_, ?_⟩, ?_⟩⟩
  · cases hparse : Document.parse source with
    | ok d => exact .inl ⟨d, rfl⟩
    | error e =>
      refine .inr ⟨e, rfl, ?_⟩
      rcases cause_of_parse_error hparse with
        ⟨cause, hcause, hlive⟩ | ⟨b, r, t, s, -, -, hrefuses⟩
      · rw [hcause]
        refine ⟨by simp, ?_, by simp⟩
        rintro ⟨⟩
        exact hlive rfl
      · refine ⟨hrefuses.cause_ne.1, hrefuses.cause_ne.2 _, fun expected found hcause => ?_⟩
        rcases hrefuses.expected hcause with rfl | rfl | rfl
        · decide
        · decide
        · decide
  · have hlast := b.getLast?_stack
    rcases (Builder.step_of_feed hfeed).document_eq with hsame | ⟨node, happend⟩
    · exact .inl hsame
    · obtain ⟨container, hnode, hcontainer⟩ :=
        h.containers.2 b.container (List.mem_of_getLast? hlast)
      exact .inr ⟨b.container, node, container, hlast, hnode, hcontainer, happend⟩
  · exact Builder.stack_feed hfeed
  · exact fun hpending _ _ => h.numeral_fitsIn hpending

end Template
