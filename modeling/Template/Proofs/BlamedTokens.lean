import Template.Proofs.Balance
import Template.Proofs.Lockstep

/-! An error of the grammar lies at a token of the first tag that is wrong. -/
namespace Template

open Token Piece

/-- The text for what was found instead of what the grammar asks for. -/
def ParseError.Cause.foundText? : Cause → Option String
  | .unexpected _ found | .badCounter found => some found.phrase
  | .badOperand found => some found.phrase
  | _ => none

/-- The kinds that the tag of a loop begins with. -/
def loopOpening (counter : Name) : List Kind :=
  [.tagOpen, .tagMark, .keyword .loop, .identifier counter.text]

/-- The cause describes a token of kind `kind`, behind tokens of its tag of kinds `front` and before
others of kinds `back`, up to where the tag is known to be wrong. -/
inductive ParseError.Cause.Blames : Cause → (front : List Kind) → Kind → (back : List Kind) → Prop
  | tagName {kind : Kind} (hkeyword : ∀ k, kind ≠ .keyword k)
      (hname : ∀ name, kind ≠ .identifier name) :
      Blames (.unexpected .tagName kind) [.tagOpen, .tagMark] kind []
  | unknownTag {name : String} :
      Blames (.unknownTag name) [.tagOpen, .tagMark] (.identifier name) []
  | counter {kind : Kind} (hname : ∀ name, kind ≠ .identifier name) :
      Blames (.badCounter kind) [.tagOpen, .tagMark, .keyword .loop] kind []
  | element {tag : ElementTag} {es : List Element} {kind : Kind} (hmark : kind ≠ .tagMark)
      (helement : ∀ e : Element, kind ≠ e.kind) :
      Blames (.unexpected .elementOrEnd kind) (tag.kinds ++ es.map Element.kind) kind []
  | endOfTag {kind : Kind} (hmark : kind ≠ .tagMark) :
      Blames (.unexpected .endOfTag kind) [.tagOpen, .tagMark, .keyword .endLoop] kind []
  /-- There is nothing between the name and the end of the tag. -/
  | emptyEcho : Blames .emptyEcho [.tagOpen, .tagMark] (.keyword .echo) [.tagMark, .tagClose]
  /-- All operands before this one are of the right sorts. -/
  | badOperand {counter : Name} {es es' : List Element} {e : Element}
      (hoperands : ∀ x ∈ es, x.isLoopOperand) (hbad : e.isLoopOperand = false) :
      Blames (.badOperand e) (loopOpening counter ++ es.map Element.kind) e.kind
        (es'.map Element.kind ++ [.tagMark, .tagClose])
  | loopSize {counter : Name} {es : List Element} (hoperands : ∀ x ∈ es, x.isLoopOperand)
      (htwo : es.length ≠ 2) (hthree : es.length ≠ 3) :
      Blames (.loopSize (es.length + 1)) (loopOpening counter ++ es.map Element.kind) .tagMark
        [.tagClose]
  | strayEnd : Blames .strayEnd [.tagOpen, .tagMark] (.keyword .endLoop) [.tagMark, .tagClose]
  | openLoops {count : Nat} : Blames (.openLoops count) [] .eof []

/-- The error is reported at one of the tokens, and its cause describes that one among them. -/
def ParseError.BlamesAmong (e : ParseError) (tokens : List Token) : Prop :=
  ∃ front t back, tokens = front ++ t :: back ∧ t.span.start = e.place ∧
    e.cause.Blames (front.map kind) t.kind (back.map kind)

/-- The tokens are those that a tag of elements begins with, its name at the place that is kept. -/
inductive ElementTag.Took : ElementTag → List Token → Prop
  | echo {opening : List Token} {name : Token} (hopening : opening.map kind = [.tagOpen, .tagMark])
      (hname : name.kind = .keyword .echo) : Took (.echo name.span.start) (opening ++ [name])
  | loop {opening : List Token} {counter : Name}
      (hopening : opening.map kind = loopOpening counter) : Took (.loop counter) opening

/-- The tokens are those that have been read of the tag, at the places that are kept. -/
inductive Stage.Took : Stage → List Token → Prop
  | between : Took .between []
  | afterBrace {front : List Token} (hfront : front.map kind = [.tagOpen]) : Took .afterBrace front
  | tagName {front : List Token} (hfront : front.map kind = [.tagOpen, .tagMark]) :
      Took .tagName front
  | loopCounter {front : List Token}
      (hfront : front.map kind = [.tagOpen, .tagMark, .keyword .loop]) : Took .loopCounter front
  | elements {tag : ElementTag} {read : Array (Element × Position)} {opening us : List Token}
      (hopening : tag.Took opening)
      (hread : us.map Token.mark = read.toList.map fun x => (x.1.kind, x.2)) :
      Took (.elements tag read) (opening ++ us)
  | closing {tag : ElementTag} {read : Array (Element × Position)} {opening us : List Token}
      {mark : Token} (hopening : tag.Took opening)
      (hread : us.map Token.mark = read.toList.map fun x => (x.1.kind, x.2))
      (hmark : mark.kind = .tagMark) :
      Took (.closing tag read mark.span.start) (opening ++ us ++ [mark])
  | endTag {opening : List Token} {name : Token}
      (hopening : opening.map kind = [.tagOpen, .tagMark])
      (hname : name.kind = .keyword .endLoop) : Took (.endTag name.span.start) (opening ++ [name])
  | closingEnd {opening : List Token} {name mark : Token}
      (hopening : opening.map kind = [.tagOpen, .tagMark])
      (hname : name.kind = .keyword .endLoop) (hmark : mark.kind = .tagMark) :
      Took (.closingEnd name.span.start) (opening ++ [name, mark])

/-- The builder has taken the tokens `before` of well-formed pieces and the tokens `front` of a tag.
Of the loops that the pieces open, those are open that they do not close. -/
structure Builder.Took (b : Builder) (ps : List Piece) (before front : List Token) : Prop where
  kinds : before.map kind = ps.flatMap Piece.kinds
  wellFormed : ∀ p ∈ ps, p.WellFormed
  covered : Covered ps
  balance : b.loops.length + closings ps = openings ps
  stage : b.stage.Took front

variable {source : String} {b c : Builder} {r : Reader} {t : Token} {e : ParseError}
  {ps : List Piece} {p : Piece} {before front : List Token} {stage stage' : Stage}
  {tag : ElementTag} {cause : ParseError.Cause} {ks ls : List Kind} {k : Kind}

theorem ElementTag.Took.begins (h : tag.Took front) : (Stage.elements tag #[]).Took front := by
  have helements : (Stage.elements tag #[]).Took (front ++ []) := .elements h rfl
  rwa [List.append_nil] at helements

theorem took_of_enters (h : stage.Took front) (henters : stage.Enters t stage') :
    stage'.Took (front ++ [t]) := by
  cases henters with
  | opening hkind =>
    cases h
    exact .afterBrace (by simp [hkind])
  | mark hkind =>
    cases h with
    | afterBrace hfront => exact .tagName (by simp [hfront, hkind])
  | loopName hkind =>
    cases h with
    | tagName hfront => exact .loopCounter (by simp [hfront, hkind])
  | echoName hkind =>
    cases h with
    | tagName hfront => exact (ElementTag.Took.echo hfront hkind).begins
  | endName hkind =>
    cases h with
    | tagName hfront => exact .endTag hfront hkind
  | @counter name hkind =>
    cases h with
    | loopCounter hfront =>
      have hopening : (front ++ [t]).map kind = loopOpening name := by
        simp [hfront, hkind, loopOpening]
      exact (ElementTag.Took.loop hopening).begins
  | element hkind =>
    cases h with
    | elements hopening hread =>
      rw [List.append_assoc]
      exact .elements hopening (by simp [hread, Token.mark, hkind])
  | closing hkind =>
    cases h with
    | elements hopening hread => exact .closing hopening hread hkind
  | closingEnd hkind =>
    cases h with
    | endTag hopening hname =>
      rw [List.append_assoc]
      exact .closingEnd hopening hname hkind

theorem kinds_of_marks {us : List Token} {read : List (Element × Position)}
    (h : us.map Token.mark = read.map fun x => (x.1.kind, x.2)) :
    us.map kind = (read.map (·.1)).map Element.kind := by
  rw [map_kind_of_marks h, List.map_map, List.map_map]
  rfl

/-- An element that has been read was read from one of the tokens. -/
theorem exists_token_of_marks {us : List Token} {good more : List (Element × Position)}
    {x : Element} {place : Position}
    (h : us.map Token.mark = (good ++ (x, place) :: more).map fun y => (y.1.kind, y.2)) :
    ∃ us₁ u us₂, us = us₁ ++ u :: us₂ ∧ u.span.start = place ∧ u.kind = x.kind ∧
      us₁.map kind = (good.map (·.1)).map Element.kind ∧
      us₂.map kind = (more.map (·.1)).map Element.kind := by
  rw [List.map_append, List.map_cons] at h
  obtain ⟨us₁, us₂, rfl, h₁, h₂⟩ := List.map_eq_append_iff.1 h
  obtain ⟨u, us₂, rfl, hu, h₂⟩ := List.map_eq_cons_iff.1 h₂
  obtain ⟨hkind, hplace⟩ := Prod.ext_iff.1 hu
  exact ⟨us₁, u, us₂, rfl, hplace, hkind, kinds_of_marks h₁, kinds_of_marks h₂⟩

theorem ElementTag.Took.kinds_eq (h : tag.Took front) : front.map kind = tag.kinds := by
  cases h with
  | echo hopening hname => simp [hopening, hname, ElementTag.kinds]
  | loop hopening => exact hopening

theorem Stage.Took.kinds_eq (h : stage.Took front) : front.map kind = stage.kinds := by
  cases h with
  | between => rfl
  | afterBrace hfront => exact hfront
  | tagName hfront => exact hfront
  | loopCounter hfront => exact hfront
  | elements hopening hread =>
    simp [Stage.kinds, hopening.kinds_eq, kinds_of_marks hread]
  | closing hopening hread hmark =>
    simp [Stage.kinds, hopening.kinds_eq, kinds_of_marks hread, hmark]
  | endTag hopening hname => simp [Stage.kinds, hopening, hname]
  | closingEnd hopening hname hmark => simp [Stage.kinds, hopening, hname, hmark]

namespace Builder

theorem took_initial : initial.Took [] [] [] where
  kinds := rfl
  wellFormed := by simp
  covered := covered_nil
  balance := rfl
  stage := .between

/-- The token that completes a piece. -/
theorem Took.piece (h : b.Took ps before front) (hp : p.WellFormed)
    (hkinds : b.stage.kinds ++ [t.kind] = p.kinds)
    (hloops : c.loops.length + p.closes.toNat = b.loops.length + p.opens.toNat)
    (hstage : c.stage = .between) : c.Took (ps ++ [p]) (before ++ front ++ [t]) [] := by
  have hbalance := h.balance
  have hnow : c.loops.length + closings (ps ++ [p]) = openings (ps ++ [p]) := by
    rw [openings_concat, closings_concat]
    omega
  refine ⟨?_, ?_, covered_concat_iff.2 ⟨h.covered, by omega⟩, hnow, hstage ▸ .between⟩
  · rw [List.map_append, List.map_append, h.kinds, h.stage.kinds_eq, List.append_assoc,
      List.map_singleton, hkinds, List.flatMap_append, List.flatMap_singleton]
  · exact List.forall_mem_append.2 ⟨h.wellFormed, List.forall_mem_singleton.2 hp⟩

/-- A token goes on in a tag or completes a piece. -/
theorem Took.step (h : b.Took ps before front) (hstep : b.Step t c) :
    ∃ ps' before' front', before' ++ front' = before ++ front ++ [t] ∧
      c.Took ps' before' front' := by
  cases hstep with
  | enter hstage =>
    refine ⟨ps, before, front ++ [t], (List.append_assoc ..).symm, h.kinds, h.wellFormed, h.covered,
      h.balance, took_of_enters h.stage hstage⟩
  | @text value hstage hkind =>
    refine ⟨_, _, [], List.append_nil _, h.piece (p := .text value) trivial ?_ rfl rfl⟩
    rw [hstage, hkind]
    rfl
  | @echo keyword mark read hstage hkind hread =>
    refine ⟨_, _, [], List.append_nil _,
      h.piece (p := .echo (read.toList.map (·.1))) (by simpa [Piece.WellFormed] using hread) ?_ rfl
        rfl⟩
    simp [hstage, hkind, Stage.kinds, ElementTag.kinds, Piece.kinds, echoKinds, tagKinds,
      Function.comp_def]
  | @loop counter mark read head hstage hkind hhead =>
    obtain ⟨rfl, hoperands, hwf⟩ := Loop.ofElements_eq_ok_iff.1 hhead
    refine ⟨_, _, [], List.append_nil _, h.piece (p := .loop head) hwf ?_ rfl rfl⟩
    simp [hstage, hkind, Stage.kinds, ElementTag.kinds, Piece.kinds, Loop.kinds, tagKinds,
      hoperands, Function.comp_def]
  | endLoop hstage hkind hloops =>
    refine ⟨_, _, [], List.append_nil _, h.piece (p := .endLoop) trivial ?_ ?_ rfl⟩
    · rw [hstage, hkind]
      rfl
    · rw [hloops]
      rfl

theorem Reached.took (h : Reached source b r) : ∃ ps before front,
    (Reader.ofSource source).Reads (before ++ front) r ∧
      (∀ t ∈ before ++ front, t.kind ≠ .eof) ∧ b.Took ps before front := by
  induction h with
  | start => exact ⟨[], [], [], .nil, by simp, took_initial⟩
  | @step b c r s t _ hnext hfeed ih =>
    obtain ⟨ps, before, front, hreads, hkinds, htook⟩ := ih
    have hstep := step_of_feed hfeed
    obtain ⟨ps', before', front', htokens, htook'⟩ := htook.step hstep
    refine ⟨ps', before', front', ?_, ?_, htook'⟩
    · rw [htokens]
      exact hreads.append (.cons hnext .nil)
    · rw [htokens, List.forall_mem_append, List.forall_mem_singleton]
      exact ⟨hkinds, hstep.kind_ne_eof⟩

theorem blamesAmong_refused (h : cause.Blames (front.map kind) t.kind []) :
    ParseError.BlamesAmong ⟨cause, t.span.start⟩ (front ++ [t]) :=
  ⟨front, t, [], rfl, rfl, h⟩

/-- A whole tag is refused for its name. -/
theorem blamesAmong_name {opening : List Token} {name mark : Token}
    (hopening : opening.map kind = [.tagOpen, .tagMark]) (hmark : mark.kind = .tagMark)
    (hkind : t.kind = .tagClose)
    (h : cause.Blames [.tagOpen, .tagMark] name.kind [.tagMark, .tagClose]) :
    ParseError.BlamesAmong ⟨cause, name.span.start⟩ (opening ++ [name, mark] ++ [t]) := by
  refine ⟨opening, name, [mark, t], by simp, rfl, ?_⟩
  rw [hopening, List.map_cons, List.map_singleton, hmark, hkind]
  exact h

/-- A loop is refused for the first token in it that was read as no operand. -/
theorem blamesAmong_badOperand {counter : Name} {read : Array (Element × Position)}
    {mark place : Position} {x : Element}
    (htook : (Stage.closing (.loop counter) read mark).Took front) (hkind : t.kind = .tagClose)
    (hfirst : read.toList.find? (!·.1.isLoopOperand) = some (x, place)) :
    ParseError.BlamesAmong ⟨.badOperand x, place⟩ (front ++ [t]) := by
  cases htook with
  | @closing _ _ opening us mark hopening hread hmark =>
    obtain ⟨hbad, good, more, hsplit, hgood⟩ := List.find?_eq_some_iff_append.1 hfirst
    rw [hsplit] at hread
    obtain ⟨us₁, u, us₂, rfl, hplace, hu, h₁, h₂⟩ := exists_token_of_marks hread
    have hoperands : ∀ y ∈ good.map (·.1), y.isLoopOperand := by
      simpa using hgood
    have hopening : opening.map kind = loopOpening counter := hopening.kinds_eq
    refine ⟨opening ++ us₁, u, us₂ ++ [mark, t], by simp, hplace, ?_⟩
    rw [List.map_append, List.map_append, hopening, h₁, hu, h₂, List.map_cons, List.map_singleton,
      hmark, hkind]
    exact .badOperand hoperands (by simpa using hbad)

/-- A loop with too few operands or too many is refused for the mark at its end. -/
theorem blamesAmong_loopSize {counter : Name} {read : Array (Element × Position)}
    {mark : Position} (htook : (Stage.closing (.loop counter) read mark).Took front)
    (hkind : t.kind = .tagClose) (hoperands : ∀ x ∈ read.toList, x.1.isLoopOperand)
    (htwo : read.size ≠ 2) (hthree : read.size ≠ 3) :
    ParseError.BlamesAmong ⟨.loopSize (read.size + 1), mark⟩ (front ++ [t]) := by
  cases htook with
  | @closing _ _ opening us mark hopening hread hmark =>
    have hopening : opening.map kind = loopOpening counter := hopening.kinds_eq
    have hlength : (read.toList.map (·.1)).length = read.size := by simp
    refine ⟨opening ++ us, mark, [t], by simp, rfl, ?_⟩
    rw [← hlength] at htwo hthree ⊢
    rw [List.map_append, hopening, kinds_of_marks hread, hmark, List.map_singleton, hkind]
    exact .loopSize (List.forall_mem_map.2 hoperands) htwo hthree

/-- What is refused is refused for a token of the tag. -/
theorem Refuses.blames (h : b.Refuses t e) (htook : b.stage.Took front) :
    e.BlamesAmong (front ++ [t]) := by
  have hkinds := htook.kinds_eq
  cases h with
  | tagName hstage hkeyword hname =>
    rw [hstage] at hkinds
    exact blamesAmong_refused (hkinds ▸ .tagName hkeyword hname)
  | unknownTag hstage hkind =>
    rw [hstage] at hkinds
    exact blamesAmong_refused (hkinds ▸ hkind ▸ .unknownTag)
  | counter hstage hname =>
    rw [hstage] at hkinds
    exact blamesAmong_refused (hkinds ▸ .counter hname)
  | @element tag read hstage hmark helement =>
    rw [hstage] at hkinds
    have hkinds : front.map kind = tag.kinds ++ (read.toList.map (·.1)).map Element.kind := by
      rw [hkinds, List.map_map]
      rfl
    exact blamesAmong_refused (hkinds ▸ .element hmark helement)
  | endOfTag hstage hmark =>
    rw [hstage] at hkinds
    exact blamesAmong_refused (hkinds ▸ .endOfTag hmark)
  | emptyEcho hstage hkind =>
    rw [hstage] at htook
    cases htook with
    | @closing _ _ _ us mark hopening hread hmark =>
      obtain rfl : us = [] := by simpa using hread
      cases hopening with
      | @echo opening name hopening hname =>
        have htokens : opening ++ [name] ++ [] ++ [mark] = opening ++ [name, mark] := by simp
        rw [htokens]
        exact blamesAmong_name hopening hmark hkind (hname ▸ .emptyEcho)
  | badOperand hstage hkind hfirst => exact blamesAmong_badOperand (hstage ▸ htook) hkind hfirst
  | loopSize hstage hkind hoperands htwo hthree =>
    exact blamesAmong_loopSize (hstage ▸ htook) hkind hoperands htwo hthree
  | strayEnd hstage hkind hloops =>
    rw [hstage] at htook
    cases htook with
    | closingEnd hopening hname hmark =>
      exact blamesAmong_name hopening hmark hkind (hname ▸ .strayEnd)
  | openLoops hstage hkind hloops =>
    rw [hstage] at hkinds
    exact blamesAmong_refused (hkinds ▸ hkind ▸ .openLoops)

/-- Loops are counted over all pieces before. -/
theorem Refuses.balance (h : b.Refuses t e) (htook : b.Took ps before front) :
    (e.cause = .strayEnd → openings ps = closings ps) ∧
      ∀ n, e.cause = .openLoops n → 0 < n ∧ openings ps = closings ps + n := by
  have hbalance := htook.balance
  refine ⟨fun hcause => ?_, fun n hcause => ?_⟩
  · cases h with
    | strayEnd _ _ hloops =>
      rw [hloops, List.length_nil, Nat.zero_add] at hbalance
      exact hbalance.symm
    | _ => cases hcause
  · cases h with
    | openLoops _ _ hloops =>
      cases hcause
      exact ⟨List.length_pos_iff.2 hloops, by omega⟩
    | _ => cases hcause

end Builder

/-- What is no operand is described alike as an element and as a token. -/
theorem Element.phrase_kind {e : Element} (h : e.isLoopOperand = false) :
    e.kind.phrase = e.phrase := by
  cases e with
  | function name => rfl
  | operator op => rfl
  | _ => cases h

/-- What is said to be found is the token. -/
theorem ParseError.Cause.Blames.foundText (h : cause.Blames ks k ls) :
    ∀ text ∈ cause.foundText?, text = k.phrase := by
  intro text htext
  cases h with
  | badOperand _ hbad =>
    cases htext
    exact (Element.phrase_kind hbad).symm
  | tagName =>
    cases htext
    rfl
  | counter =>
    cases htext
    rfl
  | element =>
    cases htext
    rfl
  | endOfTag =>
    cases htext
    rfl
  | _ => cases htext

theorem Reader.exists_tokens_of_next {s : Reader} (h : r.next = (.ok t, s)) :
    ∃ rest, r.run.tokens = t :: rest := by
  rw [run_of_token h]
  split
  · exact ⟨[], rfl⟩
  · exact ⟨s.run.tokens, rfl⟩

/-- An error of the grammar is reported where a token begins that its cause describes, in the first
tag that is wrong. The pieces before that are well-formed and close no more loops than they open. -/
theorem parse_blames_token (hparse : Document.parse source = .error e)
    (hgrammar : ∀ cause, e.cause ≠ .lexical cause) :
    ∃ ps before front t back rest,
      (Reader.ofSource source).run.tokens = before ++ front ++ t :: back ++ rest ∧
      before.map kind = ps.flatMap Piece.kinds ∧ (∀ p ∈ ps, p.WellFormed) ∧ Covered ps ∧
      t.span.start = e.place ∧ e.cause.Blames (front.map kind) t.kind (back.map kind) ∧
      (∀ text ∈ e.cause.foundText?, text = t.kind.phrase) ∧
      (e.cause = .strayEnd → openings ps = closings ps) ∧
      ∀ n, e.cause = .openLoops n → 0 < n ∧ openings ps = closings ps + n := by
  rcases cause_of_parse_error hparse with
    ⟨cause, hcause, -⟩ | ⟨b, r, t, s, hreached, hnext, hrefuses⟩
  · exact (hgrammar cause hcause).elim
  obtain ⟨ps, before, front, hreads, hkinds, htook⟩ := hreached.took
  obtain ⟨front', u, back, hsplit, hplace, hblames⟩ := hrefuses.blames htook.stage
  obtain ⟨rest, hrest⟩ := Reader.exists_tokens_of_next hnext
  refine ⟨ps, before, front', u, back, rest, ?_, htook.kinds, htook.wellFormed, htook.covered,
    hplace, hblames, hblames.foundText, hrefuses.balance htook⟩
  have hrun : (Reader.ofSource source).run.tokens = before ++ (front ++ [t]) ++ rest := by
    rw [Reader.run_of_reads hreads hkinds, hrest]
    simp
  rw [hrun, hsplit]
  simp

/-- A function among the operands of a loop, behind a text. -/
theorem parse_blames_token_function :
    ∃ t ∈ (Reader.ofSource "a\x7b$FOR i 1 @f$\x7d").run.tokens,
      Document.parse "a\x7b$FOR i 1 @f$\x7d" =
        .error ⟨.badOperand (.function ⟨"f", by decide⟩), ⟨11, 1, 12⟩⟩ ∧
      t.span.start = ⟨11, 1, 12⟩ ∧ t.kind.phrase = "function '@f'" := by
  have hparse : Document.parse "a\x7b$FOR i 1 @f$\x7d" =
      .error ⟨.badOperand (.function ⟨"f", by decide⟩), ⟨11, 1, 12⟩⟩ := by
    decide +kernel
  obtain ⟨ps, before, front, t, back, rest, hrun, -, -, -, hplace, -, hfound, -⟩ :=
    parse_blames_token hparse (by simp)
  refine ⟨t, ?_, hparse, hplace, (hfound _ rfl).symm⟩
  rw [hrun]
  simp

end Template
