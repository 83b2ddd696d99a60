import Template.Proofs.Balance
import Template.Proofs.Seams

/-! Parsing two sources, one behind the other. -/
namespace Template

open Token

namespace Content

/-- One content behind the other, with the texts at the seam made one. -/
def join : Content → Content → Content
  | nil, d => d
  | text value nil, text value' next => text (value ++ value') next
  | text value next, d => text value (next.join d)
  | echo elements next, d => echo elements (next.join d)
  | loop head body next, d => loop head body (next.join d)

variable {c d : Content} {value : String} {ks ls : List Kind}

theorem join_text (front next : Content) (value value' : String) :
    (front ++ text value nil).join (text value' next) = front ++ text (value ++ value') next := by
  induction front with
  | nil => rfl
  | text u rest ih =>
    rw [text_append, text_append, ← ih, join]
    intro _ _ _ hnil
    cases rest <;> cases hnil
  | echo elements rest ih => rw [echo_append, echo_append, ← ih, join]
  | loop head body rest _ ih => rw [loop_append, loop_append, ← ih, join]

/-- Where no two texts meet, nothing is made one. -/
theorem join_eq_append (h : (c.kinds ++ d.kinds).IsChain Kind.MayPrecede) : c.join d = c ++ d := by
  induction c with
  | nil => rfl
  | text value rest ih =>
    obtain ⟨hhead, htail⟩ := List.isChain_cons.1 h
    rw [text_append, ← ih htail, join]
    rintro value' next rfl rfl
    exact (Bool.false_ne_true (hhead _ rfl rfl).symm).elim
  | echo elements rest ih =>
    rw [kinds, List.append_assoc] at h
    rw [echo_append, ← ih h.right_of_append, join]
  | loop head body rest _ ih =>
    rw [kinds, List.append_assoc] at h
    rw [loop_append, ← ih h.right_of_append, join]

theorem wellFormed_join (hc : c.WellFormed) (hd : d.WellFormed) : (c.join d).WellFormed := by
  fun_induction join c d with
  | case1 => exact hd
  | case2 => exact hd
  | case3 value next d _ ih => exact ih hc hd
  | case4 elements next d ih => exact ⟨hc.1, ih hc.2 hd⟩
  | case5 head body next d ih => exact ⟨hc.1, hc.2.1, ih hc.2.2 hd⟩

theorem eq_nil_of_kinds (h : c.kinds = []) : c = nil := by
  cases c with
  | nil => rfl
  | text value next => cases h
  | echo elements next => cases h
  | loop head body next => cases h

theorem getLast?_tagKinds (before inner : List Kind) :
    (before ++ tagKinds inner).getLast? = some .tagClose := by
  rw [tagKinds, ← List.append_assoc, List.getLast?_append]
  rfl

theorem exists_of_tagKinds_concat {before inner : List Kind}
    (h : before ++ tagKinds inner ++ ls = ks ++ [.text value]) :
    ∃ ms, ls = ms ++ [.text value] ∧ ks = before ++ tagKinds inner ++ ms := by
  rcases ls.eq_nil_or_concat' with rfl | ⟨ms, k, rfl⟩
  · have hlast := congrArg List.getLast? h
    rw [List.append_nil, getLast?_tagKinds, List.getLast?_concat] at hlast
    cases hlast
  · rw [← List.append_assoc] at h
    obtain ⟨hks, hk⟩ := List.append_inj' h rfl
    cases hk
    exact ⟨ms, rfl, hks.symm⟩

theorem exists_of_kinds_cons (h : c.kinds ++ [.eof] = .text value :: ks) :
    ∃ next, c = text value next ∧ ks = next.kinds ++ [.eof] := by
  cases c with
  | nil => cases h
  | text u next =>
    cases h
    exact ⟨next, rfl, rfl⟩
  | echo elements next => cases h
  | loop head body next => cases h

theorem exists_of_kinds_concat (h : c.kinds = ks ++ [.text value]) :
    ∃ front, c = front ++ text value nil ∧ front.kinds = ks := by
  induction c generalizing ks with
  | nil => simp [kinds] at h
  | text u rest ih =>
    cases ks with
    | nil =>
      obtain ⟨hu, hrest⟩ := List.cons.inj h
      cases hu
      exact ⟨nil, by rw [eq_nil_of_kinds hrest, nil_append], rfl⟩
    | cons k ks =>
      obtain ⟨rfl, hrest⟩ := List.cons.inj h
      obtain ⟨front, rfl, rfl⟩ := ih hrest
      exact ⟨text u front, rfl, rfl⟩
  | echo elements rest ih =>
    rw [kinds, echoKinds, ← List.nil_append (tagKinds _)] at h
    obtain ⟨ms, hrest, rfl⟩ := exists_of_tagKinds_concat h
    obtain ⟨front, rfl, rfl⟩ := ih hrest
    exact ⟨echo elements front, rfl, rfl⟩
  | loop head body rest _ ih =>
    obtain ⟨ms, hrest, rfl⟩ := exists_of_tagKinds_concat h
    obtain ⟨front, rfl, rfl⟩ := ih hrest
    exact ⟨loop head body front, rfl, rfl⟩

end Content

section Kinds

variable {source more : String} {ks ls : List Kind}

theorem kinds_run_behind {r : Reader} (hline : 1 ≤ r.position.line) (before : List Char)
    (last : Option Token) :
    (r.behind before last).run.tokens.map Token.kind = r.run.tokens.map Token.kind := by
  rw [Reader.run_behind hline, List.map_map]
  rfl

/-- The kinds of two sources, one behind the other, with the texts at the seam made one. -/
theorem tokenKinds_append (hsource : tokenKinds source = .ok (ks ++ [.eof]))
    (hmore : tokenKinds more = .ok ls) (hseam : ¬ OpensTagAcross source more) :
    tokenKinds (source ++ more) = .ok (ks ++ ls) ∨
      ∃ ks' value value' ls', ks = ks' ++ [.text value] ∧ ls = .text value' :: ls' ∧
        tokenKinds (source ++ more) = .ok (ks' ++ .text (value ++ value') :: ls') := by
  obtain ⟨ts, eof, -, hrun, rfl, heof, -⟩ := exists_run_of_tokenKinds hsource
  obtain ⟨hfailure, rfl⟩ := tokenKinds_eq_ok_iff.1 hmore
  have hkinds : ∀ t ∈ ts, t.kind ≠ .eof := fun _ => Reader.kind_ne_eof_of_run hrun
  cases Reader.seam_of_run hrun heof hseam with
  | apart last hreads =>
    refine .inl (tokenKinds_eq_ok_iff.2 ?_)
    rw [Reader.run_of_reads hreads hkinds, List.map_append, kinds_run_behind (Nat.le_refl 1),
      Reader.run_behind (Nat.le_refl 1)]
    exact ⟨by rw [hfailure, Option.map_none], rfl⟩
  | @merged us t value r hts ht hreads hgoesOn =>
    subst hts
    generalize hnext : (Reader.ofSource more).next = x, hnext' : r.next = y at hgoesOn
    cases hgoesOn with
    | error e s s' =>
      rw [Reader.run_of_error hnext] at hfailure
      cases hfailure
    | @text t' u value' s last ht' hu =>
      have hline := Reader.line_pos_next (Nat.le_refl 1) hnext
      have hmore' := Reader.run_of_token hnext
      have hjoined := Reader.run_of_token hnext'
      rw [if_neg (by simp [ht'])] at hmore'
      rw [if_neg (by simp [hu])] at hjoined
      rw [hmore'] at hfailure ⊢
      refine .inr ⟨us.map Token.kind, value, value', s.run.tokens.map Token.kind,
        by rw [List.map_append, List.map_singleton, ht], by rw [List.map_cons, ht'],
        tokenKinds_eq_ok_iff.2 ?_⟩
      rw [Reader.run_of_reads hreads fun t ht => hkinds t (List.mem_append_left _ ht), hjoined,
        List.map_append, List.map_cons, hu, kinds_run_behind hline, Reader.run_behind hline]
      exact ⟨congrArg (Option.map _) hfailure, rfl⟩

/-- Only a text that comes last opens a tag with the other source. -/
theorem not_opensTagAcross (hsource : tokenKinds source = .ok (ks ++ [.eof]))
    (hlast : ∀ k ∈ ks.getLast?, k.isText = false) : ¬ OpensTagAcross source more := by
  rintro ⟨⟨ts, t, eof, before, hrun, -, htext, -⟩, -⟩
  have hkinds := (tokenKinds_eq_ok_iff.1 hsource).2
  rw [hrun, List.map_append, List.map_cons, List.map_singleton, List.append_cons] at hkinds
  obtain ⟨rfl, -⟩ := List.append_inj' hkinds rfl
  have hfalse := hlast t.kind (by rw [List.getLast?_concat]; rfl)
  exact Bool.false_ne_true (hfalse.symm.trans htext)

/-- An end of a loop begins with a brace of its own. -/
theorem not_opensTagAcross_end : ¬ OpensTagAcross source "\x7b$END$\x7d" := by
  rintro ⟨-, hmark⟩
  cases hmark

theorem tokenKinds_append_end (hsource : tokenKinds source = .ok (ks ++ [.eof])) :
    tokenKinds (source ++ "\x7b$END$\x7d") = .ok (ks ++ endKinds ++ [.eof]) := by
  have hend : tokenKinds "\x7b$END$\x7d" = .ok (endKinds ++ [.eof]) := by
    decide +kernel
  rcases tokenKinds_append hsource hend not_opensTagAcross_end with
    htokens | ⟨_, _, _, _, -, htext, -⟩
  · rw [htokens, List.append_assoc]
  · cases htext

end Kinds

section Parse

variable {source more : String} {ds dt : Document} {e : ParseError}

/-- The parts of both sources follow each other. -/
theorem parse_append_ok (hsource : Document.parse source = .ok ds)
    (hmore : Document.parse more = .ok dt) (hseam : ¬ OpensTagAcross source more) :
    ∃ c d : Content, ds = c.document ∧ dt = d.document ∧
      Document.parse (source ++ more) = .ok (c.join d).document := by
  obtain ⟨c, hc, rfl, hks⟩ := exists_content_of_parse hsource
  obtain ⟨d, hd, rfl, hls⟩ := exists_content_of_parse hmore
  refine ⟨c, d, rfl, rfl, parse_of_tokenKinds (Content.wellFormed_join hc hd) ?_⟩
  rcases tokenKinds_append hks hls hseam with htokens | ⟨ks, value, value', ls, hc', hd', htokens⟩
  · obtain ⟨-, hchain, -⟩ := Reader.sound_run (Reader.settled_ofSource (source ++ more))
    rw [(tokenKinds_eq_ok_iff.1 htokens).2, ← List.append_assoc] at hchain
    rw [htokens, Content.join_eq_append hchain.left_of_append, Content.kinds_append,
      List.append_assoc]
  · obtain ⟨front, rfl, rfl⟩ := Content.exists_of_kinds_concat hc'
    obtain ⟨next, rfl, rfl⟩ := Content.exists_of_kinds_cons hd'
    rw [htokens, Content.join_text, Content.kinds_append, List.append_assoc]
    rfl

/-- An error in the second source is reported behind the first. -/
theorem parse_append_error (hsource : Document.parse source = .ok ds)
    (hmore : Document.parse more = .error e) (hseam : ¬ OpensTagAcross source more) :
    Document.parse (source ++ more) = .error ⟨e.cause, e.place.behind source.toList⟩ := by
  obtain ⟨c, hc, -, htokens⟩ := exists_content_of_parse hsource
  obtain ⟨ts, eof, -, hrun, hts, heof, -⟩ := exists_run_of_tokenKinds htokens
  cases Reader.seam_of_run hrun heof hseam with
  | apart last hreads =>
    have hfeed := Builder.feedAll_content [] .nil hc hts
    have hmirrors : Builder.Mirrors source.toList .initial
        (Builder.inside [] (.nil ++ c) .between) := ⟨rfl, rfl⟩
    rw [parse_of_reads hreads, Builder.initial_eq, hfeed]
    exact Builder.feedFrom_behind hmirrors (Nat.le_refl 1) hmore
  | @merged us t value r hus ht hreads hgoesOn =>
    subst hus
    rw [List.map_append, List.map_singleton, ht] at hts
    obtain ⟨front, rfl, hfront⟩ := Content.exists_of_kinds_concat hts.symm
    have hfeed := Builder.feedAll_content [] .nil (Content.wellFormed_append.1 hc).1 hfront.symm
    rw [parse_of_reads hreads, Builder.initial_eq, hfeed]
    rw [Document.parse] at hmore
    generalize hnext : (Reader.ofSource more).next = x, hnext' : r.next = y at hgoesOn
    cases hgoesOn with
    | error e' s s' =>
      rw [Builder.feedFrom_of_error hnext] at hmore
      cases hmore
      exact Builder.feedFrom_of_error hnext'
    | @text t' u value' s last ht' hu =>
      have hfirst := Builder.feed_of_step (.text (b := .initial) rfl ht')
      have hjoined := Builder.feed_of_step
        (.text (b := .inside [] (.nil ++ front) .between) rfl hu)
      have hmirrors : Builder.Mirrors source.toList (Builder.initial.addLeaf (.text value'))
          ((Builder.inside [] (.nil ++ front) .between).addLeaf (.text (value ++ value'))) :=
        ⟨rfl, rfl⟩
      rw [Builder.feedFrom_of_token hnext, hfirst] at hmore
      simp only [Builder.feedFrom_of_token hnext', hjoined]
      exact Builder.feedFrom_behind hmirrors (Reader.line_pos_next (Nat.le_refl 1) hnext) hmore

/-- What parses by itself parses in a loop that is put around it. -/
theorem parse_enclosed {opening body : String} {head : Loop} {d : Document} (hhead : head.WellFormed)
    (hopening : tokenKinds opening = .ok (head.kinds ++ [.eof]))
    (hbody : Document.parse body = .ok d) :
    ∃ c : Content, d = c.document ∧ Document.parse (opening ++ body ++ "\x7b$END$\x7d") =
      .ok (Content.loop head c .nil).document := by
  obtain ⟨c, hc, rfl, hkinds⟩ := exists_content_of_parse hbody
  refine ⟨c, rfl, parse_of_tokenKinds ⟨hhead, hc, trivial⟩ ?_⟩
  have hlast : head.kinds.getLast? = some .tagClose := Content.getLast?_tagKinds [] _
  have hfront : tokenKinds (opening ++ body) = .ok (head.kinds ++ c.kinds ++ [.eof]) := by
    have hseam : ¬ OpensTagAcross opening body := by
      refine not_opensTagAcross hopening ?_
      rw [hlast]
      rintro k ⟨⟩
      rfl
    rcases tokenKinds_append hopening hkinds hseam with htokens | ⟨ks, _, _, _, htext, -⟩
    · rw [htokens, List.append_assoc]
    · rw [htext, List.getLast?_concat] at hlast
      cases hlast
  rw [tokenKinds_append_end hfront]
  simp [Content.kinds]

/-- Parsing two sources, one behind the other, gives the parts of the first and then those of the
second, where two texts that meet are one. An error in the second source is the same, with its place
moved behind the first. Both hold unless the sources meet in the opening of a tag. And what parses by
itself is the body of a loop when the loop's tags are put around it. -/
theorem parse_append :
    (∀ (source more : String) (ds : Document), Document.parse source = .ok ds →
      ¬ OpensTagAcross source more →
      (∀ dt, Document.parse more = .ok dt → ∃ c d : Content, ds = c.document ∧ dt = d.document ∧
        Document.parse (source ++ more) = .ok (c.join d).document) ∧
      (∀ e, Document.parse more = .error e →
        Document.parse (source ++ more) = .error ⟨e.cause, e.place.behind source.toList⟩)) ∧
    (∀ (opening body : String) (head : Loop) (d : Document), head.WellFormed →
      tokenKinds opening = .ok (head.kinds ++ [.eof]) → Document.parse body = .ok d →
      ∃ c : Content, d = c.document ∧ Document.parse (opening ++ body ++ "\x7b$END$\x7d") =
        .ok (Content.loop head c .nil).document) := by
  refine ⟨?_, ?_⟩
  · intro source more ds hsource hseam
    refine ⟨?_, ?_⟩
    · intro dt hmore
      exact parse_append_ok hsource hmore hseam
    · intro e hmore
      exact parse_append_error hsource hmore hseam
  · intro opening body head d hhead hopening hbody
    exact parse_enclosed hhead hopening hbody

/-- A brace that is escaped and a mark, an error behind a line end, and a loop around a text. -/
theorem parse_append_escaped :
    Document.parse ("\\\x7b" ++ "$") = .ok (Content.text "\x7b$" .nil).document ∧
    Document.parse ("a\n b" ++ "\x7b$END$\x7d") = .error ⟨.strayEnd, ⟨6, 2, 5⟩⟩ ∧
    Document.parse ("\x7b$FOR i 1 2$\x7d" ++ "a" ++ "\x7b$END$\x7d") =
      .ok (Content.loop ⟨⟨"i", by decide⟩, .int 1, .int 2, none⟩ (.text "a" .nil) .nil).document := by
  obtain ⟨hpair, hloop⟩ := parse_append
  refine ⟨?_, ?_, ?_⟩
  · have hbrace : Document.parse "\\\x7b" = .ok (Content.text "\x7b" .nil).document := by
      decide +kernel
    have hmark : Document.parse "$" = .ok (Content.text "$" .nil).document := by
      decide +kernel
    have hrun : (Reader.ofSource "\\\x7b").run.tokens =
        [⟨.text "\x7b", ⟨⟨0, 1, 1⟩, 2⟩⟩, ⟨.eof, ⟨⟨2, 1, 3⟩, 2⟩⟩] := by
      decide +kernel
    have hseam : ¬ OpensTagAcross "\\\x7b" "$" := by
      rintro ⟨⟨ts, t, eof, before, htokens, -, -, hslice, hescapes⟩, -⟩
      rw [hrun, ← List.nil_append [_, _]] at htokens
      cases (List.append_inj' htokens rfl).2
      have hsplit : ['\\'] ++ ['{'] = before ++ ['{'] := hslice
      obtain rfl := (List.append_inj' hsplit rfl).1
      exact hescapes (by decide)
    obtain ⟨c, d, hc, hd, hparse⟩ := (hpair _ _ _ hbrace hseam).1 _ hmark
    rw [hparse, ← Content.document_injective hc, ← Content.document_injective hd]
    rfl
  · have htext : Document.parse "a\n b" = .ok (Content.text "a\n b" .nil).document := by
      decide +kernel
    have hstray : Document.parse "\x7b$END$\x7d" = .error ⟨.strayEnd, ⟨2, 1, 3⟩⟩ := by
      decide +kernel
    have hseam : ¬ OpensTagAcross "a\n b" "\x7b$END$\x7d" := by
      rintro ⟨-, hmark⟩
      cases hmark
    exact (hpair _ _ _ htext hseam).2 _ hstray
  · have hhead : Loop.WellFormed ⟨⟨"i", by decide⟩, .int 1, .int 2, none⟩ := by
      simp [Loop.WellFormed, Loop.operands, Element.isLoopOperand]
    have hopening : tokenKinds "\x7b$FOR i 1 2$\x7d" =
        .ok (Loop.kinds ⟨⟨"i", by decide⟩, .int 1, .int 2, none⟩ ++ [.eof]) := by
      decide +kernel
    have hbody : Document.parse "a" = .ok (Content.text "a" .nil).document := by
      decide +kernel
    obtain ⟨c, hc, hparse⟩ := hloop _ _ _ _ hhead hopening hbody
    rw [hparse, ← Content.document_injective hc]

/-- Both sources parse, but a tag opens where they meet. -/
example : Document.parse ("\x7b" ++ "$") = .error ⟨.lexical .openTag, ⟨2, 1, 3⟩⟩ := by
  decide +kernel

end Parse

end Template
