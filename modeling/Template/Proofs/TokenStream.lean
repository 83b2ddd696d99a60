import Template.Proofs.ReaderPlaces
import Template.Proofs.Streams
import Template.Proofs.TagNames

/-! Every run gives the beginning of a stream, or all of it if it does not fail. -/
namespace Template

open Token Character

namespace Reader

/-- Where a reader stands in the stream behind tokens of these kinds. -/
inductive Behind (keep : Bool) : List Kind → Reader → Prop
  | between {tags : List Kind} {r : Reader} (htags : Tags keep tags) (text : Option String)
      (hpending : r.pending = none) (hmode : r.mode = .text) (htext : text.isSome → r.AtTag) :
      Behind keep (tags ++ textKinds text) r
  | opening {tags : List Kind} {r : Reader} (htags : Tags keep tags) (text : Option String)
      (hpending : ∃ t, r.pending = some t ∧ t.kind = .tagMark) (hmode : r.mode = .tag)
      (hfresh : r.freshTag) : Behind keep (tags ++ textKinds text ++ [.tagOpen]) r
  | inside {tags body : List Kind} {r : Reader} (htags : Tags keep tags) (text : Option String)
      (hbody : IsTagBody keep body) (hpending : r.pending = none) (hmode : r.mode = .tag)
      (hfresh : r.freshTag ↔ ∀ k ∈ body, k.isBlanks)
      (hblanks : (∃ k ∈ body.getLast?, k.isBlanks) → r.blanks = []) :
      Behind keep (tags ++ textKinds text ++ [.tagOpen, .tagMark] ++ body) r
  | closing {tags body : List Kind} {r : Reader} (htags : Tags keep tags) (text : Option String)
      (hbody : IsTagBody keep body) (hpending : ∃ t, r.pending = some t ∧ t.kind = .tagClose)
      (hmode : r.mode = .text) :
      Behind keep (tags ++ textKinds text ++ [.tagOpen, .tagMark] ++ body ++ [.tagMark]) r
  | finished {tags : List Kind} {r : Reader} (htags : Tags keep tags) (text : Option String)
      (hended : r.ended) (hmode : r.mode = .text) :
      Behind keep (tags ++ textKinds text ++ [.eof]) r

variable {keep : Bool} {ks before body : List Kind} {r s : Reader} {t u : Token}

theorem behind_ofSource (source : String) :
    Behind keep [] ((ofSource source).keepBlanks keep) :=
  .between .nil none rfl rfl (by rintro ⟨⟩)

theorem blanks_afterBlanks (r : Reader) : r.afterBlanks.blanks = [] := by
  rw [blanks, List.takeWhile_eq_nil_iff]
  intro hpos hblank
  exact List.dropWhile_get_zero_not isBlank r.rest hpos hblank

/-- Between tags, the next token is a text, the opening half of a tag or the end of input. -/
theorem behind_of_text {tags : List Kind} {text : Option String} (htags : Tags keep tags)
    (hpending : r.pending = none) (hmode : r.mode = .text) (htext : text.isSome → r.AtTag)
    (h : r.Step t s) (last : Option Token) :
    Behind keep (tags ++ textKinds text ++ [t.kind]) { s with last } := by
  cases h with
  | pending hsome => cases hpending.symm.trans hsome
  | eof => exact .finished htags text rfl hmode
  | opening => exact .opening htags text ⟨_, rfl, rfl⟩ rfl rfl
  | @text raw rest kind _ _ hne hends hlex =>
    obtain ⟨hkind, -, htag⟩ := Lexeme.ofText_eq_ok hne hends hlex
    cases text with
    | some v =>
      rcases (htext rfl).2.2 with hrest | hrest
      · exact (hne hrest).elim
      · exact (Bool.false_ne_true (hends.symm.trans hrest)).elim
    | none =>
      cases kind with
      | text v =>
        rw [textKinds, Option.toList_none, List.map_nil, List.append_nil]
        exact .between htags (some v) hpending hmode fun _ => ⟨hpending, hmode, htag⟩
      | _ => cases hkind
  | blanks _ htag => cases hmode.symm.trans htag
  | closing _ htag => cases hmode.symm.trans htag
  | inTag _ htag => cases hmode.symm.trans htag

theorem not_forall_isBlanks_concat (hk : k.isContent) : ¬ ∀ l ∈ body ++ [k], l.isBlanks := by
  intro h
  have hblanks := h k List.mem_concat_self
  rw [Kind.isBlanks_eq_false_of_isContent hk] at hblanks
  cases hblanks

/-- Inside a tag, the next token is content of it or the first half of its end. -/
theorem behind_of_tag {tags : List Kind} {text : Option String} (htags : Tags keep tags)
    (hbody : IsTagBody keep body) (hpending : r.pending = none) (hmode : r.mode = .tag)
    (hfresh : r.freshTag ↔ ∀ k ∈ body, k.isBlanks)
    (hblanks : (∃ k ∈ body.getLast?, k.isBlanks) → r.blanks = []) (hkeep : r.keepsBlanks = keep)
    (h : r.Step t s) (last : Option Token) :
    Behind keep (tags ++ textKinds text ++ [.tagOpen, .tagMark] ++ body ++ [t.kind])
      { s with last } := by
  cases h with
  | pending hsome => cases hpending.symm.trans hsome
  | eof _ htext => cases hmode.symm.trans htext
  | opening _ htext => cases hmode.symm.trans htext
  | text _ htext => cases hmode.symm.trans htext
  | blanks _ _ hkeeps hne =>
    have hbehind : ∀ l ∈ body.getLast?, l.isBlanks = false := by
      intro l hl
      rw [Bool.eq_false_iff]
      exact fun hblank => hne (hblanks ⟨l, hl, hblank⟩)
    have hbody' := hbody.concat_blanks (v := String.ofList r.blanks) (hkeep ▸ hkeeps) hbehind
    have hfresh' : r.freshTag ↔ ∀ k ∈ body ++ [.blanks (String.ofList r.blanks)], k.isBlanks := by
      rw [List.forall_mem_append, List.forall_mem_singleton]
      exact hfresh.trans (and_iff_left rfl).symm
    rw [List.append_assoc]
    exact .inside (r := { r.afterBlanks with last }) htags text hbody' hpending hmode hfresh'
      fun _ => r.blanks_afterBlanks
  | closing => exact .closing htags text hbody ⟨_, rfl, rfl⟩ rfl
  | @inTag raw rest kind _ _ hne hclose hlex =>
    obtain ⟨hcontent, -, hname⟩ := Lexeme.ofTag_eq_ok hlex
    have hkey : kind.isKeyword → ∀ l ∈ body, l.isBlanks := by
      intro hkey
      refine hfresh.1 ?_
      by_contra hstale
      cases kind with
      | keyword k => exact hname (by simpa using hstale) k rfl
      | _ => cases hkey
    have hblanks' : ¬ ∃ k ∈ (body ++ [kind]).getLast?, k.isBlanks := by
      simp [Kind.isBlanks_eq_false_of_isContent hcontent]
    rw [List.append_assoc]
    exact .inside (r := { r.afterBlanks.afterLexeme raw rest with last }) htags text
      (hbody.concat hcontent hkey) hpending hmode
      (iff_of_false Bool.false_ne_true (not_forall_isBlanks_concat hcontent))
      fun h => (hblanks' h).elim

theorem Step.eq_of_pending (hpending : r.pending = some u) (h : r.Step t s) :
    t = u ∧ s = { r with pending := none } := by
  cases h with
  | pending hsome => exact ⟨Option.some.inj (hsome.symm.trans hpending), rfl⟩
  | eof hnone => cases hnone.symm.trans hpending
  | opening hnone => cases hnone.symm.trans hpending
  | text hnone => cases hnone.symm.trans hpending
  | blanks hnone => cases hnone.symm.trans hpending
  | closing hnone => cases hnone.symm.trans hpending
  | inTag hnone => cases hnone.symm.trans hpending

theorem Behind.next (h : Behind keep ks r) (hkeep : r.keepsBlanks = keep)
    (hnext : r.next = (.ok t, s)) : Behind keep (ks ++ [t.kind]) s := by
  obtain ⟨hended, u, hstep, rfl⟩ := step_of_next hnext
  cases h with
  | between htags text hpending hmode htext =>
    exact behind_of_text htags hpending hmode htext hstep (some t)
  | opening htags text hpending hmode hfresh =>
    obtain ⟨u, hpending, hu⟩ := hpending
    obtain ⟨rfl, rfl⟩ := hstep.eq_of_pending hpending
    have hbehind := Behind.inside (r := { r with pending := none, last := some t }) htags text
      .nil rfl hmode (by simpa using hfresh) (by simp)
    rw [hu]
    simpa using hbehind
  | inside htags text hbody hpending hmode hfresh hblanks =>
    exact behind_of_tag htags hbody hpending hmode hfresh hblanks hkeep hstep (some t)
  | @closing tags body r htags text hbody hpending hmode =>
    obtain ⟨u, hpending, hu⟩ := hpending
    obtain ⟨rfl, rfl⟩ := hstep.eq_of_pending hpending
    have htags' := Tags.tag htags text hbody
    rw [hu]
    have hbehind := Behind.between (r := { r with pending := none, last := some t }) htags' none
      rfl hmode (by rintro ⟨⟩)
    simpa [textKinds, tagKinds] using hbehind
  | finished htags text hended' hmode => cases hended.symm.trans hended'

theorem keepsBlanks_of_next (h : r.next = (.ok t, s)) : s.keepsBlanks = r.keepsBlanks := by
  obtain ⟨-, u, hstep, rfl⟩ := step_of_next h
  cases hstep <;> rfl

/-- A reader that has given these tokens from the beginning on stands behind their kinds. -/
theorem Reads.behind {source : String} {ts : List Token}
    (h : ((ofSource source).keepBlanks keep).Reads ts s) :
    Behind keep (ts.map Token.kind) s ∧ s.keepsBlanks = keep := by
  induction ts using List.reverseRecOn generalizing s with
  | nil =>
    cases h
    exact ⟨behind_ofSource source, rfl⟩
  | append_singleton ts t ih =>
    obtain ⟨u, hts, hnext⟩ := h.of_concat
    obtain ⟨hbehind, hkeep⟩ := ih hts
    rw [List.map_append, List.map_singleton]
    exact ⟨hbehind.next hkeep hnext, (keepsBlanks_of_next hnext).trans hkeep⟩

/-- What has been given is the beginning of a stream, and all of one at the end of input. -/
theorem Behind.isStream (h : Behind keep ks r) : ∃ more, IsStream keep (ks ++ more) ∧
    (ks.getLast? = some .eof → more = []) := by
  cases h with
  | between htags text =>
    refine ⟨[.eof], .ends htags text, fun hlast => ?_⟩
    rcases getLast?_of_tags htags text _ hlast with hkind | hkind <;> cases hkind
  | opening htags text =>
    refine ⟨[.tagMark, .tagMark, .tagClose, .eof], ?_, fun hlast => ?_⟩
    · simpa [textKinds, tagKinds] using IsStream.ends (.tag htags text .nil) none
    · simp at hlast
  | inside htags text hbody =>
    refine ⟨[.tagMark, .tagClose, .eof], ?_, fun hlast => ?_⟩
    · simpa [textKinds, tagKinds] using IsStream.ends (.tag htags text hbody) none
    · exact (EndsInTag.getLast?_ne ⟨_, _, rfl, hbody.isInner⟩ (by simp) rfl hlast).elim
  | closing htags text hbody =>
    refine ⟨[.tagClose, .eof], ?_, fun hlast => ?_⟩
    · simpa [textKinds, tagKinds] using IsStream.ends (.tag htags text hbody) none
    · rw [List.getLast?_concat] at hlast
      cases hlast
  | finished htags text =>
    refine ⟨[], ?_, fun _ => rfl⟩
    simpa using IsStream.ends htags text

/-- A reader is in a tag behind the opening half of one, and until the closing half is next. -/
theorem Behind.mode_eq_tag_iff (h : Behind keep ks r) :
    r.mode = .tag ↔ ks.getLast? = some .tagOpen ∨ EndsInTag ks := by
  cases h with
  | between htags text _ hmode =>
    refine iff_of_false (by simp [hmode]) ?_
    rintro (hlast | htag)
    · rcases getLast?_of_tags htags text _ hlast with hkind | hkind <;> cases hkind
    · exact not_endsInTag_of_tags htags text htag
  | opening htags text _ hmode => exact iff_of_true hmode (.inl (by simp))
  | inside htags text hbody _ hmode =>
    exact iff_of_true hmode (.inr ⟨_, _, rfl, hbody.isInner⟩)
  | closing htags text hbody _ hmode =>
    refine iff_of_false (by simp [hmode]) ?_
    rw [List.getLast?_concat, endsInTag_concat_iff]
    rintro (hlast | ⟨-, hlast⟩ | ⟨hinner, -⟩)
    · cases hlast
    · exact EndsInTag.getLast?_ne ⟨_, _, rfl, hbody.isInner⟩ (by simp) rfl hlast
    · cases hinner
  | finished htags text hended hmode =>
    refine iff_of_false (by simp [hmode]) ?_
    rw [List.getLast?_concat, endsInTag_concat_iff]
    rintro (hlast | ⟨hkind, -⟩ | ⟨hinner, -⟩)
    · cases hlast
    · cases hkind
    · cases hinner

theorem Behind.endsInTag (h : Behind keep ks r) (hpending : r.pending = none)
    (hmode : r.mode = .tag) : EndsInTag ks := by
  rcases h.mode_eq_tag_iff.1 hmode with hlast | htag
  · cases h with
    | between htags text =>
      rcases getLast?_of_tags htags text _ hlast with hkind | hkind <;> cases hkind
    | opening _ _ hsome =>
      obtain ⟨t, ht, -⟩ := hsome
      cases hpending.symm.trans ht
    | inside htags text hbody => exact ⟨_, _, rfl, hbody.isInner⟩
    | closing _ _ _ hsome =>
      obtain ⟨t, ht, -⟩ := hsome
      cases hpending.symm.trans ht
    | finished _ _ _ htext => cases hmode.symm.trans htext
  · exact htag

/-- Where nothing but blanks has been given of a tag, a tag name may come next. -/
theorem Behind.freshTag (h : Behind keep (before ++ [.tagOpen, .tagMark] ++ body) r)
    (hbody : ∀ k ∈ body, k.isBlanks) : r.pending = none ∧ r.mode = .tag ∧ r.freshTag := by
  have hinner : ∀ k ∈ body, k.isInner := by
    intro k hk
    simp [Kind.isInner, hbody k hk]
  have hmode : r.mode = .tag := h.mode_eq_tag_iff.2 (.inr ⟨before, body, rfl, hinner⟩)
  generalize hks : before ++ [Kind.tagOpen, .tagMark] ++ body = ks at h
  have htag : EndsInTag ks := ⟨before, body, hks.symm, hinner⟩
  cases h with
  | between _ _ _ htext => cases hmode.symm.trans htext
  | opening => exact (htag.getLast?_ne (k := .tagOpen) (by simp) rfl (by simp)).elim
  | inside _ _ hbody' hpending _ hfresh =>
    obtain rfl := body_eq_of_append_eq hinner hbody'.isInner hks
    exact ⟨hpending, hmode, hfresh.2 hbody⟩
  | closing _ _ _ _ htext => cases hmode.symm.trans htext
  | finished _ _ _ htext => cases hmode.symm.trans htext

/-- The first token of a tag is a tag name exactly if one stands there, and it is all of that. -/
theorem Step.keyword_iff {source consumed : List Char} (hr : r.HasConsumed source consumed)
    (hpending : r.pending = none) (hmode : r.mode = .tag) (hfresh : r.freshTag) (h : r.Step t s)
    (ht : t.kind.isBlanks = false) (k : Keyword) :
    (t.kind = .keyword k ↔ k.StandsAt (dropBytes t.span.start.offset source)) ∧
      (t.kind = .keyword k →
        t.span.slice source = tagName (dropBytes t.span.start.offset source)) := by
  cases h with
  | pending hsome => cases hpending.symm.trans hsome
  | eof _ htext => cases hmode.symm.trans htext
  | opening _ htext => cases hmode.symm.trans htext
  | text _ htext => cases hmode.symm.trans htext
  | blanks => cases ht
  | closing _ _ hrest =>
    have hfront : dropBytes r.afterBlanks.position.offset source = _ :=
      hr.afterBlanks.dropBytes_eq.trans hrest
    simp only [spanOf, hfront]
    refine ⟨iff_of_false (by simp) ?_, by rintro ⟨⟩⟩
    intro hstands
    rcases hstands.head with heq | ⟨halpha, -⟩
    · cases heq
    · cases halpha
  | @inTag raw rest kind _ _ hne hclose hlex =>
    have happend := Lexeme.raw_append_ofTag r.freshTag r.afterBlanks.rest
    rw [hlex] at happend
    rw [hfresh] at hlex
    obtain ⟨hiff, hraw⟩ := Lexeme.ofTag_eq_keyword_iff hlex k
    have hslice := (hr.afterBlanks.covers raw).slice rest
    rw [List.append_assoc, happend, hr.afterBlanks.source_eq] at hslice
    have hfront : dropBytes (r.afterBlanks.spanOf raw).start.offset source = _ :=
      hr.afterBlanks.dropBytes_eq
    rw [hfront]
    exact ⟨hiff, fun hkind => hslice.trans (hraw hkind)⟩

/-- The tokens of a run are the beginning of a stream, and all of one if the run does not fail. The
first token of a tag is a tag name exactly if one stands there, and a reader is in a tag from the
opening half of one up to the closing one. -/
theorem token_stream (source : String) (keep : Bool) :
    let start := (ofSource source).keepBlanks keep
    (∃ ks, IsStream keep ks ∧ start.run.tokens.map Token.kind <+: ks ∧
      (start.run.failure = none → start.run.tokens.map Token.kind = ks)) ∧
    ∀ us t vs, start.run.tokens = us ++ t :: vs →
      (∀ before blanks, us.map Token.kind = before ++ [.tagOpen, .tagMark] ++ blanks →
        (∀ k ∈ blanks, k.isBlanks) → t.kind.isBlanks = false →
        ∀ k : Keyword,
          (t.kind = .keyword k ↔ k.StandsAt (dropBytes t.span.start.offset source.toList)) ∧
          (t.kind = .keyword k → t.span.slice source.toList =
            tagName (dropBytes t.span.start.offset source.toList))) ∧
      ∃ s, start.Reads (us ++ [t]) s ∧
        (s.mode = .tag ↔ t.kind = .tagOpen ∨ EndsInTag ((us ++ [t]).map Token.kind)) := by
  intro start
  refine ⟨?_, ?_⟩
  · obtain ⟨s, hreads, hend⟩ := start.reads_run
    obtain ⟨more, hstream, hmore⟩ := hreads.behind.1.isStream
    refine ⟨_, hstream, List.prefix_append _ _, fun hfailure => ?_⟩
    obtain ⟨ts, t, hts, ht⟩ := hend hfailure
    rw [hmore (by simp [hts, ht]), List.append_nil]
  · intro us t vs hrun
    obtain ⟨r, s, hus, hnext, hreads⟩ := reads_of_run_eq hrun
    refine ⟨?_, s, hreads, ?_⟩
    · intro before blanks hkinds hblanks ht k
      obtain ⟨given, held, hr⟩ := hus.standsAt (standsAt_start source keep)
      have hbehind := hus.behind.1
      rw [hkinds] at hbehind
      obtain ⟨hpending, hmode, hfresh⟩ := hbehind.freshTag hblanks
      obtain ⟨-, u, hstep, -⟩ := step_of_next hnext
      exact hstep.keyword_iff (hr.consumed_of_nothing hpending).2 hpending hmode hfresh ht k
    · rw [hreads.behind.1.mode_eq_tag_iff]
      simp

/-- A loop's tag, with its blanks kept. -/
theorem token_stream_loop :
    let run := ((ofSource "\x7b$ For$\x7d").keepBlanks true).run
    IsStream true (run.tokens.map Token.kind) ∧
      ∃ us t vs, run.tokens = us ++ t :: vs ∧
        us.map Token.kind = [.tagOpen, .tagMark, .blanks " "] ∧ t.kind = .keyword .loop ∧
        Keyword.loop.StandsAt ['F', 'o', 'r', '$', '\x7d'] ∧
        t.span.slice "\x7b$ For$\x7d".toList = ['F', 'o', 'r'] := by
  intro run
  have hrun : run = ⟨[⟨.tagOpen, ⟨⟨0, 1, 1⟩, 1⟩⟩, ⟨.tagMark, ⟨⟨1, 1, 2⟩, 2⟩⟩,
      ⟨.blanks " ", ⟨⟨2, 1, 3⟩, 3⟩⟩] ++ ⟨.keyword .loop, ⟨⟨3, 1, 4⟩, 6⟩⟩ ::
      [⟨.tagMark, ⟨⟨6, 1, 7⟩, 7⟩⟩, ⟨.tagClose, ⟨⟨7, 1, 8⟩, 8⟩⟩, ⟨.eof, ⟨⟨8, 1, 9⟩, 8⟩⟩],
      none⟩ := by
    decide +kernel
  obtain ⟨⟨ks, hstream, -, heq⟩, htokens⟩ := token_stream "\x7b$ For$\x7d" true
  have hkinds : run.tokens.map Token.kind = ks := heq (congrArg Run.failure hrun)
  obtain ⟨hname, -⟩ := htokens _ _ _ (congrArg Run.tokens hrun)
  obtain ⟨hiff, hslice⟩ := hname [] [.blanks " "] rfl (by simp [Kind.isBlanks]) rfl .loop
  exact ⟨hkinds ▸ hstream, _, _, _, congrArg Run.tokens hrun, rfl, rfl, hiff.1 rfl, hslice rfl⟩

end Reader

end Template
