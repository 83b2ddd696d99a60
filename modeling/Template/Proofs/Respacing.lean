import Template.Proofs.Following
import Template.Proofs.Seams
import Template.Proofs.Spelling

/-! Other blanks in tags make no difference to the document. -/
namespace Template

open String Token Character

/-- Blanks to stand before some of the tokens, by the numbers of these, in place of what does. -/
abbrev Respacing := Nat → Option (List Char)

namespace Respacing

variable (f : Respacing)

/-- There are blanks in each place, and it lies between the tokens of a tag. -/
def Fits (ks : List Kind) : Prop :=
  ∀ n gap, f n = some gap → gap ≠ [] ∧ (∀ c ∈ gap, isBlank c) ∧ EndsInTag (ks.take n)

/-- The characters of the tokens from number `n` on, where the one before ends at the byte `stop`:
each behind the characters between it and the one before, or behind those that take their place. -/
def applyFrom (source : List Char) (n stop : Nat) : List Token → List Char
  | [] => []
  | t :: ts =>
    (f n).getD (takeBytes (t.span.start.offset - stop) (dropBytes stop source)) ++
      (t.span.slice source ++ applyFrom source (n + 1) t.span.stop ts)

/-- The source with other blanks before some of its tokens. -/
def apply (source : String) : String :=
  String.ofList (f.applyFrom source.toList 0 0 (Reader.ofSource source).run.tokens)

end Respacing

/-- Two texts that differ in the blanks of their tags, and the kinds that both are read as, in a
mode. Where there are blanks in the first there are some in the second. -/
inductive Respaces : Mode → Bool → List Kind → List Char → List Char → Prop
  | ends : Respaces .text false [.eof] [] []
  | text {raw rest rest' : List Char} {kind : Kind} {ks : List Kind} (hne : raw ++ rest ≠ [])
      (hends : Escape.text.ends (raw ++ rest) = false)
      (hlex : Lexeme.ofText (raw ++ rest) = ⟨raw, rest, .ok kind⟩)
      (h : Respaces .text false ks rest rest') :
      Respaces .text false (kind :: ks) (raw ++ rest) (raw ++ rest')
  | opening {rest rest' : List Char} {ks : List Kind} (h : Respaces .tag true ks rest rest') :
      Respaces .text false (.tagOpen :: .tagMark :: ks) ('{' :: '$' :: rest) ('{' :: '$' :: rest')
  | closing {gap gap' rest rest' : List Char} {fresh : Bool} {ks : List Kind}
      (hgap : ∀ c ∈ gap, isBlank c) (hgap' : ∀ c ∈ gap', isBlank c) (hnil : gap' = [] → gap = [])
      (h : Respaces .text false ks rest rest') :
      Respaces .tag fresh (.tagMark :: .tagClose :: ks) (gap ++ '$' :: '}' :: rest)
        (gap' ++ '$' :: '}' :: rest')
  | inTag {gap gap' raw rest rest' : List Char} {fresh : Bool} {kind : Kind} {ks : List Kind}
      (hgap : ∀ c ∈ gap, isBlank c) (hgap' : ∀ c ∈ gap', isBlank c) (hnil : gap' = [] → gap = [])
      (hlex : Lexeme.ofTag fresh (raw ++ rest) = ⟨raw, rest, .ok kind⟩)
      (hkind : ∀ c, kind ≠ .other c) (h : Respaces .tag false ks rest rest') :
      Respaces .tag fresh (kind :: ks) (gap ++ (raw ++ rest)) (gap' ++ (raw ++ rest'))

/-- With the respacing, the tokens of a reader at this place are made from characters that differ
from the reader's own in the blanks of tags. -/
def Respacing.Leads (f : Respacing) (source : List Char) (n : Nat) (r : Reader)
    (given held : List Char) (ts : List Token) : Prop :=
  ∃ ks cs, ts.map Token.kind = r.pending.toList.map Token.kind ++ ks ∧
    f.applyFrom source n (utf8Len given) ts = held ++ cs ∧
    Respaces r.mode r.freshTag ks r.rest cs

/-- From where the reader stands, the tokens lead on from `t` if they do behind it, from where `s`
stands. -/
def Respacing.LeadsOver (f : Respacing) (source : List Char) (n : Nat) (r : Reader)
    (given held : List Char) (t : Token) (s : Reader) : Prop :=
  ∃ given' held', s.StandsAt source given' held' ∧
    ∀ ts, f.Leads source (n + 1) s given' held' ts → f.Leads source n r given held (t :: ts)

variable {raw rest rest' gap gap' given held source : List Char} {fresh : Bool} {ks : List Kind}
  {mode : Mode} {f : Respacing} {n : Nat} {r s : Reader} {t : Token} {ts us : List Token}

namespace Respacing

/-- A token and what stands before it, in front of the tokens that follow. -/
theorem applyFrom_cons (f : Respacing) (n : Nat) (ts : List Token)
    (hcovers : t.span.Covers (given ++ gap) raw)
    (hs : s.StandsAt source (given ++ gap ++ raw) held) :
    f.applyFrom source n (utf8Len given) (t :: ts) =
      (f n).getD gap ++ (raw ++ f.applyFrom source (n + 1) (utf8Len (given ++ gap ++ raw)) ts) := by
  have hsource : given ++ gap ++ raw ++ (held ++ s.rest) = source := by
    rw [← List.append_assoc, hs.consumed.source_eq]
  have hgap : takeBytes (t.span.start.offset - utf8Len given)
      (dropBytes (utf8Len given) source) = gap := by
    rw [hcovers.start.offset, ← hsource, List.append_assoc (given ++ gap), takeBytes_between]
  have hslice : t.span.slice source = raw := by
    rw [← hsource, hcovers.slice]
  rw [applyFrom, hgap, hslice, hcovers.stop]

/-- A token of a reader with nothing pending, in front of the tokens that follow. -/
theorem Leads.cons (hpending : r.pending = none) (hcovers : t.span.Covers (given ++ gap) raw)
    (hs : s.StandsAt source (given ++ gap ++ raw) held)
    (hstep : ∀ ks cs, Respaces s.mode s.freshTag ks s.rest cs →
      Respaces r.mode r.freshTag (t.kind :: (s.pending.toList.map Token.kind ++ ks)) r.rest
        ((f n).getD gap ++ (raw ++ (held ++ cs))))
    (h : f.Leads source (n + 1) s (given ++ gap ++ raw) held ts) :
    f.Leads source n r given [] (t :: ts) := by
  obtain ⟨ks, cs, hks, hcs, hrespaces⟩ := h
  refine ⟨_, _, ?_, ?_, hstep ks cs hrespaces⟩
  · rw [hpending, List.map_cons, hks]
    rfl
  · rw [f.applyFrom_cons n ts hcovers hs, hcs]
    rfl

end Respacing

namespace Reader

/-- Without other blanks the characters of the tokens are those that a reader goes through. -/
theorem Reads.applyFrom_none (h : r.Reads ts s) (hr : r.StandsAt source given held) (n : Nat) :
    ∃ held', s.StandsAt source
      (given ++ Respacing.applyFrom (fun _ => none) source n (utf8Len given) ts) held' := by
  induction h generalizing given held n with
  | nil => exact ⟨held, by rwa [Respacing.applyFrom, List.append_nil]⟩
  | @cons r s u t ts hnext hrest ih =>
    obtain ⟨gap, raw, held', hcontinues, hs⟩ := standsAt_of_next_ok hr hnext
    obtain ⟨held'', hu⟩ := ih hs (n + 1)
    refine ⟨held'', ?_⟩
    rw [Respacing.applyFrom_cons _ n ts hcontinues.covers hs]
    simpa using hu

theorem blanks_append_rest (r : Reader) : r.blanks ++ r.afterBlanks.rest = r.rest :=
  List.takeWhile_append_dropWhile

/-- The tokens end inside a tag where the reader stands in one and has nothing pending. -/
theorem Behind.endsInTag_iff {keep : Bool} (h : Behind keep ks r) :
    EndsInTag ks ↔ r.pending = none ∧ r.mode = .tag := by
  refine ⟨fun htag => ?_, fun hr => h.endsInTag hr.1 hr.2⟩
  have hmode := h.mode_eq_tag_iff.2 (.inr htag)
  refine ⟨?_, hmode⟩
  cases h with
  | between _ _ hpending => exact hpending
  | opening => exact (htag.getLast?_ne (k := .tagOpen) (by simp) rfl (by simp)).elim
  | inside _ _ _ hpending => exact hpending
  | closing _ _ _ _ htext => cases hmode.symm.trans htext
  | finished _ _ _ htext => cases hmode.symm.trans htext

/-- What is to stand before the next token is blank, and there is some where some was before. -/
theorem blank_getD (hf : ∀ gap, f n = some gap → gap ≠ [] ∧ ∀ c ∈ gap, isBlank c) (r : Reader) :
    (∀ c ∈ (f n).getD r.blanks, isBlank c) ∧ ((f n).getD r.blanks = [] → r.blanks = []) := by
  cases hgap : f n with
  | none => exact ⟨fun _ => isBlank_of_mem_blanks, id⟩
  | some gap =>
    obtain ⟨hne, hblank⟩ := hf gap hgap
    exact ⟨hblank, fun hnil => (hne hnil).elim⟩

/-- Other blanks may stand before the next token only in a tag and with nothing pending. -/
theorem Reads.pending_of_fits {source : String} (h : (ofSource source).Reads us r)
    (hf : f.Fits ((us ++ ts).map Token.kind)) (hsome : f us.length ≠ none) :
    r.pending = none ∧ r.mode = .tag := by
  have hkept : ((ofSource source).keepBlanks false).Reads us r := h
  obtain ⟨gap, hgap⟩ := Option.ne_none_iff_exists'.1 hsome
  obtain ⟨-, -, htag⟩ := hf _ gap hgap
  rw [List.map_append, List.take_left' (List.length_map _)] at htag
  exact hkept.behind.1.endsInTag_iff.1 htag

/-- The second half of a delimiter stands at once behind the first, which has been read with it. -/
theorem leadsOver_pending (hr : r.StandsAt source given held) (hpending : r.pending = some t)
    (hnone : f n = none) : f.LeadsOver source n r given held t { r with pending := none } := by
  obtain ⟨hcovers, -, -⟩ := hr.pending t hpending
  rw [← List.append_nil given] at hcovers
  have hs : ({ r with pending := none } : Reader).StandsAt source (given ++ [] ++ held) [] := by
    rw [List.append_nil]
    exact HasConsumed.standsAt ⟨hr.consumed.source_eq, hr.consumed.position⟩ rfl
  refine ⟨_, _, hs, ?_⟩
  rintro ts ⟨ks, cs, hks, hcs, hrespaces⟩
  refine ⟨ks, cs, ?_, ?_, hrespaces⟩
  · rw [hpending, List.map_cons, hks]
    rfl
  · rw [f.applyFrom_cons n ts hcovers hs, hnone, hcs]
    rfl

section

variable (hr : r.HasConsumed source given) (hpending : r.pending = none)
include hr hpending

theorem leadsOver_opening (hmode : r.mode = .text) (hfresh : r.freshTag = false)
    (hrest : r.rest = '{' :: '$' :: rest) (hnone : f n = none) :
    f.LeadsOver source n r given [] ⟨.tagOpen, r.spanOf ['{']⟩
      (r.afterDelimiter ('{', .tagOpen) ('$', .tagMark) rest .tag) := by
  have hcovers := hr.covers ['{']
  have hs : (r.afterDelimiter ('{', .tagOpen) ('$', .tagMark) rest .tag).StandsAt source
      (given ++ ['{']) ['$'] := hr.afterDelimiter hrest (by simp)
  rw [← List.append_nil given] at hcovers hs
  refine ⟨_, _, hs, fun ts => Respacing.Leads.cons hpending hcovers hs fun ks cs hrespaces => ?_⟩
  rw [hnone, hmode, hfresh, hrest]
  exact .opening hrespaces

theorem leadsOver_text {kind : Kind} (hmode : r.mode = .text) (hfresh : r.freshTag = false)
    (hne : r.rest ≠ []) (hends : Escape.text.ends r.rest = false)
    (hlex : Lexeme.ofText r.rest = ⟨raw, rest, .ok kind⟩) (hnone : f n = none) :
    f.LeadsOver source n r given [] ⟨kind, r.spanOf raw⟩ (r.afterLexeme raw rest) := by
  have happend := Lexeme.raw_append_ofText r.rest
  rw [hlex] at happend
  have hcovers := hr.covers raw
  have hs := (hr.afterLexeme happend).standsAt hpending
  rw [← List.append_nil given] at hcovers hs
  refine ⟨_, _, hs, fun ts => Respacing.Leads.cons hpending hcovers hs fun ks cs hrespaces => ?_⟩
  have hnothing : (r.afterLexeme raw rest).pending = none := hpending
  have htext : (r.afterLexeme raw rest).mode = .text := hmode
  rw [htext] at hrespaces
  rw [hnone, hmode, hfresh, hnothing]
  rw [← happend] at hne hends hlex ⊢
  exact .text hne hends hlex hrespaces

theorem leadsOver_closing (hmode : r.mode = .tag) (hrest : r.afterBlanks.rest = '$' :: '}' :: rest)
    (hf : ∀ gap, f n = some gap → gap ≠ [] ∧ ∀ c ∈ gap, isBlank c) :
    f.LeadsOver source n r given [] ⟨.tagMark, r.afterBlanks.spanOf ['$']⟩
      (r.afterBlanks.afterDelimiter ('$', .tagMark) ('}', .tagClose) rest .text) := by
  obtain ⟨hblank, hnil⟩ := blank_getD hf r
  have hcovers := hr.afterBlanks.covers ['$']
  have hs : (r.afterBlanks.afterDelimiter ('$', .tagMark) ('}', .tagClose) rest .text).StandsAt
      source (given ++ r.blanks ++ ['$']) ['}'] := hr.afterBlanks.afterDelimiter hrest (by simp)
  refine ⟨_, _, hs, fun ts => Respacing.Leads.cons hpending hcovers hs fun ks cs hrespaces => ?_⟩
  rw [hmode, ← r.blanks_append_rest, hrest]
  exact .closing (fun _ => isBlank_of_mem_blanks) hblank hnil hrespaces

theorem leadsOver_inTag {kind : Kind} (hmode : r.mode = .tag)
    (hlex : Lexeme.ofTag r.freshTag r.afterBlanks.rest = ⟨raw, rest, .ok kind⟩)
    (hkind : ∀ c, kind ≠ .other c)
    (hf : ∀ gap, f n = some gap → gap ≠ [] ∧ ∀ c ∈ gap, isBlank c) :
    f.LeadsOver source n r given [] ⟨kind, r.afterBlanks.spanOf raw⟩
      (r.afterBlanks.afterLexeme raw rest) := by
  obtain ⟨hblank, hnil⟩ := blank_getD hf r
  have happend := Lexeme.raw_append_ofTag r.freshTag r.afterBlanks.rest
  rw [hlex] at happend
  have hcovers := hr.afterBlanks.covers raw
  have hs := (hr.afterBlanks.afterLexeme happend).standsAt hpending
  refine ⟨_, _, hs, fun ts => Respacing.Leads.cons hpending hcovers hs fun ks cs hrespaces => ?_⟩
  have hnothing : (r.afterBlanks.afterLexeme raw rest).pending = none := hpending
  have htag : (r.afterBlanks.afterLexeme raw rest).mode = .tag := hmode
  rw [htag] at hrespaces
  rw [hmode, ← r.blanks_append_rest, hnothing]
  rw [← happend] at hlex ⊢
  exact .inTag (fun _ => isBlank_of_mem_blanks) hblank hnil hlex hkind hrespaces

end

/-- A step leads from the place of a token to that of the next one. -/
theorem Step.leads (h : r.Step t s) (hr : r.StandsAt source given held)
    (hkeeps : r.keepsBlanks = false) (hfresh : r.mode = .text → r.freshTag = false)
    (hkind : ∀ c, t.kind ≠ .other c) (heof : t.kind ≠ .eof)
    (hf : ∀ gap, f n = some gap → gap ≠ [] ∧ ∀ c ∈ gap, isBlank c)
    (hplace : f n ≠ none → r.pending = none ∧ r.mode = .tag) :
    f.LeadsOver source n r given held t s := by
  have hnone (hr : r.pending ≠ none ∨ r.mode = .text) : f n = none := by
    by_contra hsome
    obtain ⟨hpending, hmode⟩ := hplace hsome
    rcases hr with hr | hr
    · exact hr hpending
    · cases hmode.symm.trans hr
  cases h with
  | pending hpending => exact leadsOver_pending hr hpending (hnone (.inl (by simp [hpending])))
  | eof => exact (heof rfl).elim
  | opening hpending hmode hrest =>
    obtain ⟨rfl, hconsumed⟩ := hr.consumed_of_nothing hpending
    exact leadsOver_opening hconsumed hpending hmode (hfresh hmode) hrest (hnone (.inr hmode))
  | text hpending hmode hne hends hlex =>
    obtain ⟨rfl, hconsumed⟩ := hr.consumed_of_nothing hpending
    exact leadsOver_text hconsumed hpending hmode (hfresh hmode) hne hends hlex
      (hnone (.inr hmode))
  | blanks _ _ hkeeps' => cases hkeeps.symm.trans hkeeps'
  | closing hpending hmode hrest =>
    obtain ⟨rfl, hconsumed⟩ := hr.consumed_of_nothing hpending
    exact leadsOver_closing hconsumed hpending hmode hrest hf
  | inTag hpending hmode _ _ hlex =>
    obtain ⟨rfl, hconsumed⟩ := hr.consumed_of_nothing hpending
    exact leadsOver_inTag hconsumed hpending hmode hlex hkind hf

theorem Step.leads_end (h : r.Step t s) (hr : r.StandsAt source given held) (ht : t.kind = .eof)
    (hfresh : r.mode = .text → r.freshTag = false)
    (hplace : f n ≠ none → r.pending = none ∧ r.mode = .tag) :
    f.Leads source n r given held [t] := by
  obtain ⟨hpending, hmode, hrest, -⟩ := h.of_eof hr ht
  obtain ⟨gap, raw, held', hcontinues, hs⟩ := h.standsAt hr
  obtain rfl := hcontinues.empty_iff.2 ht
  obtain rfl : gap = [] := by
    by_contra hne
    cases hmode.symm.trans (hcontinues.skips hne).2.1
  have hnone : f n = none := by
    by_contra hsome
    cases hmode.symm.trans (hplace hsome).2
  refine ⟨[.eof], [], ?_, ?_, ?_⟩
  · rw [hpending, List.map_singleton, ht]
    rfl
  · rw [f.applyFrom_cons n [] hcontinues.covers hs, hnone, hr.nothing hpending]
    rfl
  · rw [hmode, hfresh hmode, hrest]
    exact .ends

/-- From any place in a run on, the reader goes through both texts up to the end of input. -/
theorem Reads.leads {source : String} {u : Reader} {eof : Token} (h : r.Reads ts s)
    (hnext : s.next = (.ok eof, u)) (heof : eof.kind = .eof)
    (hus : (ofSource source).Reads us r) (hr : r.StandsAt source.toList given held)
    (hkinds : ∀ t ∈ ts, t.kind ≠ .eof ∧ ∀ c, t.kind ≠ .other c)
    (hf : f.Fits ((us ++ (ts ++ [eof])).map Token.kind)) :
    f.Leads source.toList us.length r given held (ts ++ [eof]) := by
  -- from the end of the run to its beginning; `us` are the tokens that have numbers already
  induction h generalizing us given held with
  | @nil r =>
    obtain ⟨-, v, hstep, -⟩ := step_of_next hnext
    exact hstep.leads_end hr heof (hus.freshTag_of_text fun _ => rfl) (hus.pending_of_fits hf)
  | @cons r s u t ts hnext' hrest ih =>
    obtain ⟨-, v, hstep, rfl⟩ := step_of_next hnext'
    obtain ⟨⟨ht, hother⟩, hts⟩ := List.forall_mem_cons.1 hkinds
    have hkept : ((ofSource source).keepBlanks false).Reads us r := hus
    have hblank : ∀ gap, f us.length = some gap → gap ≠ [] ∧ ∀ c ∈ gap, isBlank c := by
      intro gap hgap
      obtain ⟨hne, hblank, -⟩ := hf _ gap hgap
      exact ⟨hne, hblank⟩
    obtain ⟨given', held', hs, hleads⟩ := hstep.leads hr hkept.behind.2
      (hus.freshTag_of_text fun _ => rfl) hother ht hblank (hus.pending_of_fits hf)
    have hus' := hus.append (.cons hnext' .nil)
    have hrest := ih hnext hus' (hs.noted _) hts (by simpa using hf)
    rw [List.length_append] at hrest
    exact hleads _ hrest

end Reader

namespace Respaces

/-- Where the first text stands at a tag, so does the second. -/
theorem atTag (h : Respaces mode fresh ks rest rest') (hmode : mode = .text)
    (hrest : Escape.AtTag rest) : Escape.AtTag rest' := by
  cases h with
  | ends => exact .inl rfl
  | text hne hends =>
    rcases hrest with hnil | htag
    · exact (hne hnil).elim
    · exact (Bool.false_ne_true (hends.symm.trans htag)).elim
  | opening => exact .inr rfl
  | closing => cases hmode
  | inTag => cases hmode

/-- In a tag both texts begin alike, and the first does not begin with a point. -/
theorem alike (h : Respaces mode fresh ks rest rest') (hmode : mode = .tag) :
    Alike rest rest' ∧ rest.head? ≠ some '.' := by
  cases h with
  | ends => cases hmode
  | text => cases hmode
  | opening => cases hmode
  | @closing gap gap' rest rest' _ _ hgap hgap' hnil =>
    have hmark : ['$', '}'] ≠ [] := List.cons_ne_nil _ _
    exact ⟨alike_of_gaps hgap' hnil hmark, head?_ne_of_gap hgap rfl (by simp)⟩
  | @inTag _ _ raw rest rest' _ _ _ hgap hgap' hnil hlex hkind =>
    have hraw := Lexeme.raw_ne_nil_of_ofTag hlex
    exact ⟨alike_of_gaps hgap' hnil hraw,
      head?_ne_of_gap hgap rfl (Lexeme.head?_ne_point hlex hkind)⟩

/-- A reader reads the second text as the kinds. -/
theorem yields (h : Respaces mode fresh ks rest rest') (p : Position) : ∃ ls q,
    ks = ls ++ [.eof] ∧ Spot.Yields ⟨mode, fresh, p, rest'⟩ ls ⟨.text, false, q, []⟩ := by
  induction h generalizing p with
  | ends => exact ⟨[], p, rfl, .nil⟩
  | @text raw rest rest' kind ks hne hends hlex h ih =>
    obtain ⟨ls, q, rfl, hyields⟩ := ih (p.after raw)
    obtain ⟨-, -, htag⟩ := Lexeme.ofText_eq_ok hne hends hlex
    have hlex' := Lexeme.ofText_of_atTag hlex (h.atTag rfl htag)
    have hraw := Lexeme.raw_ofText_ne_nil hne hends
    rw [hlex] at hraw
    have hends' : Escape.text.ends (raw ++ rest') = false := by
      apply Escape.ends_eq_false_of_raw
      exact (congrArg Lexeme.raw hlex').trans_ne hraw
    have htext := Spot.gives_text (p := p) (List.append_ne_nil_of_left_ne_nil hraw _) hends' hlex'
    have hfirst : Spot.Yields _ [kind] _ := ⟨_, htext, rfl⟩
    exact ⟨kind :: ls, q, rfl, hfirst.append hyields⟩
  | @opening rest rest' ks h ih =>
    obtain ⟨ls, q, rfl, hyields⟩ := ih (p.after ['{', '$'])
    have hopen : Spot.Yields _ [.tagOpen, .tagMark] _ := ⟨_, Spot.gives_open false p rest', rfl⟩
    exact ⟨.tagOpen :: .tagMark :: ls, q, rfl, hopen.append hyields⟩
  | @closing gap gap' rest rest' fresh ks hgap hgap' hnil h ih =>
    obtain ⟨ls, q, rfl, hyields⟩ := ih ((p.after gap').after ['$', '}'])
    have hclose : Spot.Yields ⟨.tag, fresh, p, gap' ++ '$' :: '}' :: rest'⟩
        [.tagMark, .tagClose] _ := ⟨_, Spot.gives_close hgap', rfl⟩
    exact ⟨.tagMark :: .tagClose :: ls, q, rfl, hclose.append hyields⟩
  | @inTag gap gap' raw rest rest' fresh kind ks hgap hgap' hnil hlex hkind h ih =>
    obtain ⟨ls, q, rfl, hyields⟩ := ih ((p.after gap').after raw)
    obtain ⟨halike, hpoint⟩ := h.alike rfl
    have hlex' := Lexeme.ofTag_of_alike hlex hkind halike hpoint
    have hfirst : Spot.Yields _ [kind] _ :=
      ⟨_, Spot.gives_lexeme (p := p) hgap' hlex' hkind, rfl⟩
    exact ⟨kind :: ls, q, rfl, hfirst.append hyields⟩

end Respaces

/-- Without other blanks a source that is read to its end stays as it is. -/
theorem Respacing.apply_none {source : String} (h : (Reader.ofSource source).run.failure = none) :
    Respacing.apply (fun _ => none) source = source := by
  obtain ⟨s, hreads, hend⟩ := (Reader.ofSource source).reads_run
  obtain ⟨ts, eof, hrun, heof⟩ := hend h
  obtain ⟨held, hs⟩ := hreads.applyFrom_none (Reader.standsAt_start source false) 0
  rw [hrun] at hreads
  have hkept : ((Reader.ofSource source).keepBlanks false).Reads (ts ++ [eof]) s := hreads
  have hwhole := congrArg String.ofList (hs.given_eq hkept heof)
  rwa [String.ofList_toList] at hwhole

theorem Content.other_notMem_kinds (c : Content) (x : Char) : .other x ∉ c.kinds := by
  induction c with
  | nil => simp [kinds]
  | text value next ih => simp [kinds, ih]
  | echo elements next ih => simp [kinds, echoKinds, tagKinds, Element.kind_ne_other, ih]
  | loop head body next ihb ihn =>
    simp [kinds, Loop.kinds, endKinds, tagKinds, Element.kind_ne_other, ihb, ihn]

/-- Blanks between the tokens of a tag make no difference: wherever other blanks are put in place of
those that stand there, or where none do, the document is the same. -/
theorem parse_respaced {source : String} {d : Document} (h : Document.parse source = .ok d)
    (hf : f.Fits ((Reader.ofSource source).run.tokens.map Token.kind)) :
    Document.parse (f.apply source) = .ok d := by
  obtain ⟨c, hc, rfl, hkinds⟩ := exists_content_of_parse h
  obtain ⟨hfailure, hkinds⟩ := tokenKinds_eq_ok_iff.1 hkinds
  obtain ⟨u, hreads, hend⟩ := (Reader.ofSource source).reads_run
  obtain ⟨ts, eof, hrun, heof⟩ := hend hfailure
  rw [hrun] at hreads hkinds hf
  rw [List.map_append, List.map_singleton, heof, List.append_left_inj] at hkinds
  obtain ⟨s, hts, hnext⟩ := hreads.of_concat
  have hall : ∀ t ∈ ts, t.kind ≠ .eof ∧ ∀ x, t.kind ≠ .other x := by
    refine fun t ht => ⟨Reader.kind_ne_eof_of_run hrun ht, fun x hx => ?_⟩
    have hmem := List.mem_map_of_mem (f := Token.kind) ht
    rw [hkinds, hx] at hmem
    exact c.other_notMem_kinds x hmem
  have hstart := Reader.standsAt_start source false
  obtain ⟨ks, cs, hks, hcs, hrespaces⟩ := hts.leads hnext heof .nil hstart hall hf
  obtain ⟨ls, q, rfl, marks, hgives, hmarks⟩ := hrespaces.yields {}
  have happly : f.apply source = String.ofList cs := by
    rw [Respacing.apply, hrun]
    exact congrArg String.ofList hcs
  have hls : ls = c.kinds := by
    have hpending : (Reader.ofSource source).pending = none := rfl
    rw [hpending, Option.toList_none, List.map_nil, List.nil_append, List.map_append,
      List.map_singleton, heof, hkinds, List.append_left_inj] at hks
    exact hks.symm
  rw [happly]
  exact parse_of_gives hc hgives (hmarks.trans hls)

/-- Blanks before the third token and the seventh, and others before the fifth. -/
def spread : Respacing
  | 2 | 6 => some ['\u3000']
  | 4 => some ['\n', ' ']
  | _ => none

theorem parse_respaced_spread :
    Document.parse "\x7b$=1-a$\x7d" =
        .ok ⟨#[.root #[1], .echo [.int 1, .operator .sub, .var ⟨"a", by decide⟩]]⟩ ∧
      spread.apply "\x7b$=1-a$\x7d" = "\x7b$\u3000=1\n -a\u3000$\x7d" ∧
      Document.parse "\x7b$\u3000=1\n -a\u3000$\x7d" =
        .ok ⟨#[.root #[1], .echo [.int 1, .operator .sub, .var ⟨"a", by decide⟩]]⟩ := by
  have hparse : Document.parse "\x7b$=1-a$\x7d" =
      .ok ⟨#[.root #[1], .echo [.int 1, .operator .sub, .var ⟨"a", by decide⟩]]⟩ := by
    decide +kernel
  have hkinds : (Reader.ofSource "\x7b$=1-a$\x7d").run.tokens.map Token.kind =
      [.tagOpen, .tagMark, .keyword .echo, .int 1, .operator '-', .identifier "a", .tagMark,
        .tagClose, .eof] := by
    decide +kernel
  have happly : spread.apply "\x7b$=1-a$\x7d" = "\x7b$\u3000=1\n -a\u3000$\x7d" := by
    decide +kernel
  have hfits : spread.Fits ((Reader.ofSource "\x7b$=1-a$\x7d").run.tokens.map Token.kind) := by
    rw [hkinds]
    intro n gap hgap
    unfold spread at hgap
    split at hgap
    · cases hgap
      exact ⟨by decide, List.all_eq_true.1 rfl, [], [], rfl, by decide⟩
    · cases hgap
      exact ⟨by decide, List.all_eq_true.1 rfl, [], _, rfl, by decide⟩
    · cases hgap
      exact ⟨by decide, List.all_eq_true.1 rfl, [], _, rfl, by decide⟩
    · cases hgap
  exact ⟨hparse, happly, happly ▸ parse_respaced hparse hfits⟩

end Template
