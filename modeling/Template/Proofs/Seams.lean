import Template.Proofs.Appending
import Template.Proofs.Moving
import Template.Proofs.Tiling

/-! The tokens of two sources, one behind the other. -/
namespace Template

open Token

/-- The last text of the source ends in a brace that is not escaped, and with the mark that the other
source begins with it opens a tag. -/
def OpensTagAcross (source more : String) : Prop :=
  (∃ ts t eof before, (Reader.ofSource source).run.tokens = ts ++ [t, eof] ∧ eof.kind = .eof ∧
    t.kind.isText ∧ t.span.slice source.toList = before ++ ['{'] ∧ ¬ Escape.Escapes before) ∧
  more.toList.head? = some '$'

/-- The second reading is the first one, behind other characters, with more text in front. -/
inductive Reading.GoesOn (before : List Char) (value : String) : Reading → Reading → Prop
  | error (e : LexicalError) (s s' : Reader) :
      GoesOn before value (.error e, s) (.error (e.behind before), s')
  | text {t u : Token} {value' : String} (s : Reader) (last : Option Token)
      (ht : t.kind = .text value') (hu : u.kind = .text (value ++ value')) :
      GoesOn before value (.ok t, s) (.ok u, s.behind before last)

/-- How the tokens `ts` of a source are followed by those of another one behind it. -/
inductive Seam (source more : String) (ts : List Token) : Prop
  | apart (last : Option Token) (hreads : (Reader.ofSource (source ++ more)).Reads ts
      ((Reader.ofSource more).behind source.toList last))
  | merged {us : List Token} {t : Token} {value : String} {r : Reader} (hts : ts = us ++ [t])
      (ht : t.kind = .text value) (hreads : (Reader.ofSource (source ++ more)).Reads us r)
      (hgoesOn : Reading.GoesOn source.toList value (Reader.ofSource more).next r.next)

namespace Reader

variable {source : String} {r s : Reader} {t eof : Token} {ts : List Token}
  {raw value rest more : List Char}

/-- In front of the last token there is no end of input. -/
theorem kind_ne_eof_of_run (hrun : r.run.tokens = ts ++ [eof]) (ht : t ∈ ts) : t.kind ≠ .eof := by
  intro hkind
  obtain ⟨us, vs, rfl⟩ := List.append_of_mem ht
  have hnone := (run_of_eof_mem (hrun.trans (List.append_assoc ..)) hkind).1
  exact List.append_ne_nil_of_right_ne_nil vs (List.cons_ne_nil eof []) hnone

theorem Step.freshTag_of_text (hr : r.mode = .text → r.freshTag = false) (h : r.Step t s) :
    s.mode = .text → s.freshTag = false := by
  cases h with
  | pending => exact hr
  | eof => exact hr
  | opening => rintro ⟨⟩
  | text => exact fun _ => rfl
  | blanks => exact hr
  | closing => exact fun _ => rfl
  | inTag => exact fun _ => rfl

/-- In text, nothing of a tag is waited for. -/
theorem Reads.freshTag_of_text (h : r.Reads ts s) (hr : r.mode = .text → r.freshTag = false) :
    s.mode = .text → s.freshTag = false := by
  induction h with
  | nil => exact hr
  | cons hnext _ ih =>
    obtain ⟨-, u, hstep, rfl⟩ := step_of_next hnext
    exact ih (Step.freshTag_of_text (s := u) hr hstep)

/-- Where the end of input is next, another source may begin. -/
theorem Reads.append_end (h : (ofSource source).Reads ts r) (hnext : r.next = (.ok eof, s))
    (heof : eof.kind = .eof) (more : String) : r.mode = .text ∧ r.rest = [] ∧
      r.append more.toList = (ofSource more).behind source.toList r.last := by
  have hkept : ((ofSource source).keepBlanks false).Reads ts r := h
  obtain ⟨-, hkeep⟩ := hkept.behind
  obtain ⟨given, held, hr⟩ := h.standsAt (standsAt_start source false)
  obtain ⟨hended, u, hstep, rfl⟩ := step_of_next hnext
  obtain ⟨hpending, hmode, hrest, -⟩ := hstep.of_eof hr heof
  obtain ⟨rfl, hconsumed⟩ := hr.consumed_of_nothing hpending
  have hfresh := h.freshTag_of_text (fun _ => rfl) hmode
  have hplace : r.position = Position.behind source.toList {} := by
    have hgiven := hconsumed.source_eq
    rw [hrest, List.append_nil] at hgiven
    rw [Position.behind_start, ← hgiven]
    exact hconsumed.position.eq (Position.isBehind_nil.after given)
  refine ⟨hmode, hrest, ?_⟩
  obtain ⟨_, _, _, _, _, _, _, _⟩ := r
  simp_all [Reader.append, Reader.behind, ofSource, ofChars]

theorem Reads.settled (h : r.Reads ts s) (hr : r.Settled) : s.Settled := by
  induction h with
  | nil => exact hr
  | cons hnext _ ih =>
    obtain ⟨-, u, hstep, rfl⟩ := step_of_next hnext
    exact ih (hstep.sound hr).2.1

theorem step_of_text (hr : r.Settled) (h : r.Step t s) (ht : t.kind.isText) :
    r.pending = none ∧ r.mode = .text ∧ r.rest ≠ [] ∧ (Escape.text.scan r.rest).fault = none ∧
      t = ⟨.text (String.ofList (Escape.text.scan r.rest).value),
        r.spanOf (Escape.text.scan r.rest).raw⟩ ∧
      s = r.afterLexeme (Escape.text.scan r.rest).raw (Escape.text.scan r.rest).rest := by
  cases h with
  | pending hpending =>
    rcases hr t hpending with hkind | hkind <;> simp [hkind, Kind.isText] at ht
  | eof => cases ht
  | opening => cases ht
  | text hpending hmode hne hends hlex =>
    simp only [Lexeme.ofText, Lexeme.mk.injEq] at hlex
    obtain ⟨rfl, rfl, hkind⟩ := hlex
    split at hkind
    · cases hkind
    · next hfault =>
      cases hkind
      exact ⟨hpending, hmode, hne, hfault, rfl, rfl⟩
  | blanks => cases ht
  | closing => cases ht
  | inTag _ _ _ _ hlex =>
    obtain ⟨hcontent, -, -⟩ := Lexeme.ofTag_eq_ok hlex
    exact (Bool.false_ne_true ((Kind.isText_eq_false_of_isContent hcontent).symm.trans ht)).elim

theorem next_of_scan (hended : r.ended = false) (hpending : r.pending = none)
    (hmode : r.mode = .text) (hraw : raw ≠ [])
    (h : Escape.text.scan r.rest = ⟨raw, value, rest, none⟩) :
    r.next = (.ok ⟨.text (String.ofList value), r.spanOf raw⟩,
      { r.afterLexeme raw rest with last := some ⟨.text (String.ofList value), r.spanOf raw⟩ }) := by
  have hne : r.rest ≠ [] := by
    intro hnil
    rw [hnil] at h
    cases h
    exact hraw rfl
  have hends : Escape.text.ends r.rest = false := Escape.ends_eq_false_of_raw (by rwa [h])
  have hlex : Lexeme.ofText r.rest = ⟨raw, rest, .ok (.text (String.ofList value))⟩ := by
    simp only [Lexeme.ofText, h]
  exact next_of_step hended (.text hpending hmode hne hends hlex)

theorem next_of_fault {f : Escape.Fault} (hended : r.ended = false) (hpending : r.pending = none)
    (hmode : r.mode = .text) (h : Escape.text.scan r.rest = ⟨raw, value, rest, some f⟩) :
    ∃ s, r.next = (.error ⟨Lexeme.ofFault f, r.position.after raw⟩, s) := by
  have hlex : Lexeme.ofText r.rest = ⟨raw, rest, .error (Lexeme.ofFault f)⟩ := by
    simp only [Lexeme.ofText, h]
  have hplace : r.errorPlace (Lexeme.ofFault f) raw = r.position.after raw := by
    cases f <;> rfl
  rw [← hplace]
  exact ⟨_, Prod.ext (next_of_fails hended (.text hpending hmode hlex)) rfl⟩

theorem append_ofSource (source more : String) :
    (ofSource source).append more.toList = ofSource (source ++ more) := by
  rw [ofSource, ofSource, String.toList_append]
  rfl

/-- What is read on behind a text that ends its source is read farther down in the other one. -/
theorem afterLexeme_across {before : List Char} {last : Option Token}
    (hend : ({ r.afterLexeme r.rest [] with last } : Reader).append more = s.behind before last)
    (hline : 1 ≤ s.position.line) (raw rest : List Char) (last' : Option Token) :
    { (r.append more).afterLexeme (r.rest ++ raw) rest with last := last' } =
      (s.afterLexeme raw rest).behind before last' := by
  have hsplit : { (r.append more).afterLexeme (r.rest ++ raw) rest with last := last' } =
      { (({ r.afterLexeme r.rest [] with last } : Reader).append more).afterLexeme raw rest with
        last := last' } := by
    simp only [afterLexeme, advance, append, Position.after_append]
  rw [hsplit, hend, afterLexeme_behind hline]
  rfl

/-- A text that ends its source goes on into the text that the other source begins with. -/
theorem goesOn_of_scan {before : List Char} {last : Option Token} {more : String}
    (hended : r.ended = false) (hpending : r.pending = none) (hmode : r.mode = .text)
    (hend : ({ r.afterLexeme r.rest [] with last } : Reader).append more.toList =
      (ofSource more).behind before last)
    (hscan : Escape.text.scan (r.rest ++ more.toList) =
      ⟨r.rest ++ (Escape.text.scan more.toList).raw, value ++ (Escape.text.scan more.toList).value,
        (Escape.text.scan more.toList).rest, (Escape.text.scan more.toList).fault⟩)
    (hmore : ¬ Escape.AtTag more.toList) :
    Reading.GoesOn before (String.ofList value) (ofSource more).next
      (r.append more.toList).next := by
  obtain ⟨hne, hends⟩ := not_or.1 hmore
  have hraw := Escape.text.raw_scan_ne_nil hne (Bool.eq_false_iff.2 hends)
  have hacross := afterLexeme_across hend (Nat.le_refl 1)
  rcases hm : Escape.text.scan more.toList with ⟨raw, value', rest, fault⟩
  rw [hm] at hscan hraw
  cases fault with
  | none =>
    rw [next_of_scan (r := ofSource more) rfl rfl rfl hraw hm,
      next_of_scan (r := r.append more.toList) hended hpending hmode
        (List.append_ne_nil_of_right_ne_nil r.rest hraw) hscan, hacross]
    exact .text _ _ rfl (by rw [String.ofList_append])
  | some f =>
    obtain ⟨s, hs⟩ := next_of_fault (r := ofSource more) rfl rfl rfl hm
    obtain ⟨s', hs'⟩ := next_of_fault (r := r.append more.toList) hended hpending hmode hscan
    have hplace : (r.append more.toList).position.after (r.rest ++ raw) =
        ((ofSource more).position.after raw).behind before :=
      congrArg Reader.position (hacross raw rest none)
    rw [hs, hs', hplace]
    exact .error _ _ _

/-- The characters of a text that ends the source are all that is left in front of it. -/
theorem slice_of_last_text (h : (ofSource source).Reads ts r) (hpending : r.pending = none) :
    (r.spanOf r.rest).slice source.toList = r.rest := by
  obtain ⟨given, held, hr⟩ := h.standsAt (standsAt_start source false)
  obtain ⟨rfl, hconsumed⟩ := hr.consumed_of_nothing hpending
  have hslice := (hconsumed.covers r.rest).slice []
  rwa [List.append_nil, hconsumed.source_eq] at hslice

/-- A text that ends its source is given as it is or goes on. -/
theorem seam_of_text {more : String} {last : Option Token}
    (hreads : (ofSource (source ++ more)).Reads ts (r.append more.toList))
    (hended : r.ended = false) (hpending : r.pending = none) (hmode : r.mode = .text)
    (hne : r.rest ≠ [])
    (hend : ({ r.afterLexeme r.rest [] with last } : Reader).append more.toList =
      (ofSource more).behind source.toList last)
    (hscan : Escape.text.scan (r.rest ++ more.toList) =
      ⟨r.rest ++ (Escape.text.scan more.toList).raw, value ++ (Escape.text.scan more.toList).value,
        (Escape.text.scan more.toList).rest, (Escape.text.scan more.toList).fault⟩) :
    Seam source more (ts ++ [⟨.text (String.ofList value), r.spanOf r.rest⟩]) := by
  by_cases hmore : Escape.AtTag more.toList
  · rw [Escape.scan_atTag hmore, List.append_nil, List.append_nil] at hscan
    have hnext := next_of_scan (r := r.append more.toList) hended hpending hmode hne hscan
    have hacross := afterLexeme_across hend (Nat.le_refl 1) [] more.toList
    rw [List.append_nil] at hacross
    rw [hacross] at hnext
    exact .apart _ (hreads.append (.cons hnext .nil))
  · exact .merged rfl rfl hreads (goesOn_of_scan hended hpending hmode hend hscan hmore)

/-- The tokens of a source are followed by those of another one behind it. -/
theorem seam_of_run {more : String} (hrun : (ofSource source).run.tokens = ts ++ [eof])
    (heof : eof.kind = .eof) (hseam : ¬ OpensTagAcross source more) : Seam source more ts := by
  obtain ⟨r, s, hts, hnext, -⟩ := reads_of_run_eq hrun
  obtain ⟨hmode, hrest, hend⟩ := hts.append_end hnext heof more
  have hkinds : ∀ t ∈ ts, t.kind ≠ .eof := fun _ => kind_ne_eof_of_run hrun
  have hsettled := settled_ofSource source
  by_cases hlast : ∃ t ∈ ts.getLast?, t.kind.isText
  · obtain ⟨t, ht, htext⟩ := hlast
    obtain ⟨us, rfl⟩ := List.getLast?_eq_some_iff.1 ht
    obtain ⟨q, hus, hnext'⟩ := hts.of_concat
    obtain ⟨hended, u, hstep, rfl⟩ := step_of_next hnext'
    obtain ⟨hpending, hmode', hne, hfault, rfl, rfl⟩ :=
      step_of_text (hus.settled hsettled) hstep htext
    have hnone : (Escape.text.scan q.rest).rest = [] := hrest
    have hraw : (Escape.text.scan q.rest).raw = q.rest := by
      have happend := Escape.text.raw_append_scan q.rest
      rwa [hnone, List.append_nil] at happend
    have hbrace : ∀ before, q.rest = before ++ ['{'] → ¬ Escape.Escapes before →
        more.toList.head? ≠ some '$' := by
      intro before hbefore hescapes hhead
      refine hseam ⟨⟨us, _, eof, before, by simpa using hrun, heof, rfl, ?_, hescapes⟩, hhead⟩
      rw [← hbefore, hraw]
      exact slice_of_last_text hus hpending
    have hreads := hus.append_more hsettled (two_le_length_of_text hmode')
      (fun t ht => hkinds t (List.mem_append_left _ ht)) (fun _ => hne) more.toList
    rw [append_ofSource] at hreads
    rw [hraw, hnone] at hend
    rw [hraw]
    exact seam_of_text hreads hended hpending hmode' hne hend
      (Escape.scan_append_of_end hfault hnone hbrace)
  · have hreads := hts.append_more hsettled (two_le_length_of_text hmode) hkinds
      (fun h => (hlast h).elim) more.toList
    rw [append_ofSource, hend] at hreads
    exact .apart _ hreads

end Reader

end Template
