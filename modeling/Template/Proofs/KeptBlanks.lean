import Template.Proofs.TokenStream

/-! Blanks kept and blanks left out. -/
namespace Template

open Token

namespace Reader

/-- The reader with the blanks of tags left out. The token that it gave last is of no account. -/
def skipping (last : Option Token) (r : Reader) : Reader := { r with keepsBlanks := false, last }

variable {r s : Reader} {t : Token} {e : LexicalError}

/-- A token that is not blank is given without blanks as well. -/
theorem Step.skipping (h : r.Step t s) (ht : t.kind.isBlanks = false) (last : Option Token) :
    (r.skipping last).Step t (s.skipping last) := by
  have hnever : ∀ p : Prop, (r.skipping last).keepsBlanks → p := by
    rintro p ⟨⟩
  cases h with
  | pending hpending => exact .pending (r := r.skipping last) hpending
  | eof hpending hmode hrest => exact .eof (r := r.skipping last) hpending hmode hrest
  | opening hpending hmode hrest => exact .opening (r := r.skipping last) hpending hmode hrest
  | text hpending hmode hne hends hlex =>
    exact .text (r := r.skipping last) hpending hmode hne hends hlex
  | blanks => cases ht
  | closing hpending hmode hrest =>
    exact .closing (r := r.skipping last) hpending hmode hrest (hnever _)
  | inTag hpending hmode hne hclose hlex =>
    exact .inTag (r := r.skipping last) hpending hmode hne hclose hlex (hnever _)

theorem Fails.skipping (h : r.Fails e s) (last : Option Token) :
    (r.skipping last).Fails e (s.skipping last) := by
  have hnever : ∀ p : Prop, (r.skipping last).keepsBlanks → p := by
    rintro p ⟨⟩
  cases h with
  | text hpending hmode hlex => exact .text (r := r.skipping last) hpending hmode hlex
  | openTag hpending hmode hrest =>
    exact .openTag (r := r.skipping last) hpending hmode hrest (hnever _)
  | inTag hpending hmode hlex =>
    exact .inTag (r := r.skipping last) hpending hmode hlex (hnever _)

theorem next_skipping (h : r.next = (.ok t, s)) (ht : t.kind.isBlanks = false)
    (last : Option Token) : (r.skipping last).next = (.ok t, s.skipping (some t)) := by
  obtain ⟨hended, u, hstep, rfl⟩ := step_of_next h
  exact next_of_step (r := r.skipping last) hended (hstep.skipping ht last)

theorem next_skipping_error (h : r.next = (.error e, s)) (last : Option Token) :
    ∃ s', (r.skipping last).next = (.error e, s') := by
  rcases fails_of_next h with ⟨hended, rfl, rfl⟩ | ⟨hended, hfails⟩
  · have hended' : (s.skipping last).ended = true := hended
    refine ⟨s.skipping last, ?_⟩
    rw [next, hended']
    rfl
  · exact ⟨_, Prod.ext (next_of_fails (r := r.skipping last) hended (hfails.skipping last)) rfl⟩

/-- Blanks are given in a tag, and the reader has come behind them. -/
theorem Step.of_isBlanks (hr : r.Settled) (h : r.Step t s) (ht : t.kind.isBlanks) :
    r.pending = none ∧ r.mode = .tag ∧ s = r.afterBlanks := by
  cases h with
  | pending hpending =>
    rcases hr t hpending with hk | hk <;> simp [hk, Kind.isBlanks] at ht
  | eof => cases ht
  | opening => cases ht
  | @text _ _ kind _ _ hne hends hlex =>
    obtain ⟨htext, -, -⟩ := Lexeme.ofText_eq_ok hne hends hlex
    cases kind with
    | text value => cases ht
    | _ => cases htext
  | blanks hpending hmode => exact ⟨hpending, hmode, rfl⟩
  | closing => cases ht
  | inTag _ _ _ _ hlex =>
    obtain ⟨hcontent, -, -⟩ := Lexeme.ofTag_eq_ok hlex
    exact (Bool.false_ne_true ((Kind.isBlanks_eq_false_of_isContent hcontent).symm.trans ht)).elim

theorem afterBlanks_afterBlanks (r : Reader) : r.afterBlanks.afterBlanks = r.afterBlanks := by
  have hnone := r.blanks_afterBlanks
  have hall : r.afterBlanks.rest.dropWhile Character.isBlank = r.afterBlanks.rest := by
    have hsplit := List.takeWhile_append_dropWhile (p := Character.isBlank)
      (l := r.afterBlanks.rest)
    rwa [← blanks, hnone, List.nil_append] at hsplit
  rw [afterBlanks, hnone, hall]
  rfl

/-- A reader that leaves out blanks answers before them as it does behind them. -/
theorem next_afterBlanks (hended : r.ended = false) (hpending : r.pending = none)
    (hmode : r.mode = .tag) (hskips : r.keepsBlanks = false) : r.afterBlanks.next = r.next := by
  have hended' : r.afterBlanks.ended = false := hended
  have hpending' : r.afterBlanks.pending = none := hpending
  have hmode' : r.afterBlanks.mode = .tag := hmode
  have htag : r.afterBlanks.readTag = r.readTag := by
    rw [readTag_of_kept (r := r.afterBlanks) fun _ => r.blanks_afterBlanks,
      readTag_of_kept (r := r) (by simp [hskips]), afterBlanks_afterBlanks]
  simp only [next, fetch, hended, hended', hpending, hpending', hmode, hmode', htag]
  rfl

theorem run_eq_of_next_eq (h : r.next = s.next) : r.run = s.run := by
  rcases hnext : s.next with ⟨e | t, u⟩
  · rw [run_of_error hnext, run_of_error (h.trans hnext)]
  · rw [run_of_token hnext, run_of_token (h.trans hnext)]

/-- The run with the blanks of tags left out. -/
theorem run_skipping (hr : r.Settled) (last : Option Token) : (r.skipping last).run =
    ⟨r.run.tokens.filter fun t => !t.kind.isBlanks, r.run.failure⟩ := by
  induction hn : r.remaining using Nat.strongRecOn generalizing r last with
  | ind n ih =>
    subst hn
    rcases hnext : r.next with ⟨e | t, s⟩
    · obtain ⟨s', hnext'⟩ := next_skipping_error hnext last
      rw [run_of_error hnext, run_of_error hnext']
      rfl
    · obtain ⟨hended, u, hstep, rfl⟩ := step_of_next hnext
      have hsettled : ({ u with last := some t } : Reader).Settled := (hstep.sound hr).2.1
      have hrest (last : Option Token) := ih _ (remaining_lt_of_next hnext) hsettled last rfl
      rw [run_of_token hnext]
      cases ht : t.kind.isBlanks with
      | false =>
        rw [run_of_token (next_skipping hnext ht last), hrest]
        by_cases heof : t.kind = .eof
        · simp [heof, Kind.isBlanks]
        · simp [heof, ht]
      | true =>
        obtain ⟨hpending, hmode, rfl⟩ := hstep.of_isBlanks hr ht
        have hsame : (r.skipping last).afterBlanks.next = (r.skipping last).next :=
          next_afterBlanks hended hpending hmode rfl
        have heof : t.kind ≠ .eof := by
          intro heof
          simp [heof, Kind.isBlanks] at ht
        rw [← run_eq_of_next_eq hsame]
        have hbehind := hrest last
        simp only [if_neg heof, List.filter_cons, ht]
        exact hbehind

/-- Whether the blanks of tags are kept makes no difference but for the blanks: the other tokens are
the same, and so is the end of the run. -/
theorem run_keepBlanks (source : String) :
    let kept := ((ofSource source).keepBlanks true).run
    let plain := (ofSource source).run
    plain.tokens = kept.tokens.filter (fun t => !t.kind.isBlanks) ∧
      plain.failure = kept.failure ∧
      (plain.failure = none → (∃ ts t, plain.tokens = ts ++ [t] ∧ t.kind = .eof) ∧
        ∃ ts t, kept.tokens = ts ++ [t] ∧ t.kind = .eof) := by
  intro kept plain
  have hrun : plain = ⟨kept.tokens.filter fun t => !t.kind.isBlanks, kept.failure⟩ :=
    run_skipping (r := (ofSource source).keepBlanks true) (settled_ofSource source) none
  have hfailure : plain.failure = kept.failure := by rw [hrun]
  refine ⟨by rw [hrun], hfailure, fun hnone => ⟨?_, ?_⟩⟩
  · obtain ⟨-, -, hlast⟩ := (ofSource source).reads_run
    exact hlast hnone
  · obtain ⟨-, -, hlast⟩ := ((ofSource source).keepBlanks true).reads_run
    exact hlast (hfailure.symm.trans hnone)

end Reader

end Template
