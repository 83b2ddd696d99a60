import Mathlib.Control.Monad.Basic
import Template.Document.Parse
import Template.Proofs.Feeding
import Template.Token.Run

/-! A source parses to a document exactly if its token kinds are the linearisation of its tree. -/
namespace Template

open Token

namespace Reader

variable {r s : Reader} {t : Token} {e : LexicalError}

theorem run_of_error (h : r.next = (.error e, s)) : r.run = ⟨[], some e⟩ := by
  rw [run]
  split
  · next h' =>
    cases h.symm.trans h'
    rfl
  · next h' => cases h.symm.trans h'

theorem run_of_token (h : r.next = (.ok t, s)) : r.run =
    if t.kind = .eof then ⟨[t], none⟩ else { s.run with tokens := t :: s.run.tokens } := by
  rw [run]
  split
  · next h' => cases h.symm.trans h'
  · next h' =>
    cases h.symm.trans h'
    rfl

/-- Nothing comes behind the end of input. -/
theorem run_of_eof_mem {us rest : List Token} (h : r.run.tokens = us ++ t :: rest)
    (ht : t.kind = .eof) : rest = [] ∧ r.run.failure = none := by
  induction us generalizing r with
  | nil =>
    rcases hnext : r.next with ⟨e | u, s⟩
    · simp [run_of_error hnext] at h
    · rw [run_of_token hnext] at h ⊢
      split at h
      · next hu =>
        rw [if_pos hu]
        simp_all
      · next hu =>
        cases h
        exact (hu ht).elim
  | cons u us ih =>
    rcases hnext : r.next with ⟨e | u', s⟩
    · simp [run_of_error hnext] at h
    · rw [run_of_token hnext] at h ⊢
      split at h
      · simp at h
      · next hu =>
        rw [if_neg hu]
        exact ih (List.cons.inj h).2

end Reader

namespace Builder

variable {b c : Builder} {r s : Reader} {t : Token} {e : LexicalError} {d : Document}

theorem feedFrom_of_error (h : r.next = (.error e, s)) :
    b.feedFrom r = .error (.ofLexical e) := by
  rw [feedFrom]
  split
  · next h' =>
    cases h.symm.trans h'
    rfl
  · next h' => cases h.symm.trans h'

theorem feedFrom_of_token (h : r.next = (.ok t, s)) : b.feedFrom r =
    match b.feed t with
    | .error e => .error e
    | .ok (.complete d) => .ok d
    | .ok (.ongoing c) => c.feedFrom s := by
  rw [feedFrom]
  split
  · next h' => cases h.symm.trans h'
  · next h' =>
    cases h.symm.trans h'
    rfl

/-- The builder gets the tokens of the whole run, up to the one that ends its work. -/
theorem feedFrom_eq_ok_iff :
    b.feedFrom r = .ok d ↔ b.feedAll r.run.tokens = .ok (.complete d) := by
  induction hn : r.remaining using Nat.strongRecOn generalizing b r with
  | ind n ih =>
    subst hn
    rcases hnext : r.next with ⟨e | t, s⟩
    · rw [feedFrom_of_error hnext, Reader.run_of_error hnext]
      simp [feedAll]
    · rw [feedFrom_of_token hnext, Reader.run_of_token hnext]
      cases hfeed : b.feed t with
      | error e => by_cases ht : t.kind = .eof <;> simp [ht, feedAll, hfeed]
      | ok progress =>
        cases progress with
        | complete d' => by_cases ht : t.kind = .eof <;> simp [ht, feedAll, hfeed]
        | ongoing c =>
          have ht : t.kind ≠ .eof := (step_of_feed hfeed).kind_ne_eof
          simp only [if_neg ht, feedAll, hfeed]
          exact ih _ (Reader.remaining_lt_of_next hnext) rfl

end Builder

/-- The kinds of a source's tokens, blanks in tags left out. -/
def tokenKinds (source : String) : Except LexicalError (List Kind) :=
  (tokenize source).map (·.map Token.kind)

variable {source : String} {d : Document} {c c' : Content}

theorem tokenKinds_eq_ok_iff {ks : List Kind} : tokenKinds source = .ok ks ↔
    (Reader.ofSource source).run.failure = none ∧
      (Reader.ofSource source).run.tokens.map Token.kind = ks := by
  unfold tokenKinds tokenize Run.result
  cases (Reader.ofSource source).run.failure <;> simp [Except.map]

/-- A source whose token kinds are the linearisation of a tree parses to the document of it. -/
theorem parse_of_tokenKinds (hc : c.WellFormed)
    (h : tokenKinds source = .ok (c.kinds ++ [.eof])) :
    Document.parse source = .ok c.document := by
  obtain ⟨-, hk⟩ := tokenKinds_eq_ok_iff.1 h
  obtain ⟨us, vs, hrun, hus, hvs⟩ := List.map_eq_append_iff.1 hk
  obtain ⟨t, _, rfl, ht, hnil⟩ := List.map_eq_cons_iff.1 hvs
  rw [List.map_eq_nil_iff] at hnil
  subst hnil
  have hend : (Builder.inside [] c .between).feed t = .ok (.complete c.document) :=
    Builder.feed_eq_complete_iff.2 ⟨rfl, ht, rfl, rfl⟩
  rw [Document.parse, Builder.feedFrom_eq_ok_iff, hrun, Builder.initial_eq,
    Builder.feedAll_append (Builder.feedAll_content [] .nil hc hus)]
  simp only [Builder.feedAll, Content.nil_append, hend]

theorem exists_content_of_parse (h : Document.parse source = .ok d) :
    ∃ c : Content, c.WellFormed ∧ d = c.document ∧ tokenKinds source = .ok (c.kinds ++ [.eof]) := by
  rw [Document.parse, Builder.feedFrom_eq_ok_iff] at h
  obtain ⟨us, t, rest, hrun, ht, c, hc, hd, hk⟩ :=
    Builder.content_of_feedAll Builder.hasRead_initial h
  obtain ⟨rfl, hfailure⟩ := Reader.run_of_eof_mem hrun ht
  refine ⟨c, hc, hd, tokenKinds_eq_ok_iff.2 ⟨hfailure, ?_⟩⟩
  rw [hrun]
  simpa [ht] using hk

/-- No linearisation is that of two trees. -/
theorem eq_of_kinds_eq (hc : c.WellFormed) (hc' : c'.WellFormed) (h : c.kinds = c'.kinds) :
    c = c' := by
  -- the reading of any tokens of these kinds ends in both trees
  let ts : List Token := c.kinds.map fun kind => ⟨kind, ⟨{}, 0⟩⟩
  have hts : ts.map Token.kind = c.kinds := by simp [ts, Function.comp_def]
  have hread := Builder.feedAll_content [] .nil hc hts
  rw [Builder.feedAll_content [] .nil hc' (hts.trans h)] at hread
  have hdoc := congrArg Builder.document (Progress.ongoing.inj (Except.ok.inj hread))
  simp only [Builder.inside, OpenLoops.document_eq_close, OpenLoops.close,
    Content.nil_append] at hdoc
  exact (Content.document_injective hdoc).symm

/-- Parsing accepts the linearisations of well-formed trees and gives the one tree of each. -/
theorem parse_iff_linearisation :
    (∀ (source : String) (d : Document), Document.parse source = .ok d ↔
      ∃ c : Content, c.WellFormed ∧ d = c.document ∧
        tokenKinds source = .ok (c.kinds ++ [.eof])) ∧
    (∀ c c' : Content, c.WellFormed → c'.WellFormed → c.kinds = c'.kinds → c = c') ∧
    (∀ (source source' : String) (d d' : Document), Document.parse source = .ok d →
      Document.parse source' = .ok d' → (d = d' ↔ tokenKinds source = tokenKinds source')) := by
  refine ⟨?_, ?_, ?_⟩
  · intro source d
    constructor
    · exact exists_content_of_parse
    · rintro ⟨c, hc, rfl, hk⟩
      exact parse_of_tokenKinds hc hk
  · intro c c' hc hc' h
    exact eq_of_kinds_eq hc hc' h
  · intro source source' d d' h h'
    obtain ⟨c, hc, rfl, hk⟩ := exists_content_of_parse h
    obtain ⟨c', hc', rfl, hk'⟩ := exists_content_of_parse h'
    constructor
    · intro hdoc
      rw [hk, hk', Content.document_injective hdoc]
    · intro hkinds
      rw [hk, hk', Except.ok.injEq, List.append_left_inj] at hkinds
      rw [eq_of_kinds_eq hc hc' hkinds]

theorem linearisation_of_spacings :
    tokenKinds "\x7b$= 1$\x7d" = tokenKinds "\x7b$ =1 $\x7d" ∧
      ∃ c : Content, c.WellFormed ∧ tokenKinds "\x7b$= 1$\x7d" = .ok (c.kinds ++ [.eof]) := by
  have hnarrow : Document.parse "\x7b$= 1$\x7d" = .ok ⟨#[.root #[1], .echo [.int 1]]⟩ := by
    decide +kernel
  have hwide : Document.parse "\x7b$ =1 $\x7d" = .ok ⟨#[.root #[1], .echo [.int 1]]⟩ := by
    decide +kernel
  obtain ⟨hiff, -, hequal⟩ := parse_iff_linearisation
  obtain ⟨c, hc, -, hkinds⟩ := (hiff _ _).1 hnarrow
  exact ⟨(hequal _ _ _ _ hnarrow hwide).1 rfl, c, hc, hkinds⟩

end Template
