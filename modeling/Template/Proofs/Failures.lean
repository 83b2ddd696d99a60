import Template.Proofs.Reading

/-! Where a parse fails: as the reader does, or earlier at a token given before. -/
namespace Template

open Token

def ElementTag.places : ElementTag → List Position
  | .echo keyword => [keyword]
  | .loop _ => []

/-- The places that are kept of what has been read in the tag. -/
def Stage.places : Stage → List Position
  | .between | .afterBrace | .tagName | .loopCounter => []
  | .elements tag read => tag.places ++ read.toList.map Prod.snd
  | .closing tag read mark => tag.places ++ read.toList.map Prod.snd ++ [mark]
  | .endTag keyword | .closingEnd keyword => [keyword]

/-- The error is one of the grammar and is reported at one of the places. -/
structure ParseError.LiesAmong (e : ParseError) (places : List Position) : Prop where
  syntactic : ∀ cause, e.cause ≠ .lexical cause
  place : e.place ∈ places

/-- How a builder that is fed with a run comes to an end: it refuses a token, its document is
complete, or the run fails before. -/
inductive Builder.Ends (b : Builder) (run : Run) : Except ParseError Document → Prop
  | refused {e : ParseError} (hfeed : b.feedAll run.tokens = .error e) : Ends b run (.error e)
  | complete {d : Document} (hfeed : b.feedAll run.tokens = .ok (.complete d))
      (hfailure : run.failure = none) : Ends b run (.ok d)
  | failed {c : Builder} {e : LexicalError} (hfeed : b.feedAll run.tokens = .ok (.ongoing c))
      (hfailure : run.failure = some e) : Ends b run (.error (.ofLexical e))

variable {t : Token} {ts : List Token} {e : ParseError} {places : List Position}
  {place mark : Position} {stage stage' : Stage} {tag : ElementTag} {counter : Name}

theorem ParseError.LiesAmong.mono {places' : List Position} (h : e.LiesAmong places)
    (hsub : places ⊆ places') : e.LiesAmong places' :=
  ⟨h.syntactic, hsub h.place⟩

theorem Name.liesAmong_of_ofIdentifier {text : String}
    (h : Name.ofIdentifier text place = .error e) : e.LiesAmong [place] := by
  unfold Name.ofIdentifier at h
  split at h <;> cases h
  exact ⟨by simp, List.mem_cons_self⟩

theorem Token.liesAmong_of_unexpected {α : Type} {expected : Expected}
    (h : (t.unexpected expected : Except ParseError α) = .error e) :
    e.LiesAmong [t.span.start] := by
  cases h
  exact ⟨by simp, List.mem_cons_self⟩

theorem Name.liesAmong_of_map_ofIdentifier {α : Type} {f : Name → α} {text : String}
    (h : (Name.ofIdentifier text place).map f = .error e) : e.LiesAmong [place] := by
  cases hname : Name.ofIdentifier text place with
  | error e' =>
    rw [hname] at h
    cases h
    exact liesAmong_of_ofIdentifier hname
  | ok name =>
    rw [hname] at h
    cases h

theorem Element.liesAmong_of_ofToken (h : Element.ofToken t = .error e) :
    e.LiesAmong [t.span.start] := by
  unfold Element.ofToken at h
  split at h
  · exact Name.liesAmong_of_map_ofIdentifier h
  · exact Name.liesAmong_of_map_ofIdentifier h
  · cases h
  · cases h
  · cases h
  · split at h
    · cases h
    · exact Token.liesAmong_of_unexpected h
  · exact Token.liesAmong_of_unexpected h

/-- An operand is refused where it stands, and their number at the closing mark. -/
theorem Loop.liesAmong_of_ofElements {read : List (Element × Position)}
    (h : Loop.ofElements counter read mark = .error e) :
    e.LiesAmong (read.map Prod.snd ++ [mark]) := by
  unfold Loop.ofElements at h
  split at h
  · next hfind =>
    cases h
    have hmem := List.mem_map_of_mem (f := Prod.snd) (List.mem_of_find?_eq_some hfind)
    exact ⟨by simp, List.mem_append_left _ hmem⟩
  · split at h
    · cases h
    · cases h
    · cases h
      exact ⟨by simp, List.mem_append_right _ List.mem_cons_self⟩

theorem Stage.places_of_enters (h : stage.Enters t stage') :
    stage'.places ⊆ stage.places ++ [t.span.start] := by
  cases h <;> simp [places, ElementTag.places]

namespace Builder

variable {b c : Builder} {r : Reader} {read : Array (Element × Position)}

/-- A builder keeps the places that it has kept and that of the token. -/
theorem Step.places_subset (h : b.Step t c) :
    c.stage.places ⊆ b.stage.places ++ [t.span.start] := by
  cases h with
  | enter hstage => exact Stage.places_of_enters hstage
  | text => exact List.nil_subset _
  | echo => exact List.nil_subset _
  | loop => exact List.nil_subset _
  | endLoop => exact List.nil_subset _

theorem liesAmong_of_feedBetween (h : b.feedBetween t = .error e) : e.LiesAmong [t.span.start] := by
  unfold feedBetween at h
  split at h
  · cases h
  · cases h
  · unfold finish at h
    split at h <;> cases h
    exact ⟨by simp, List.mem_cons_self⟩
  · exact Token.liesAmong_of_unexpected h

theorem liesAmong_of_feedTagName (h : b.feedTagName t = .error e) : e.LiesAmong [t.span.start] := by
  unfold feedTagName at h
  split at h
  · cases h
  · cases h
  · cases h
  · cases h
    exact ⟨by simp, List.mem_cons_self⟩
  · exact Token.liesAmong_of_unexpected h

theorem liesAmong_of_feedCounter (h : b.feedCounter t = .error e) : e.LiesAmong [t.span.start] := by
  unfold feedCounter at h
  split at h
  · rcases exists_of_bind_eq_error h with hname | ⟨name, -, henter⟩
    · exact Name.liesAmong_of_ofIdentifier hname
    · cases henter
  · cases h
    exact ⟨by simp, List.mem_cons_self⟩

theorem liesAmong_of_feedElement (h : b.feedElement tag read t = .error e) :
    e.LiesAmong [t.span.start] := by
  unfold feedElement at h
  split at h
  · cases h
  · rcases exists_of_bind_eq_error h with helement | ⟨element, -, henter⟩
    · exact Element.liesAmong_of_ofToken helement
    · cases henter

theorem liesAmong_of_closeTag {read : List (Element × Position)}
    (h : b.closeTag read mark tag = .error e) :
    e.LiesAmong (tag.places ++ read.map Prod.snd ++ [mark]) := by
  cases tag with
  | echo keyword =>
    simp only [closeTag] at h
    split at h <;> cases h
    exact ⟨by simp, by simp [ElementTag.places]⟩
  | loop counter =>
    rcases exists_of_bind_eq_error h with hhead | ⟨head, -, hopen⟩
    · exact Loop.liesAmong_of_ofElements hhead
    · cases hopen

theorem liesAmong_of_closeLoop (h : b.closeLoop place = .error e) : e.LiesAmong [place] := by
  unfold closeLoop at h
  split at h <;> cases h
  exact ⟨by simp, List.mem_cons_self⟩

/-- A token is refused at its own place or at one that has been kept. -/
theorem places_of_feed_error (h : b.feed t = .error e) :
    e.LiesAmong (b.stage.places ++ [t.span.start]) := by
  have hhere (he : e.LiesAmong [t.span.start]) : e.LiesAmong (b.stage.places ++ [t.span.start]) :=
    he.mono (List.subset_append_right _ _)
  have hkept (he : e.LiesAmong b.stage.places) : e.LiesAmong (b.stage.places ++ [t.span.start]) :=
    he.mono (List.subset_append_left _ _)
  unfold feed at h
  split at h
  · exact hhere (liesAmong_of_feedBetween h)
  · split at h
    · cases h
    · exact hhere (Token.liesAmong_of_unexpected h)
  · exact hhere (liesAmong_of_feedTagName h)
  · exact hhere (liesAmong_of_feedCounter h)
  · exact hhere (liesAmong_of_feedElement h)
  · next hstage =>
    split at h
    · refine hkept ?_
      rw [hstage]
      exact liesAmong_of_closeTag h
    · exact hhere (Token.liesAmong_of_unexpected h)
  · split at h
    · cases h
    · exact hhere (Token.liesAmong_of_unexpected h)
  · next hstage =>
    split at h
    · refine hkept ?_
      rw [hstage]
      exact liesAmong_of_closeLoop h
    · exact hhere (Token.liesAmong_of_unexpected h)

theorem places_of_feedAll_error (h : b.feedAll ts = .error e) :
    e.LiesAmong (b.stage.places ++ ts.map (·.span.start)) := by
  induction ts generalizing b with
  | nil => cases h
  | cons t ts ih =>
    simp only [feedAll] at h
    split at h
    · next c hfeed =>
      -- what the next builder keeps, this one keeps or gets with the token
      have hkept := (step_of_feed hfeed).places_subset
      refine (ih h).mono ?_
      rw [List.map_cons, List.append_cons]
      exact List.append_subset.2
        ⟨List.subset_append_of_subset_left _ hkept, List.subset_append_right _ _⟩
    · refine (places_of_feed_error h).mono ?_
      simp

theorem Ends.cons {run : Run} {result : Except ParseError Document}
    (hfeed : b.feed t = .ok (.ongoing c)) (h : c.Ends run result) :
    b.Ends { run with tokens := t :: run.tokens } result := by
  have htokens : b.feedAll (t :: run.tokens) = c.feedAll run.tokens := feedAll_cons hfeed
  cases h with
  | refused hrest =>
    rw [← htokens] at hrest
    exact .refused (by exact hrest)
  | complete hrest hfailure =>
    rw [← htokens] at hrest
    exact .complete (by exact hrest) hfailure
  | failed hrest hfailure =>
    rw [← htokens] at hrest
    exact .failed (by exact hrest) hfailure

/-- A builder that is fed by a reader ends as one that is fed with the run of the reader. -/
theorem ends_feedFrom (b : Builder) (r : Reader) : b.Ends r.run (b.feedFrom r) := by
  induction hn : r.remaining using Nat.strongRecOn generalizing b r with
  | ind n ih =>
    subst hn
    rcases hnext : r.next with ⟨e | t, s⟩
    · rw [feedFrom_of_error hnext, Reader.run_of_error hnext]
      exact .failed rfl rfl
    · rw [feedFrom_of_token hnext, Reader.run_of_token hnext]
      cases hfeed : b.feed t with
      | error e =>
        refine .refused ?_
        by_cases ht : t.kind = .eof <;> simp [ht, feedAll, hfeed]
      | ok progress =>
        cases progress with
        | complete d =>
          have ht : t.kind = .eof := (feed_eq_complete_iff.1 hfeed).2.1
          rw [if_pos ht]
          exact .complete (by simp only [feedAll, hfeed]) rfl
        | ongoing c =>
          have ht : t.kind ≠ .eof := (step_of_feed hfeed).kind_ne_eof
          rw [if_neg ht]
          exact (ih _ (Reader.remaining_lt_of_next hnext) c s rfl).cons hfeed

theorem Ends.failure_of_ok {run : Run} {d : Document} (h : b.Ends run (.ok d)) :
    run.failure = none := by
  cases h with
  | complete _ hfailure => exact hfailure

theorem Ends.failure_of_lexical {run : Run} {cause : LexicalError.Cause}
    (h : b.Ends run (.error ⟨.lexical cause, place⟩)) : run.failure = some ⟨cause, place⟩ := by
  generalize hresult : (Except.error ⟨.lexical cause, place⟩ : Except ParseError Document) =
    result at h
  cases h with
  | refused hfeed =>
    cases hresult
    exact ((places_of_feedAll_error hfeed).syntactic cause rfl).elim
  | complete => cases hresult
  | failed _ hfailure =>
    cases hresult
    exact hfailure

end Builder

theorem tokenize_eq_error_iff {source : String} {e : LexicalError} :
    tokenize source = .error e ↔ (Reader.ofSource source).run.failure = some e := by
  unfold tokenize Run.result
  cases (Reader.ofSource source).run.failure <;> simp

/-- A parse fails for a lexical error exactly where the tokens of the source fail. It may fail
before, for an error of the grammar, which is reported where one of the tokens before the failure
begins. -/
theorem parse_failure (source : String) :
    (∀ d, Document.parse source = .ok d → ∃ ts, tokenize source = .ok ts) ∧
    (∀ cause place, Document.parse source = .error ⟨.lexical cause, place⟩ →
      tokenize source = .error ⟨cause, place⟩) ∧
    ∀ e, tokenize source = .error e → ∃ e', Document.parse source = .error e' ∧
      (e' = .ofLexical e ∨ (∀ cause, e'.cause ≠ .lexical cause) ∧
        ∃ t ∈ (Reader.ofSource source).run.tokens, e'.place = t.span.start) := by
  have hends := Builder.ends_feedFrom .initial (.ofSource source)
  rw [← Document.parse] at hends
  refine ⟨?_, ?_, ?_⟩
  · intro d hparse
    rw [hparse] at hends
    exact ⟨_, by rw [tokenize, Run.result, hends.failure_of_ok]⟩
  · intro cause place hparse
    rw [hparse] at hends
    exact tokenize_eq_error_iff.2 hends.failure_of_lexical
  · intro e htokens
    have hfailure := tokenize_eq_error_iff.1 htokens
    generalize Document.parse source = result at hends
    cases hends with
    | @refused e' hfeed =>
      have hplaces := Builder.places_of_feedAll_error hfeed
      refine ⟨e', rfl, .inr ⟨hplaces.syntactic, ?_⟩⟩
      obtain ⟨t, ht, hplace⟩ := List.mem_map.1 hplaces.place
      exact ⟨t, ht, hplace.symm⟩
    | complete _ hnone => cases hnone.symm.trans hfailure
    | failed _ hsome =>
      cases hsome.symm.trans hfailure
      exact ⟨_, rfl, .inl rfl⟩

end Template
