import Template.Proofs.Numerals
import Template.Proofs.Parsing

/-! Readers at known places: mode, place and what is left settle what comes next. -/
namespace Template

open Token

/-- What a token is and where it begins. -/
abbrev Mark := Kind × Position

def Token.mark (t : Token) : Mark := (t.kind, t.span.start)

theorem map_kind_of_marks {ts : List Token} {marks : List Mark} (h : ts.map Token.mark = marks) :
    ts.map Token.kind = marks.map Prod.fst := by
  rw [← h, List.map_map]
  rfl

/-- The reader gives the tokens, one after the other, and is `s` after them. -/
inductive Reader.Reads : (r : Reader) → (ts : List Token) → (s : Reader) → Prop
  | nil {r : Reader} : r.Reads [] r
  | cons {r s u : Reader} {t : Token} {ts : List Token} (hnext : r.next = (.ok t, s))
      (hrest : s.Reads ts u) : r.Reads (t :: ts) u

/-- Where a reader stands that has nothing pending and leaves out blanks. -/
structure Spot where
  mode : Mode
  fresh : Bool
  place : Position
  rest : List Char

namespace Reader

variable {r s u : Reader} {t : Token} {ts us : List Token}

theorem Reads.append (h : r.Reads ts s) (h' : s.Reads us u) : r.Reads (ts ++ us) u := by
  induction h with
  | nil => exact h'
  | cons hnext _ ih => exact .cons hnext (ih h')

theorem Reads.of_append (h : r.Reads (ts ++ us) u) : ∃ s, r.Reads ts s ∧ s.Reads us u := by
  induction ts generalizing r with
  | nil => exact ⟨r, .nil, h⟩
  | cons t ts ih =>
    cases h with
    | cons hnext hrest =>
      obtain ⟨s, hts, hus⟩ := ih hrest
      exact ⟨s, .cons hnext hts, hus⟩

theorem Reads.of_concat (h : r.Reads (ts ++ [t]) u) : ∃ s, r.Reads ts s ∧ s.next = (.ok t, u) := by
  obtain ⟨s, hts, ht⟩ := h.of_append
  cases ht with
  | cons hnext hrest =>
    cases hrest
    exact ⟨s, hts, hnext⟩

/-- A run reads its tokens, and one that does not fail has the end of input last. -/
theorem reads_run (r : Reader) : ∃ s, r.Reads r.run.tokens s ∧
    (r.run.failure = none → ∃ ts t, r.run.tokens = ts ++ [t] ∧ t.kind = .eof) := by
  induction hn : r.remaining using Nat.strongRecOn generalizing r with
  | ind n ih =>
    subst hn
    rcases hnext : r.next with ⟨e | t, s⟩
    · rw [run_of_error hnext]
      exact ⟨r, .nil, by rintro ⟨⟩⟩
    · rw [run_of_token hnext]
      by_cases ht : t.kind = .eof
      · rw [if_pos ht]
        exact ⟨s, .cons hnext .nil, fun _ => ⟨[], t, rfl, ht⟩⟩
      · rw [if_neg ht]
        obtain ⟨u, hreads, hlast⟩ := ih _ (remaining_lt_of_next hnext) s rfl
        refine ⟨u, .cons hnext hreads, fun hfailure => ?_⟩
        obtain ⟨ts, v, hts, hv⟩ := hlast hfailure
        exact ⟨t :: ts, v, by simp [hts], hv⟩

/-- A run begins with the tokens that are read before the end of input. -/
theorem run_of_reads (h : r.Reads ts s) (hkinds : ∀ t ∈ ts, t.kind ≠ .eof) :
    r.run = ⟨ts ++ s.run.tokens, s.run.failure⟩ := by
  induction h with
  | nil => rfl
  | cons hnext _ ih =>
    obtain ⟨ht, hts⟩ := List.forall_mem_cons.1 hkinds
    rw [run_of_token hnext, if_neg ht, ih hts]
    rfl

/-- A run comes to each of its tokens behind those before it. -/
theorem reads_of_run_eq (h : r.run.tokens = ts ++ t :: us) :
    ∃ s u, r.Reads ts s ∧ s.next = (.ok t, u) ∧ r.Reads (ts ++ [t]) u := by
  obtain ⟨v, hrun, -⟩ := r.reads_run
  rw [h] at hrun
  obtain ⟨s, hts, hrest⟩ := hrun.of_append
  cases hrest with
  | @cons _ u _ _ _ hnext _ => exact ⟨s, u, hts, hnext, hts.append (.cons hnext .nil)⟩

end Reader

/-- What the builder makes of the tokens, the reader's next ones, and of those behind them. -/
theorem Builder.feedFrom_of_reads {b : Builder} {r s : Reader} {ts : List Token}
    (h : r.Reads ts s) : b.feedFrom r =
      match b.feedAll ts with
      | .error e => .error e
      | .ok (.complete d) => .ok d
      | .ok (.ongoing c) => c.feedFrom s := by
  induction h generalizing b with
  | nil => rfl
  | cons hnext _ ih =>
    rw [feedFrom_of_token hnext, feedAll]
    cases hfeed : b.feed _ with
    | error e => rfl
    | ok progress =>
      cases progress with
      | complete d => rfl
      | ongoing c => exact ih

namespace Spot

def reader (x : Spot) (last : Option Token) : Reader where
  rest := x.rest
  position := x.place
  mode := x.mode
  freshTag := x.fresh
  keepsBlanks := false
  pending := none
  last := last
  ended := false

/-- The tokens from one spot to the other are of these kinds and begin at these places. -/
def Gives (x : Spot) (marks : List Mark) (y : Spot) : Prop :=
  ∀ last, ∃ ts last', (x.reader last).Reads ts (y.reader last') ∧ ts.map Token.mark = marks

variable {x y z : Spot} {marks marks' : List Mark} {fresh : Bool} {p : Position}
  {cs gap raw rest : List Char} {kind : Kind}

theorem Gives.nil : x.Gives [] x := fun last => ⟨[], last, .nil, rfl⟩

theorem Gives.append (h : x.Gives marks y) (h' : y.Gives marks' z) :
    x.Gives (marks ++ marks') z := by
  intro last
  obtain ⟨ts, last', hts, rfl⟩ := h last
  obtain ⟨us, last'', hus, rfl⟩ := h' last'
  exact ⟨ts ++ us, last'', hts.append hus, List.map_append⟩

theorem gives_of_fetch {t : Token}
    (h : ∀ last, (x.reader last).fetch = (.ok t, y.reader last)) : x.Gives [t.mark] y := by
  intro last
  have hnext : (x.reader last).next = (.ok t, y.reader (some t)) := by
    simp only [Reader.next, h]
    rfl
  exact ⟨[t], some t, .cons hnext .nil, rfl⟩

/-- A delimiter gives two tokens, the second of which is pending in between. -/
theorem gives_of_delimiter {t u : Token}
    (h : ∀ last, (x.reader last).fetch = (.ok t, { y.reader last with pending := some u })) :
    x.Gives [t.mark, u.mark] y := by
  intro last
  have hnext : (x.reader last).next =
      (.ok t, { y.reader (some t) with pending := some u }) := by
    simp only [Reader.next, h]
    rfl
  exact ⟨[t, u], some u, .cons hnext (.cons rfl .nil), rfl⟩

theorem gives_open (fresh : Bool) (p : Position) (rest : List Char) :
    Gives ⟨.text, fresh, p, '{' :: '$' :: rest⟩ [(.tagOpen, p), (.tagMark, p.step '{')]
      ⟨.tag, true, p.after ['{', '$'], rest⟩ :=
  gives_of_delimiter (t := ⟨.tagOpen, p, (p.step '{').offset⟩)
    (u := ⟨.tagMark, p.step '{', (p.after ['{', '$']).offset⟩) fun _ => rfl

theorem gives_text (hcs : cs ≠ []) (hends : Escape.text.ends cs = false)
    (hlex : Lexeme.ofText cs = ⟨raw, rest, .ok kind⟩) :
    Gives ⟨.text, false, p, cs⟩ [(kind, p)] ⟨.text, false, p.after raw, rest⟩ := by
  refine gives_of_fetch (t := ⟨kind, p, (p.after raw).offset⟩) fun last => ?_
  change Reader.readText _ = _
  unfold Reader.readText
  split
  · next h => exact (hcs h).elim
  · next h =>
    simp only [reader] at h
    subst h
    cases hends
  · simp only [Reader.read, reader, hlex]
    rfl

theorem readTag_eq (hgap : ∀ c ∈ gap, Character.isBlank c) (hcs : EndsClass Character.isBlank cs)
    (last : Option Token) : (reader ⟨.tag, fresh, p, gap ++ cs⟩ last).fetch =
      (reader ⟨.tag, fresh, p.after gap, cs⟩ last).readTagToken := by
  simp only [Reader.fetch, Reader.readTag, Reader.afterBlanks, Reader.blanks, reader,
    takeWhile_append_of_ends hgap hcs, dropWhile_append_of_ends hgap hcs, Bool.false_and]
  rfl

theorem gives_close (hgap : ∀ c ∈ gap, Character.isBlank c) :
    Gives ⟨.tag, fresh, p, gap ++ '$' :: '}' :: rest⟩
      [(.tagMark, p.after gap), (.tagClose, (p.after gap).step '$')]
      ⟨.text, false, (p.after gap).after ['$', '}'], rest⟩ := by
  refine gives_of_delimiter (t := ⟨.tagMark, p.after gap, ((p.after gap).step '$').offset⟩)
    (u := ⟨.tagClose, (p.after gap).step '$', ((p.after gap).after ['$', '}']).offset⟩)
    fun last => ?_
  rw [readTag_eq hgap (.cons rfl)]
  rfl

theorem gives_tag (hgap : ∀ c ∈ gap, Character.isBlank c) (hcs : EndsClass Character.isBlank cs)
    (hne : cs ≠ []) (hclose : ∀ more, cs ≠ '$' :: '}' :: more)
    (hlex : Lexeme.ofTag fresh cs = ⟨raw, rest, .ok kind⟩) :
    Gives ⟨.tag, fresh, p, gap ++ cs⟩ [(kind, p.after gap)]
      ⟨.tag, false, (p.after gap).after raw, rest⟩ := by
  refine gives_of_fetch (t := ⟨kind, p.after gap, ((p.after gap).after raw).offset⟩) fun last => ?_
  rw [readTag_eq hgap hcs]
  unfold Reader.readTagToken
  split
  · next h => exact (hne h).elim
  · next h => exact (hclose _ h).elim
  · simp only [Reader.read, reader, hlex]
    rfl

end Spot

end Template
