import Template.Proofs.BlamedTokens
import Template.Proofs.Concatenation
import Template.Proofs.StandingErrors

/-! Ends behind a source that leaves loops open. -/
namespace Template

open Token Piece

def endTags : Nat → String
  | 0 => ""
  | n + 1 => endTags n ++ "\x7b$END$\x7d"

/-- The source consists of well-formed pieces that open `n` loops more than they close, and no end
comes without a loop to close. -/
def LeavesOpen (source : String) (n : Nat) : Prop :=
  ∃ ps : List Piece, (∀ p ∈ ps, p.WellFormed) ∧ Covered ps ∧ openings ps = closings ps + n ∧
    tokenKinds source = .ok (ps.flatMap Piece.kinds ++ [.eof])

variable {source : String} {n : Nat} {place : Position}

theorem append_endTags_succ (source : String) (n : Nat) :
    source ++ endTags (n + 1) = source ++ endTags n ++ "\x7b$END$\x7d" := by
  rw [endTags, String.append_assoc]

theorem append_endTags_add (source : String) (n k : Nat) :
    source ++ endTags (n + k) = source ++ endTags n ++ endTags k := by
  induction k with
  | zero => rw [Nat.add_zero, endTags, String.append_empty]
  | succ k ih => rw [← Nat.add_assoc, append_endTags_succ, append_endTags_succ, ih]

/-- Loops are found to be open at the end of input, where all pieces have been read. -/
theorem leavesOpen_of_parse (h : Document.parse source = .error ⟨.openLoops n, place⟩) :
    LeavesOpen source n := by
  rcases cause_of_parse_error h with
    ⟨cause, hcause, -⟩ | ⟨b, r, t, s, hreached, hnext, hrefuses⟩
  · cases hcause
  obtain ⟨ps, before, front, hreads, hkinds, htook⟩ := hreached.took
  obtain ⟨-, hopen⟩ := (hrefuses.balance htook).2 n rfl
  refine ⟨ps, htook.wellFormed, htook.covered, hopen, ?_⟩
  cases hrefuses with
  | openLoops hstage hkind _ =>
    have hfront : front = [] := by
      have htaken := htook.stage
      rw [hstage] at htaken
      cases htaken
      rfl
    subst hfront
    rw [List.append_nil] at hreads hkinds
    rw [tokenKinds_eq_ok_iff, Reader.run_of_reads hreads hkinds, Reader.run_of_token hnext,
      if_pos hkind]
    refine ⟨rfl, ?_⟩
    rw [List.map_append, htook.kinds, List.map_singleton, hkind]

namespace LeavesOpen

/-- An end is one more piece, which closes a loop. -/
theorem append_end (h : LeavesOpen source (n + 1)) : LeavesOpen (source ++ "\x7b$END$\x7d") n := by
  obtain ⟨ps, hps, hcovered, hopen, htokens⟩ := h
  have hbalance : openings (ps ++ [.endLoop]) = closings (ps ++ [.endLoop]) + n := by
    rw [openings_concat, closings_concat, opens, closes, Bool.toNat_false, Bool.toNat_true]
    omega
  refine ⟨ps ++ [.endLoop], ?_, covered_concat_iff.2 ⟨hcovered, by omega⟩, hbalance, ?_⟩
  · rw [List.forall_mem_append, List.forall_mem_singleton]
    exact ⟨hps, trivial⟩
  · rw [tokenKinds_append_end htokens, List.flatMap_append, List.flatMap_singleton]
    rfl

theorem append_endTags {k : Nat} (h : LeavesOpen source (n + k)) :
    LeavesOpen (source ++ endTags k) n := by
  induction k generalizing n with
  | zero => simpa [endTags] using h
  | succ k ih =>
    rw [append_endTags_succ]
    refine append_end (ih ?_)
    rwa [Nat.add_assoc, Nat.add_comm 1 k]

/-- Loops that are left open are counted behind the last character. -/
theorem parse_error (h : LeavesOpen source n) (hn : 0 < n) :
    Document.parse source = .error ⟨.openLoops n, Position.after {} source.toList⟩ := by
  obtain ⟨ps, hps, hcovered, hopen, htokens⟩ := h
  rw [(parse_of_covered hps htokens hcovered).2 (by omega), hopen, Nat.add_sub_cancel_left]

theorem parse_ok (h : LeavesOpen source 0) : ∃ d, Document.parse source = .ok d := by
  obtain ⟨ps, hps, hcovered, hopen, htokens⟩ := h
  exact (parse_of_covered hps htokens hcovered).1 hopen

end LeavesOpen

/-- An end behind what parses by itself has no loop to close. -/
theorem parse_append_strayEnd {d : Document} (h : Document.parse source = .ok d) :
    Document.parse (source ++ "\x7b$END$\x7d") =
      .error ⟨.strayEnd, Position.after {} (source ++ "\x7b$").toList⟩ := by
  have hend : Document.parse "\x7b$END$\x7d" =
      .error ⟨.strayEnd, Position.after {} ['{', '$']⟩ := by
    decide +kernel
  rw [parse_append_error h hend not_opensTagAcross_end, Position.behind_after (Nat.le_refl 1),
    Position.behind_start, ← Position.after_append, String.toList_append]
  rfl

/-- Such an end is reported whatever comes behind. -/
theorem parse_append_of_strayEnd (h : Document.parse source = .error ⟨.strayEnd, place⟩)
    (more : String) : Document.parse (source ++ more) = .error ⟨.strayEnd, place⟩ := by
  rcases Builder.Reached.start.exists_of_feedFrom h with
    ⟨b, r, error, -, -, hlexical⟩ | ⟨b, r, t, s, hreached, hnext, hfeed⟩
  · cases hlexical
  · exact parse_append_of_refuses hreached hnext hfeed trivial more

/-- Behind a source that fails for `n` open loops, each end closes one of them. Fewer ends leave the
rest of the loops open, `n` ends complete the source, and the end behind these is reported at its
name, whatever number of ends there are. -/
theorem parse_append_ends (h : Document.parse source = .error ⟨.openLoops n, place⟩) (j : Nat) :
    (j < n → Document.parse (source ++ endTags j) =
      .error ⟨.openLoops (n - j), Position.after {} (source ++ endTags j).toList⟩) ∧
    (j = n → ∃ d, Document.parse (source ++ endTags j) = .ok d) ∧
    (n < j → Document.parse (source ++ endTags j) =
      .error ⟨.strayEnd, Position.after {} (source ++ endTags n ++ "\x7b$").toList⟩) := by
  have hopen := leavesOpen_of_parse h
  have hclosed : LeavesOpen (source ++ endTags n) 0 := by
    refine LeavesOpen.append_endTags ?_
    rwa [Nat.zero_add]
  refine ⟨fun hlt => ?_, ?_, fun hlt => ?_⟩
  · have hrest : LeavesOpen (source ++ endTags j) (n - j) := by
      refine LeavesOpen.append_endTags ?_
      rwa [Nat.sub_add_cancel (Nat.le_of_lt hlt)]
    exact hrest.parse_error (Nat.sub_pos_of_lt hlt)
  · rintro rfl
    exact hclosed.parse_ok
  · obtain ⟨k, rfl⟩ := Nat.exists_eq_add_of_le hlt
    obtain ⟨d, hparse⟩ := hclosed.parse_ok
    rw [append_endTags_add, append_endTags_succ]
    exact parse_append_of_strayEnd (parse_append_strayEnd hparse) (endTags k)

/-- Two loops, the inner one with a brace at its end, and one, two and three ends behind them. -/
theorem parse_append_ends_brace :
    Document.parse ("\x7b$FOR i 1 2$\x7d\x7b$FOR j 1 2$\x7d\x7b" ++ endTags 1) =
      .error ⟨.openLoops 1, ⟨34, 1, 35⟩⟩ ∧
    (∃ d, Document.parse ("\x7b$FOR i 1 2$\x7d\x7b$FOR j 1 2$\x7d\x7b" ++ endTags 2) = .ok d) ∧
    Document.parse ("\x7b$FOR i 1 2$\x7d\x7b$FOR j 1 2$\x7d\x7b" ++ endTags 3) =
      .error ⟨.strayEnd, ⟨43, 1, 44⟩⟩ := by
  have hopen : Document.parse "\x7b$FOR i 1 2$\x7d\x7b$FOR j 1 2$\x7d\x7b" =
      .error ⟨.openLoops 2, ⟨27, 1, 28⟩⟩ := by
    decide +kernel
  refine ⟨?_, ?_, ?_⟩
  · exact (parse_append_ends hopen 1).1 (by decide)
  · exact (parse_append_ends hopen 2).2.1 rfl
  · exact (parse_append_ends hopen 3).2.2 (by decide)

end Template
