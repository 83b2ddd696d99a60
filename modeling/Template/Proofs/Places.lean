import Mathlib.Data.String.Basic
import Template.Position

/-! Places and spans by the characters they stand behind. -/
namespace Template

open String

/-- The place right behind the characters, when these begin a source. -/
structure Position.IsBehind (p : Position) (before : List Char) : Prop where
  offset : p.offset = utf8Len before
  line : p.line = before.count '\n' + 1
  /-- The characters since the last line end count. -/
  column : p.column = (before.reverse.takeWhile (· != '\n')).length + 1

/-- The span begins behind some characters and ends behind `raw`, which follow them. -/
structure Span.Covers (s : Span) (before raw : List Char) : Prop where
  start : s.start.IsBehind before
  stop : s.stop = utf8Len (before ++ raw)

variable {p : Position} {c : Char} {before raw cs ds : List Char} {n : Nat} {s : Span}

namespace Position

theorem isBehind_nil : IsBehind {} [] := ⟨rfl, rfl, rfl⟩

theorem IsBehind.step (h : p.IsBehind before) (c : Char) : (p.step c).IsBehind (before ++ [c]) where
  offset := by simp [Position.step, h.offset]
  line := by
    by_cases hc : c = '\n'
    · simp [Position.step, hc, h.line]
    · simp [Position.step, hc, h.line]
  column := by
    by_cases hc : c = '\n'
    · simp [Position.step, hc]
    · simp [Position.step, hc, h.column]

/-- Reading on from a place leads to the place behind what has been read. -/
theorem IsBehind.after (h : p.IsBehind before) (cs : List Char) :
    (p.after cs).IsBehind (before ++ cs) := by
  induction cs generalizing p before with
  | nil => simpa using h
  | cons c cs ih => simpa using ih (h.step c)

theorem offset_after (p : Position) (cs : List Char) :
    (p.after cs).offset = p.offset + utf8Len cs := by
  induction cs generalizing p with
  | nil => rfl
  | cons c cs ih =>
    rw [after_cons, ih, utf8Len_cons]
    simp only [Position.step]
    omega

/-- Only one place is behind the characters. -/
theorem IsBehind.eq {q : Position} (hp : p.IsBehind before) (hq : q.IsBehind before) : p = q := by
  obtain ⟨offset, line, column⟩ := p
  obtain ⟨offset', line', column'⟩ := q
  obtain rfl : offset = offset' := hp.offset.trans hq.offset.symm
  obtain rfl : line = line' := hp.line.trans hq.line.symm
  obtain rfl : column = column' := hp.column.trans hq.column.symm
  rfl

/-- Behind more characters the line or the column is another. -/
theorem IsBehind.eq_nil_of_line_column {q : Position} (hp : p.IsBehind before)
    (hq : q.IsBehind (before ++ cs)) (hline : p.line = q.line) (hcolumn : p.column = q.column) :
    cs = [] := by
  rw [hp.line, hq.line, List.count_append] at hline
  have hnone : cs.count '\n' = 0 := by omega
  have hsame : ∀ c ∈ cs.reverse, (c != '\n') = true := by
    intro c hc
    rw [bne_iff_ne]
    rintro rfl
    exact List.count_eq_zero.1 hnone (List.mem_reverse.1 hc)
  rw [hp.column, hq.column, List.reverse_append, List.takeWhile_append_of_pos hsame,
    List.length_append, List.length_reverse] at hcolumn
  exact List.eq_nil_of_length_eq_zero (by omega)

/-- Line and column tell how much of a source stands before a place. -/
theorem IsBehind.eq_of_line_column {q : Position} {before' source : List Char}
    (hp : p.IsBehind before) (hq : q.IsBehind before') (h : before <+: source)
    (h' : before' <+: source) (hline : p.line = q.line) (hcolumn : p.column = q.column) :
    before = before' := by
  rcases List.prefix_or_prefix_of_prefix h h' with ⟨cs, rfl⟩ | ⟨cs, rfl⟩
  · rw [hp.eq_nil_of_line_column hq hline hcolumn, List.append_nil]
  · rw [hq.eq_nil_of_line_column hp hline.symm hcolumn.symm, List.append_nil]

end Position

theorem dropBytes_cons : dropBytes (n + c.utf8Size) (c :: cs) = dropBytes n cs := by
  obtain ⟨k, hk⟩ := Nat.exists_eq_succ_of_ne_zero c.utf8Size_pos.ne'
  rw [hk, Nat.add_succ, dropBytes, hk]
  congr 1
  omega

theorem takeBytes_cons : takeBytes (n + c.utf8Size) (c :: cs) = c :: takeBytes n cs := by
  obtain ⟨k, hk⟩ := Nat.exists_eq_succ_of_ne_zero c.utf8Size_pos.ne'
  rw [hk, Nat.add_succ, takeBytes, hk]
  congr 2
  omega

theorem dropBytes_utf8Len (cs ds : List Char) : dropBytes (utf8Len cs) (cs ++ ds) = ds := by
  induction cs with
  | nil => cases ds <;> rfl
  | cons c cs ih => rw [List.cons_append, utf8Len_cons, dropBytes_cons, ih]

theorem takeBytes_utf8Len (cs ds : List Char) : takeBytes (utf8Len cs) (cs ++ ds) = cs := by
  induction cs with
  | nil => cases ds <;> rfl
  | cons c cs ih => rw [List.cons_append, utf8Len_cons, takeBytes_cons, ih]

theorem takeBytes_between (before gap rest : List Char) :
    takeBytes (utf8Len (before ++ gap) - utf8Len before)
      (dropBytes (utf8Len before) (before ++ gap ++ rest)) = gap := by
  rw [List.append_assoc, dropBytes_utf8Len, utf8Len_append, Nat.add_sub_cancel_left,
    takeBytes_utf8Len]

namespace Span.Covers

theorem slice (h : s.Covers before raw) (rest : List Char) :
    s.slice (before ++ raw ++ rest) = raw := by
  rw [Span.slice, h.stop, h.start.offset, takeBytes_between]

theorem start_le_stop (h : s.Covers before raw) : s.start.offset ≤ s.stop := by
  rw [h.start.offset, h.stop, utf8Len_append]
  omega

theorem start_lt_stop (h : s.Covers before raw) (hraw : raw ≠ []) : s.start.offset < s.stop := by
  have hpos : utf8Len raw ≠ 0 := fun hzero => hraw (utf8Len_eq_zero.1 hzero)
  rw [h.start.offset, h.stop, utf8Len_append]
  omega

end Span.Covers

end Template
