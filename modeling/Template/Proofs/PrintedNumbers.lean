import Template.Proofs.ReaderStates

/-! Written numbers in tags are read as themselves, the infinities apart. -/
namespace Template

open Token Character

variable {x : Double} {more : List Char}

namespace Element

theorem source_of_isNaN (h : x.isNaN) : (double x).source = ['N', 'a', 'N'] := by
  have hfinite : x.isFinite = false := by
    rw [Bool.eq_false_iff]
    intro hfinite
    cases h.symm.trans (isFinite_double_iff.1 hfinite).2
  simp [source, Double.pointed, Double.plain, Double.signed, hfinite, h]

end Element

/-- What is written for a double that is not finite begins with a minus sign or is a word. -/
theorem Lexeme.ofTag_of_not_isFinite (h : ¬ x.isFinite) (hmore : Separated more) :
    ∃ kind raw rest, raw ++ rest = (Element.double x).source ++ more ∧
      ofTag false (raw ++ rest) = ⟨raw, rest, .ok kind⟩ ∧
      (kind = .operator '-' ∨ ∃ name, kind = .identifier name) := by
  have hname := hmore.endsClass fun _ => isNameChar_eq_false_of_isBlank
  by_cases hinfinite : (Element.double x).isInfinite
  · have hsource := Element.source_of_isInfinite hinfinite
    rw [hsource, List.append_assoc]
    cases (Element.double x).isNegativeInfinity with
    | true =>
      have hends : EndsClass Char.isDigit (Name.infinity.text.toList ++ more) := .cons rfl
      exact ⟨_, ['-'], _, rfl, ofTag_operator .sub hends, .inl rfl⟩
    | false =>
      have hword := ofTag_word false Name.infinity hname
      exact ⟨_, Name.infinity.text.toList, more, rfl, hword, .inr ⟨_, rfl⟩⟩
  · have hnumber : x.isNaN := by
      rw [Bool.not_eq_true] at hinfinite
      by_contra hnumber
      exact h (Element.isFinite_double_iff.2 ⟨hinfinite, Bool.eq_false_iff.2 hnumber⟩)
    have hword := ofTag_word false ⟨"NaN", by decide⟩ hname
    rw [Element.source_of_isNaN hnumber]
    exact ⟨_, _, _, rfl, hword, .inr ⟨_, rfl⟩⟩

namespace Reader

variable {r : Reader} {source : String} {kind kind' : Kind} {raw raw' rest rest' : List Char}

theorem NextIs.kind_eq (h : r.NextIs source kind raw rest) (h' : r.NextIs source kind' raw' rest') :
    kind = kind' := by
  obtain ⟨t, s, hnext, rfl, -⟩ := h
  obtain ⟨t', s', hnext', rfl, -⟩ := h'
  rw [hnext] at hnext'
  cases hnext'
  rfl

section

variable (hr : r.InUseOn source) (hmode : r.mode = .tag) (hfresh : r.freshTag = false)
  (hmore : Separated more)
include hr hmode hfresh hmore

/-- What is written for a literal that is neither an infinity nor not a number is its token. -/
theorem nextIs_source {e : Element} (hfinite : e.isInfinite = false) (hnumber : e.isNaN = false)
    (hrest : r.rest = e.source ++ more) : r.NextIs source e.kind e.source more := by
  have hlex := Lexeme.ofTag_source hfinite hnumber hmore
  rw [← hfresh] at hlex
  exact hr.nextIs hmode (hr.pending_eq_none hmode hfresh) hrest hlex e.kind_ne_other

theorem not_nextIs_double (h : ¬ x.isFinite) (hrest : r.rest = (Element.double x).source ++ more)
    (y : Double) (raw rest : List Char) : ¬ r.NextIs source (.double y) raw rest := by
  intro hnext
  obtain ⟨kind, raw', rest', happend, hlex, hkind⟩ := Lexeme.ofTag_of_not_isFinite h hmore
  rw [← hfresh] at hlex
  have hother (c : Char) : kind ≠ .other c := by
    rintro rfl
    simp at hkind
  have hword := hr.nextIs hmode (hr.pending_eq_none hmode hfresh) (hrest.trans happend.symm) hlex
    hother
  obtain rfl := hnext.kind_eq hword
  simp at hkind

end

/-- A reader that has read something of its tag and stands in front of a written number, behind which
white space follows or nothing, reads an integer as itself. It reads a double as itself, to the last
bit, if that is finite, and otherwise it reads no double there. -/
theorem next_written_number (hr : r.InUseOn source) (hmode : r.mode = .tag)
    (hfresh : r.freshTag = false) (hmore : Separated more) :
    (∀ i : Int32, r.rest = (Element.int i).source ++ more →
      r.NextIs source (.int i) (Element.int i).source more) ∧
    ∀ x : Double, r.rest = (Element.double x).source ++ more →
      (r.NextIs source (.double x) (Element.double x).source more ↔ x.isFinite) ∧
      (¬ x.isFinite → ∀ y raw rest, ¬ r.NextIs source (.double y) raw rest) := by
  constructor
  · intro i hrest
    exact nextIs_source hr hmode hfresh hmore (e := .int i) rfl rfl hrest
  · intro x hrest
    have hother (hx : ¬ x.isFinite) := not_nextIs_double hr hmode hfresh hmore hx hrest
    refine ⟨⟨fun hnext => ?_, fun hx => ?_⟩, hother⟩
    · by_contra hx
      exact hother hx _ _ _ hnext
    · obtain ⟨hfinite, hnumber⟩ := Element.isFinite_double_iff.1 hx
      exact nextIs_source hr hmode hfresh hmore hfinite hnumber hrest

/-- Of negative zero, which keeps its sign and its fraction. -/
theorem next_written_number_negative_zero :
    let source := "\x7b$=-0.0 $\x7d"
    let x := Double.ofMagnitude true 0
    let r := ((ofSource source).session [.next, .next, .next]).2
    r.InUseOn source ∧ r.mode = .tag ∧ r.freshTag = false ∧ Separated [' ', '$', '\x7d'] ∧
    r.rest = (Element.double x).source ++ [' ', '$', '\x7d'] ∧ x.isFinite ∧
    r.NextIs source (.double x) ['-', '0', '.', '0'] [' ', '$', '\x7d'] := by
  intro source x r
  have hr : r.InUseOn source := ⟨_, rfl⟩
  have hmode : r.mode = .tag := by decide
  have hfresh : r.freshTag = false := by decide
  have hmore : Separated [' ', '$', '\x7d'] := .cons rfl
  have hsource : (Element.double x).source = ['-', '0', '.', '0'] := by decide
  have hrest : r.rest = (Element.double x).source ++ [' ', '$', '\x7d'] := by
    rw [hsource]
    decide
  have hx : x.isFinite := by decide
  have hnext := ((next_written_number hr hmode hfresh hmore).2 x hrest).1.2 hx
  rw [hsource] at hnext
  exact ⟨hr, hmode, hfresh, hmore, hrest, hx, hnext⟩

end Reader

end Template
