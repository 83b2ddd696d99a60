import Template.Proofs.Meaning
import Template.Proofs.ReaderStates
import Template.Proofs.Rounding

/-! Numbers in tags: the longest numeral at the front, and the value that it has. -/
namespace Template

open Token

namespace Numeral

variable {n : Numeral} {cs : List Char}

/-- The longest numeral at the front, and what follows it. -/
structure IsFirst (n : Numeral) (cs more : List Char) : Prop where
  wellFormed : n.WellFormed
  raw_append : n.raw ++ more = cs
  longest : ∀ m : Numeral, m.WellFormed → m.raw <+: cs → m.raw <+: n.raw
  /-- A point is left where no digit follows it. -/
  point : ∀ m : Numeral, m.WellFormed → m.fraction = [] → ∀ rest, EndsClass Char.isDigit rest →
    cs = m.raw ++ '.' :: rest → n = m ∧ more = '.' :: rest

theorem isFirst_scan (h : begins cs) : (scan cs).1.IsFirst cs (scan cs).2 where
  wellFormed := wellFormed_scan h
  raw_append := raw_append_scan cs
  longest _ hm hprefix := raw_prefix_scan hm hprefix
  point m hm hfraction rest hrest hcs := by
    rw [hcs, scan_raw_point hm hfraction hrest]
    exact ⟨rfl, rfl⟩

/-- What the numeral is given as, or fails as. -/
inductive IsReadAs (n : Numeral) : Except LexicalError.Cause Kind → Prop
  | int {value : Int32} (hfraction : n.fraction = []) (hvalue : value.toInt = n.integer) :
      IsReadAs n (.ok (.int value))
  | outside (hfraction : n.fraction = [])
      (hvalue : n.integer < -2147483648 ∨ 2147483647 < n.integer) :
      IsReadAs n (.error (.badNumber (String.ofList n.raw)))
  | double {x : Double} (hfraction : n.fraction ≠ []) (hnegative : x.negative = n.negative)
      (hmagnitude : Double.IsRounding (n.natural / (10 ^ n.fraction.length : Nat)) x.magnitude) :
      IsReadAs n (.ok (.double x))

theorem isRounding_double (n : Numeral) :
    Double.IsRounding (n.natural / (10 ^ n.fraction.length : Nat)) n.double.magnitude := by
  rw [n.magnitude_double]
  exact Double.isRounding_nearest n.natural (Nat.pow_pos (show 0 < 10 by decide))

theorem exists_isReadAs (cs : List Char) : ∃ outcome,
    Lexeme.ofNumeral cs = ⟨(scan cs).1.raw, (scan cs).2, outcome⟩ ∧ (scan cs).1.IsReadAs outcome := by
  by_cases hfraction : (scan cs).1.fraction = []
  · cases hvalue : (scan cs).1.int32? with
    | some value =>
      exact ⟨_, Lexeme.ofNumeral_of_some hfraction hvalue,
        .int hfraction (toInt_of_int32? hvalue)⟩
    | none =>
      exact ⟨_, Lexeme.ofNumeral_of_none hfraction hvalue,
        .outside hfraction (out_of_range hvalue)⟩
  · exact ⟨_, Lexeme.ofNumeral_of_fraction hfraction,
      .double hfraction (negative_double _) (isRounding_double _)⟩

end Numeral

namespace Reader

variable {r : Reader} {source : String}

/-- The numeral at the front of a tag is read, and the reader stops behind it. -/
theorem next_of_begins (hended : r.ended = false) (hmode : r.mode = .tag)
    (hpending : r.pending = none) (hkept : r.keepsBlanks → r.blanks = [])
    (hbegins : Numeral.begins r.afterBlanks.rest) :
    let n := (Numeral.scan r.afterBlanks.rest).1
    ∃ outcome s, n.IsReadAs outcome ∧ s.rest = (Numeral.scan r.afterBlanks.rest).2 ∧
      s.position = r.afterBlanks.position.after n.raw ∧
      r.next = (match outcome with
        | .ok kind => .ok ⟨kind, r.afterBlanks.spanOf n.raw⟩
        | .error cause => .error ⟨cause, r.afterBlanks.position⟩, s) := by
  intro n
  obtain ⟨outcome, hlex, hread⟩ := Numeral.exists_isReadAs r.afterBlanks.rest
  rw [← Lexeme.ofTag_of_begins hbegins] at hlex
  cases hread with
  | int hfraction hvalue =>
    have hnext := next_of_ofTag hended hpending hmode hkept hlex (by simp)
    exact ⟨_, _, .int hfraction hvalue, rfl, rfl, hnext⟩
  | outside hfraction hvalue =>
    have hne : r.afterBlanks.rest ≠ [] := by
      intro hrest
      rw [hrest] at hbegins
      cases hbegins
    have hnext := next_of_ofTag_error hended hpending hmode hkept hne hlex
    exact ⟨_, _, .outside hfraction hvalue, rfl, rfl, hnext⟩
  | double hfraction hnegative hmagnitude =>
    have hnext := next_of_ofTag hended hpending hmode hkept hlex (by simp)
    exact ⟨_, _, .double hfraction hnegative hmagnitude, rfl, rfl, hnext⟩

/-- A reader in a tag in front of a numeral, perhaps behind blanks that it leaves out, reads the
longest that stands there and stops behind it. Without a fraction, the numeral is given as the integer
that it says, or is an error that shows it if 32 bits do not hold the integer. With a fraction, it
is given as the double that its number rounds to. -/
theorem next_numeral (hr : r.InUseOn source) (hmode : r.mode = .tag) (hpending : r.pending = none)
    (hkept : r.keepsBlanks → r.blanks = []) (hbegins : Numeral.begins r.afterBlanks.rest) :
    ∃ (n : Numeral) (more : List Char), n.IsFirst r.afterBlanks.rest more ∧
      (r.afterBlanks.spanOf n.raw).slice source.toList = n.raw ∧
      r.next.2.rest = more ∧ r.next.2.position = r.afterBlanks.position.after n.raw ∧
      (n.fraction = [] → -2147483648 ≤ n.integer ∧ n.integer ≤ 2147483647 →
        ∃ value : Int32, value.toInt = n.integer ∧
          r.next.1 = .ok ⟨.int value, r.afterBlanks.spanOf n.raw⟩) ∧
      (n.fraction = [] → ¬ (-2147483648 ≤ n.integer ∧ n.integer ≤ 2147483647) →
        r.next.1 = .error ⟨.badNumber (String.ofList n.raw), r.afterBlanks.position⟩) ∧
      (n.fraction ≠ [] → ∃ x : Double,
        r.next.1 = .ok ⟨.double x, r.afterBlanks.spanOf n.raw⟩ ∧ x.negative = n.negative ∧
          Double.IsRounding (n.natural / (10 ^ n.fraction.length : Nat)) x.magnitude) := by
  have hfirst := Numeral.isFirst_scan hbegins
  have hended : r.ended = false := by
    apply hr.ended_eq
    intro hrest
    rw [afterBlanks, advance, hrest] at hbegins
    cases hbegins
  obtain ⟨outcome, s, hread, hrest, hposition, hnext⟩ :=
    next_of_begins hended hmode hpending hkept hbegins
  rw [hnext]
  refine ⟨_, _, hfirst, hr.slice_afterBlanks hpending hfirst.raw_append, hrest, hposition, ?_⟩
  cases hread with
  | @int value hfraction hvalue =>
    have hmin : -2147483648 ≤ value.toInt := value.le_toInt
    have hmax : value.toInt ≤ 2147483647 := value.toInt_le
    exact ⟨fun _ _ => ⟨_, hvalue, rfl⟩, fun _ hrange => by omega, fun h => (h hfraction).elim⟩
  | outside hfraction hvalue =>
    exact ⟨fun _ hrange => by omega, fun _ _ => rfl, fun h => (h hfraction).elim⟩
  | double hfraction hnegative hmagnitude =>
    exact ⟨fun h => (hfraction h).elim, fun h => (hfraction h).elim,
      fun _ => ⟨_, rfl, hnegative, hmagnitude⟩⟩

/-- Of the least integer behind a blank, with a zero in front and a point behind it. -/
theorem next_numeral_least :
    let source := "\x7b$= -02147483648.$\x7d"
    let r := ((ofSource source).session [.next, .next, .next]).2
    r.InUseOn source ∧ r.mode = .tag ∧ r.pending = none ∧ r.keepsBlanks = false ∧
    Numeral.begins r.afterBlanks.rest ∧ r.next.2.rest = ['.', '$', '\x7d'] ∧
    ∃ value : Int32, value.toInt = -2147483648 ∧
      r.next.1 = .ok ⟨.int value, ⟨⟨4, 1, 5⟩, 16⟩⟩ := by
  intro source r
  let n : Numeral := ⟨true, ['0', '2', '1', '4', '7', '4', '8', '3', '6', '4', '8'], []⟩
  have hr : r.InUseOn source := ⟨_, rfl⟩
  have hmode : r.mode = .tag := by decide
  have hpending : r.pending = none := by decide
  have hkeeps : r.keepsBlanks = false := by decide
  have hbegins : Numeral.begins r.afterBlanks.rest := by decide
  have hn : n.WellFormed := ⟨by decide, by simp [n], by simp [n]⟩
  obtain ⟨m, more, hfirst, -, hrest, -, hint, -⟩ :=
    next_numeral hr hmode hpending (by simp [hkeeps]) hbegins
  obtain ⟨rfl, rfl⟩ := hfirst.point n hn rfl ['$', '\x7d'] (.cons rfl) (by decide)
  have hinteger : n.integer = -2147483648 := by decide
  have hspan : r.afterBlanks.spanOf n.raw = ⟨⟨4, 1, 5⟩, 16⟩ := by decide
  rw [hinteger, hspan] at hint
  exact ⟨hr, hmode, hpending, hkeeps, hbegins, hrest, hint rfl (by decide)⟩

end Reader

end Template
