import Template.Numeral
import Template.Double.Text

/-! Numerals in front of other text. -/
namespace Template

attribute [local instance (1100)] instPowNat

variable {p : Char → Bool} {cs more : List Char}

/-- Whatever follows, it does not begin with a character of the class. -/
def EndsClass (p : Char → Bool) (more : List Char) : Prop := ∀ c ∈ more.head?, p c = false

theorem EndsClass.nil (p : Char → Bool) : EndsClass p [] := by
  rintro c ⟨⟩

theorem EndsClass.cons {c : Char} (h : p c = false) : EndsClass p (c :: more) := by
  rintro d ⟨⟩
  exact h

theorem EndsClass.takeWhile (h : EndsClass p more) : more.takeWhile p = [] := by
  cases more with
  | nil => rfl
  | cons c more => exact List.takeWhile_cons_of_neg (by simp [h c rfl])

theorem EndsClass.dropWhile (h : EndsClass p more) : more.dropWhile p = more := by
  cases more with
  | nil => rfl
  | cons c more => exact List.dropWhile_cons_of_neg (by simp [h c rfl])

theorem endsClass_dropWhile (p : Char → Bool) (cs : List Char) : EndsClass p (cs.dropWhile p) := by
  intro c hc
  have hhead := List.head?_dropWhile_not p cs
  rw [hc] at hhead
  exact hhead

theorem takeWhile_append_of_ends (hcs : ∀ c ∈ cs, p c) (h : EndsClass p more) :
    (cs ++ more).takeWhile p = cs := by
  rw [List.takeWhile_append_of_pos hcs, h.takeWhile, List.append_nil]

theorem dropWhile_append_of_ends (hcs : ∀ c ∈ cs, p c) (h : EndsClass p more) :
    (cs ++ more).dropWhile p = more := by
  rw [List.dropWhile_append_of_pos hcs, h.dropWhile]

namespace Numeral

/-- The numeral has digits, and digits only, before its point and behind it. -/
structure WellFormed (n : Numeral) : Prop where
  nonempty : n.whole ≠ []
  whole : ∀ c ∈ n.whole, c.isDigit
  fraction : ∀ c ∈ n.fraction, c.isDigit

variable {n : Numeral}

/-- The first digit is not mistaken for a sign. -/
theorem WellFormed.exists_whole_eq_cons (hn : n.WellFormed) :
    ∃ c cs, n.whole = c :: cs ∧ c.isDigit ∧ c ≠ '-' := by
  obtain ⟨c, cs, hwhole⟩ := List.exists_cons_of_ne_nil hn.nonempty
  have hdigit := hn.whole c (hwhole ▸ List.mem_cons_self)
  refine ⟨c, cs, hwhole, hdigit, ?_⟩
  rintro rfl
  cases hdigit

theorem splitFraction_pointed {ds : List Char} (hds : ∀ c ∈ ds, c.isDigit)
    (hmore : EndsClass Char.isDigit more) (hpoint : more.head? ≠ some '.') :
    splitFraction (pointed ds ++ more) = (ds, more) := by
  cases ds with
  | nil =>
    cases more with
    | nil => rfl
    | cons c more =>
      rw [pointed, List.nil_append, splitFraction]
      intro cs hcs
      cases hcs
      exact hpoint rfl
  | cons d ds =>
    have htake := takeWhile_append_of_ends hds hmore
    have hdrop := dropWhile_append_of_ends hds hmore
    rw [pointed, List.cons_append, splitFraction, htake, hdrop, if_neg (List.cons_ne_nil d ds)]
    simp

theorem endsClass_pointed (ds : List Char) (hmore : EndsClass Char.isDigit more) :
    EndsClass Char.isDigit (pointed ds ++ more) := by
  cases ds with
  | nil => exact hmore
  | cons d ds => exact .cons rfl

theorem scanUnsigned_append (hn : n.WellFormed) (hmore : EndsClass Char.isDigit more)
    (hpoint : more.head? ≠ some '.') :
    scanUnsigned n.negative (n.whole ++ (pointed n.fraction ++ more)) = (n, more) := by
  have hends := endsClass_pointed n.fraction hmore
  simp only [scanUnsigned, takeWhile_append_of_ends hn.whole hends,
    dropWhile_append_of_ends hn.whole hends, splitFraction_pointed hn.fraction hmore hpoint]

theorem scan_of_ne {c : Char} (hc : c ≠ '-') : scan (c :: cs) = scanUnsigned false (c :: cs) := by
  rw [scan]
  intro ds hds
  exact hc (List.cons.inj hds).1

theorem scan_sign_append (hn : n.WellFormed) (more : List Char) :
    scan (sign n.negative ++ (n.whole ++ more)) = scanUnsigned n.negative (n.whole ++ more) := by
  cases hneg : n.negative with
  | true => simp only [sign, List.cons_append, List.nil_append, scan]
  | false =>
    obtain ⟨c, cs, hwhole, -, hminus⟩ := hn.exists_whole_eq_cons
    rw [hwhole]
    exact scan_of_ne hminus

/-- A numeral is read back where no digit and no point follows it. -/
theorem scan_raw (hn : n.WellFormed) (hmore : EndsClass Char.isDigit more)
    (hpoint : more.head? ≠ some '.') : scan (n.raw ++ more) = (n, more) := by
  have hscan := scanUnsigned_append hn hmore hpoint
  rwa [← scan_sign_append hn, ← List.append_assoc, ← List.append_assoc] at hscan

/-- A point that no digit follows is not read. -/
theorem scan_raw_point (hn : n.WellFormed) (hfraction : n.fraction = [])
    (hmore : EndsClass Char.isDigit more) : scan (n.raw ++ '.' :: more) = (n, '.' :: more) := by
  obtain ⟨negative, whole, fraction⟩ := n
  obtain rfl : fraction = [] := hfraction
  have hscan := scan_sign_append hn ('.' :: more)
  have hends : EndsClass Char.isDigit ('.' :: more) := .cons rfl
  simp only [scanUnsigned, takeWhile_append_of_ends hn.whole hends,
    dropWhile_append_of_ends hn.whole hends, splitFraction, hmore.takeWhile, if_true] at hscan
  simpa only [raw, pointed, List.append_nil, List.append_assoc] using hscan

theorem begins_cons {c : Char} (h : c ≠ '-') : begins (c :: cs) = c.isDigit := by
  rw [begins]
  · rfl
  · intro ds hds
    cases hds
    exact h rfl

theorem begins_raw (hn : n.WellFormed) (more : List Char) : begins (n.raw ++ more) := by
  obtain ⟨c, cs, hwhole, hdigit, hminus⟩ := hn.exists_whole_eq_cons
  cases hneg : n.negative with
  | true => simp [raw, hneg, sign, hwhole, begins, hdigit]
  | false => simp [raw, hneg, sign, hwhole, begins, hdigit, hminus]

def ofInt (i : Int) : Numeral := ⟨decide (i < 0), Nat.toDigits 10 i.natAbs, []⟩

theorem wellFormed_ofInt (i : Int) : (ofInt i).WellFormed where
  nonempty := Nat.toDigits_ne_nil
  whole _ hc := Nat.isDigit_of_mem_toDigits (by decide) (by decide) hc
  fraction _ hc := by cases hc

theorem raw_ofInt (i : Int) : (ofInt i).raw = (toString i).toList := by
  rw [Int.toString_eq_repr, Int.repr_eq_if]
  by_cases h : 0 ≤ i
  · have hnot : ¬ i < 0 := by omega
    have habs : i.natAbs = i.toNat := by omega
    simp [raw, ofInt, sign, pointed, h, hnot, habs]
  · have hneg : i < 0 := by omega
    have habs : i.natAbs = (-i).toNat := by omega
    simp [raw, ofInt, sign, pointed, h, hneg, habs]

theorem integer_ofInt (i : Int) : (ofInt i).integer = i := by
  simp only [integer, natural, ofInt, List.append_nil,
    Nat.ofDigitChars_toDigits (by decide : 1 < 10) (by decide)]
  split
  · next h =>
    have := of_decide_eq_true h
    omega
  · next h =>
    have := of_decide_eq_false (Bool.eq_false_iff.2 h)
    omega

theorem int32?_ofInt (value : Int32) : (ofInt value.toInt).int32? = some value := by
  rw [int32?, integer_ofInt, if_pos ⟨value.le_toInt, value.toInt_le⟩, Int32.ofInt_toInt]

theorem out_of_range (h : n.int32? = none) :
    n.integer < -2147483648 ∨ 2147483647 < n.integer := by
  have hmin : Int32.minValue.toInt = -2147483648 := rfl
  have hmax : Int32.maxValue.toInt = 2147483647 := rfl
  unfold int32? at h
  split at h
  · cases h
  · omega

end Numeral

theorem Double.nearest_lt_signBit (num den : Nat) : nearest num den < signBit :=
  Nat.lt_of_le_of_lt nearest_le_infinite (by decide)

theorem Numeral.negative_double (n : Numeral) : n.double.negative = n.negative :=
  Double.negative_ofMagnitude (Double.nearest_lt_signBit ..)

theorem Numeral.magnitude_double (n : Numeral) :
    n.double.magnitude = Double.nearest n.natural (10 ^ n.fraction.length) :=
  Double.magnitude_ofMagnitude (Double.nearest_lt_signBit ..)

theorem Decimal.isDigit_of_mem_placed {d : Decimal} {c : Char} (h : c ∈ d.placed) : c.isDigit := by
  simp only [placed, List.mem_append, List.mem_replicate] at h
  rcases h with (⟨-, rfl⟩ | h) | ⟨-, rfl⟩
  · rfl
  · exact Nat.isDigit_of_mem_toDigits (by decide) (by decide) h
  · rfl

theorem Decimal.whole_ne_nil (d : Decimal) : d.whole ≠ [] := by
  have hlen : d.places < d.placed.length := by
    simp only [placed, List.length_append, List.length_replicate]
    omega
  refine List.ne_nil_of_length_pos ?_
  rw [whole, List.length_take]
  omega

theorem Double.wellFormed_numeral (x : Double) : x.numeral.WellFormed where
  nonempty := x.decimal.whole_ne_nil
  whole _ hc := Decimal.isDigit_of_mem_placed (List.mem_of_mem_take hc)
  fraction c hc := by
    simp only [numeral] at hc
    split at hc
    · rw [List.mem_singleton.1 hc]
      rfl
    · exact Decimal.isDigit_of_mem_placed (List.mem_of_mem_drop hc)

theorem Double.fraction_numeral_ne_nil (x : Double) : x.numeral.fraction ≠ [] := by
  simp only [numeral]
  split
  · simp
  · next h => exact h

theorem Numeral.count_raw {n : Numeral} (hn : n.WellFormed) : n.raw.count '\n' = 0 := by
  have hdigits : ∀ ds : List Char, (∀ c ∈ ds, c.isDigit) → '\n' ∉ ds := by
    intro ds hds hmem
    cases hds _ hmem
  have hsign : '\n' ∉ sign n.negative := by
    cases n.negative <;> simp [sign]
  have hpointed : '\n' ∉ pointed n.fraction := by
    have := hdigits _ hn.fraction
    cases hfraction : n.fraction <;> simp_all [pointed]
  rw [List.count_eq_zero, raw]
  simp [hsign, hdigits _ hn.whole, hpointed]

theorem Double.count_pointed (x : Double) : x.pointed.count '\n' = 0 := by
  rw [pointed]
  split
  · exact Numeral.count_raw x.wellFormed_numeral
  · next hfinite =>
    rw [Bool.not_eq_true] at hfinite
    rw [plain, signed]
    cases x.isNaN <;> cases x.negative <;> simp [hfinite, Numeral.sign]

end Template
