import Template.Proofs.Elements
import Template.Proofs.Escaping
import Template.Proofs.Grammar
import Template.Proofs.Reading

/-! Elements in tags; the infinities are written as words and read back as such. -/
namespace Template

open Token Character

variable {c : Char} {cs more : List Char} {first : Bool} {name : Name} {e : Element}

theorem isAlpha_iff_toNat : c.isAlpha ↔
    (65 ≤ c.toNat ∧ c.toNat ≤ 90) ∨ (97 ≤ c.toNat ∧ c.toNat ≤ 122) := by
  have hclass : c.isAlpha = (decide ('A'.val ≤ c.val ∧ c.val ≤ 'Z'.val) ||
      (decide ('a'.val ≤ c.val) && decide (c.val ≤ 'z'.val))) :=
    rfl
  simp [hclass, UInt32.le_iff_toNat_le]

theorem isAlphabetic_iff_of_ascii (h : c.toNat < 128) : isAlphabetic c ↔
    (65 ≤ c.toNat ∧ c.toNat ≤ 90) ∨ (97 ≤ c.toNat ∧ c.toNat ≤ 122) := by
  rw [isAlphabetic, inClass_of_ascii h, isAlpha_iff_toNat]

theorem isBlank_iff_of_ascii (h : c.toNat < 128) : isBlank c ↔
    c.toNat = 32 ∨ (9 ≤ c.toNat ∧ c.toNat ≤ 13) := by
  rw [isBlank, inClass_of_ascii h]
  simp [Char.le_def, UInt32.le_iff_toNat_le, ← Char.toNat_inj]

theorem isDigit_eq_false_of_isAlphabetic (h : isAlphabetic c) : c.isDigit = false := by
  rw [Bool.eq_false_iff, ne_eq, Char.isDigit_iff_toNat]
  rintro ⟨hl, hu⟩
  have hascii : c.toNat < 128 := Nat.lt_of_le_of_lt hu (by decide)
  rcases (isAlphabetic_iff_of_ascii hascii).1 h with h | h
  · exact absurd (Nat.le_trans h.1 hu) (by decide)
  · exact absurd (Nat.le_trans h.1 hu) (by decide)

theorem isNameChar_eq_false_of_isBlank (h : isBlank c) : isNameChar c = false := by
  have hdisjoint : ∀ r ∈ blankRanges, ∀ s ∈ alphabeticRanges ++ numericRanges,
      r.2 < s.1 ∨ s.2 < r.1 := by
    decide +kernel
  have hunderscore : c ≠ '_' := by
    rintro rfl
    cases h
  by_cases hascii : c.toNat < 128
  · have hblank := (isBlank_iff_of_ascii hascii).1 h
    have halpha : isAlphabetic c = false := by
      rw [Bool.eq_false_iff, ne_eq, isAlphabetic_iff_of_ascii hascii]
      omega
    have hdigit : isNumeric c = false := by
      rw [isNumeric, inClass_of_ascii hascii, Bool.eq_false_iff, ne_eq, Char.isDigit_iff_toNat]
      rintro ⟨hl, -⟩
      have : 48 ≤ c.toNat := hl
      omega
    simp [isNameChar, halpha, hdigit, hunderscore]
  · obtain ⟨r, hr, hlow, hhigh⟩ := mem_ranges_of_inClass h hascii
    have hout {ascii : Char → Bool} {ranges : List (Nat × Nat)}
        (hsub : ranges ⊆ alphabeticRanges ++ numericRanges) : inClass ascii ranges c = false := by
      rw [Bool.eq_false_iff]
      intro hin
      obtain ⟨s, hs, hlow', hhigh'⟩ := mem_ranges_of_inClass hin hascii
      have := hdisjoint r hr s (hsub hs)
      omega
    have halpha : isAlphabetic c = false := hout (List.subset_append_left ..)
    have hnumeric : isNumeric c = false := hout (List.subset_append_right ..)
    simp [isNameChar, halpha, hnumeric, hunderscore]

theorem isNameChar_of_isAlphabetic (h : isAlphabetic c) : isNameChar c := by
  simp [isNameChar, h]

theorem isDigit_eq_false_of_isBlank (h : isBlank c) : c.isDigit = false := by
  rw [Bool.eq_false_iff, ne_eq, Char.isDigit_iff_toNat]
  rintro ⟨hl, hu⟩
  have hascii : c.toNat < 128 := Nat.lt_of_le_of_lt hu (by decide)
  have hblank := (isBlank_iff_of_ascii hascii).1 h
  have : 48 ≤ c.toNat := hl
  omega

/-- Nothing follows, or white space. -/
def Separated (more : List Char) : Prop := ∀ c ∈ more.head?, isBlank c

theorem Separated.cons (h : isBlank c) : Separated (c :: more) := by
  rintro d ⟨⟩
  exact h

theorem Separated.endsClass {p : Char → Bool} (h : Separated more)
    (hp : ∀ c, isBlank c → p c = false) : EndsClass p more :=
  fun c hc => hp c (h c hc)

theorem Separated.head? (h : Separated more) : more.head? ≠ some '.' := by
  intro hpoint
  cases h _ hpoint

namespace Lexeme

/-- The characters that other tokens than words begin with, digits left out. -/
def starters : List Char := ['=', '"', '@', '-', '+', '*', '/', '^']

/-- A character that begins a word or nothing, by the class that it is in. -/
theorem ofTag_of_class (p : Char → Bool) (hc : p c) (hp : starters.any p = false)
    (hdigit : c.isDigit = false) : ofTag first (c :: cs) =
      if isAlphabetic c then ofWord first (c :: cs) else ⟨[c], cs, .ok (.other c)⟩ := by
  have hne : ∀ d ∈ starters, c ≠ d := by
    rintro d hd rfl
    exact List.any_eq_false.1 hp c hd hc
  simp only [starters, List.forall_mem_cons] at hne
  obtain ⟨hequals, hquote, hat, hminus, hplus, htimes, hslash, hcaret, -⟩ := hne
  have hoperator : isOperatorChar c = false := by
    simp [isOperatorChar, hplus, hminus, htimes, hslash, hcaret]
  simp [ofTag, hequals, hquote, hat, Numeral.begins_cons hminus, hdigit, hoperator]

theorem ofTag_eq_other (h : isBlank c ∨ c = '$') :
    ofTag first (c :: cs) = ⟨[c], cs, .ok (.other c)⟩ := by
  rcases h with h | rfl
  · have hname := isNameChar_eq_false_of_isBlank h
    simp only [isNameChar, Bool.or_eq_false_iff] at hname
    rw [ofTag_of_class isBlank h rfl (isDigit_eq_false_of_isBlank h),
      if_neg (by simp [hname.1.1])]
  · exact ofTag_of_class (· == '$') rfl rfl rfl

theorem exists_cons_of_name (name : Name) :
    ∃ c cs, name.text.toList = c :: cs ∧ isAlphabetic c ∧ ∀ d ∈ c :: cs, isNameChar d := by
  have hname := name.wellFormed
  cases h : name.text.toList with
  | nil => simp [h, isName] at hname
  | cons c cs =>
    simp only [h, isName, Bool.and_eq_true, List.all_eq_true] at hname
    refine ⟨c, cs, rfl, hname.1, ?_⟩
    rintro d (_ | ⟨_, hd⟩)
    · exact isNameChar_of_isAlphabetic hname.1
    · exact hname.2 d hd

theorem ofTag_of_isAlphabetic (hc : isAlphabetic c) :
    ofTag first (c :: cs) = ofWord first (c :: cs) := by
  rw [ofTag_of_class isAlphabetic hc rfl (isDigit_eq_false_of_isAlphabetic hc), if_pos hc]

/-- A word is read up to its end; what kind it is depends on its place in the tag. -/
theorem ofTag_word (first : Bool) (name : Name) (hmore : EndsClass isNameChar more) :
    ofTag first (name.text.toList ++ more) = ⟨name.text.toList, more, .ok
      (match first, keyword? name.text.toList with
        | true, some k => .keyword k
        | _, _ => .identifier name.text)⟩ := by
  obtain ⟨c, cs, hname, hc, hall⟩ := exists_cons_of_name name
  have htake := takeWhile_append_of_ends hall hmore
  have hdrop := dropWhile_append_of_ends hall hmore
  have htext : String.ofList (c :: cs) = name.text := by
    rw [← hname, String.ofList_toList]
  rw [List.cons_append] at htake hdrop
  rw [hname, List.cons_append, ofTag_of_isAlphabetic hc]
  cases first with
  | false => simp only [ofWord, htake, hdrop, htext]
  | true => cases hk : keyword? (c :: cs) <;> simp only [ofWord, htake, hdrop, htext, hk]

theorem ofTag_function (name : Name) (hmore : EndsClass isNameChar more) :
    ofTag first ('@' :: name.text.toList ++ more) =
      ⟨'@' :: name.text.toList, more, .ok (.function name.text)⟩ := by
  obtain ⟨c, cs, hname, hc, hall⟩ := exists_cons_of_name name
  have htake := takeWhile_append_of_ends hall hmore
  have hdrop := dropWhile_append_of_ends hall hmore
  have htext : String.ofList (c :: cs) = name.text := by
    rw [← hname, String.ofList_toList]
  rw [List.cons_append] at htake hdrop
  simp [hname, ofTag, hc, ofFunction, htake, hdrop, htext]

/-- An operator is read as such, if it is no minus sign in front of a digit. -/
theorem ofTag_of_isOperatorChar (hc : isOperatorChar c)
    (hmore : c = '-' → EndsClass Char.isDigit more) :
    ofTag first (c :: more) = ⟨[c], more, .ok (.operator c)⟩ := by
  obtain ⟨hequals, hquote, hat, hdigit⟩ : c ≠ '=' ∧ c ≠ '"' ∧ c ≠ '@' ∧ c.isDigit = false := by
    simp only [isOperatorChar, List.contains_iff_mem, List.mem_cons, List.not_mem_nil,
      or_false] at hc
    rcases hc with rfl | rfl | rfl | rfl | rfl <;> decide
  have hbegins : Numeral.begins (c :: more) = false := by
    by_cases hminus : c = '-'
    · subst hminus
      cases more with
      | nil => rfl
      | cons d more => exact hmore rfl d rfl
    · rw [Numeral.begins_cons hminus, hdigit]
  simp [ofTag, hequals, hquote, hat, hbegins, hc]

theorem ofTag_operator (op : Operator) (hmore : EndsClass Char.isDigit more) :
    ofTag false (op.char :: more) = ⟨[op.char], more, .ok (.operator op.char)⟩ :=
  ofTag_of_isOperatorChar (by cases op <;> rfl) fun _ => hmore

theorem ofTag_of_begins (h : Numeral.begins cs) : ofTag first cs = ofNumeral cs := by
  cases cs with
  | nil => cases h
  | cons c cs =>
    obtain ⟨hequals, hquote, hat⟩ : c ≠ '=' ∧ c ≠ '"' ∧ c ≠ '@' := by
      refine ⟨?_, ?_, ?_⟩ <;> rintro rfl <;> simp [Numeral.begins] at h
    simp [ofTag, h, hequals, hquote, hat]

theorem ofNumeral_of_fraction (h : (Numeral.scan cs).1.fraction ≠ []) : ofNumeral cs =
    ⟨(Numeral.scan cs).1.raw, (Numeral.scan cs).2, .ok (.double (Numeral.scan cs).1.double)⟩ := by
  obtain ⟨d, ds, hds⟩ := List.exists_cons_of_ne_nil h
  simp only [ofNumeral, hds]

theorem ofNumeral_of_some {value : Int32} (h : (Numeral.scan cs).1.fraction = [])
    (hvalue : (Numeral.scan cs).1.int32? = some value) : ofNumeral cs =
      ⟨(Numeral.scan cs).1.raw, (Numeral.scan cs).2, .ok (.int value)⟩ := by
  simp only [ofNumeral, h, hvalue]

theorem ofNumeral_of_none (h : (Numeral.scan cs).1.fraction = [])
    (hvalue : (Numeral.scan cs).1.int32? = none) : ofNumeral cs =
      ⟨(Numeral.scan cs).1.raw, (Numeral.scan cs).2,
        .error (.badNumber (String.ofList (Numeral.scan cs).1.raw))⟩ := by
  simp only [ofNumeral, h, hvalue]

theorem ofTag_fraction (first : Bool) {n : Numeral} (hn : n.WellFormed)
    (hfraction : n.fraction ≠ []) (hmore : Separated more) :
    ofTag first (n.raw ++ more) = ⟨n.raw, more, .ok (.double n.double)⟩ := by
  have hscan := Numeral.scan_raw hn
    (hmore.endsClass fun _ => isDigit_eq_false_of_isBlank) hmore.head?
  rw [ofTag_of_begins (Numeral.begins_raw hn more), ofNumeral_of_fraction (by rwa [hscan]), hscan]

theorem ofTag_int (first : Bool) (value : Int32) (hmore : Separated more) :
    ofTag first ((Numeral.ofInt value.toInt).raw ++ more) =
      ⟨(Numeral.ofInt value.toInt).raw, more, .ok (.int value)⟩ := by
  have hn := Numeral.wellFormed_ofInt value.toInt
  have hscan := Numeral.scan_raw hn
    (hmore.endsClass fun _ => isDigit_eq_false_of_isBlank) hmore.head?
  rw [ofTag_of_begins (Numeral.begins_raw hn more),
    ofNumeral_of_some (by rw [hscan]; rfl) (by rw [hscan, Numeral.int32?_ofInt]), hscan]

end Lexeme

/-- The text of an element is one token, unless the element is an infinity. -/
theorem Lexeme.ofTag_source (hfinite : e.isInfinite = false) (hnumber : e.isNaN = false)
    (hmore : Separated more) : ofTag false (e.source ++ more) = ⟨e.source, more, .ok e.kind⟩ := by
  have hname := hmore.endsClass fun _ => isNameChar_eq_false_of_isBlank
  have hdigit := hmore.endsClass fun _ => isDigit_eq_false_of_isBlank
  cases e with
  | var name => exact ofTag_word false name hname
  | string value =>
    rw [Element.source, ofTag_encodeString, String.ofList_toList]
    rfl
  | int value =>
    have hint := ofTag_int false value hmore
    rw [Numeral.raw_ofInt] at hint
    exact hint
  | double x =>
    have hx : x.isFinite := Element.isFinite_double_iff.2 ⟨hfinite, hnumber⟩
    have hfraction := ofTag_fraction false x.wellFormed_numeral x.fraction_numeral_ne_nil hmore
    rw [Element.source, Double.pointed, if_pos hx, hfraction, Double.double_numeral hx]
    rfl
  | function name => exact ofTag_function name hname
  | operator op => exact ofTag_operator op hdigit

/-- The word that an infinity is written with. -/
def Name.infinity : Name := ⟨"inf", by decide⟩

namespace Element

/-- The element, or the word that it is written with. -/
def asWord (e : Element) : Element := if e.isInfinite then .var .infinity else e

/-- What the text of an element is read as. -/
def reread (e : Element) : List Element :=
  if e.isNegativeInfinity then [.operator .sub, .var .infinity] else [e.asWord]

/-- The tokens that the text of an element is read as when it stands at a place. -/
def marks (e : Element) (p : Position) : List Mark :=
  if e.isNegativeInfinity then [(.operator '-', p), (.identifier "inf", p.step '-')]
  else [(e.asWord.kind, p)]

theorem map_fst_marks (e : Element) (p : Position) :
    (e.marks p).map Prod.fst = e.reread.map kind := by
  unfold marks reread
  split <;> rfl

theorem source_of_isInfinite (h : e.isInfinite) :
    e.source = Numeral.sign e.isNegativeInfinity ++ Name.infinity.text.toList := by
  cases e with
  | double x =>
    have hinfinite : x.isInfinite := h
    have hmagnitude : x.magnitude = Double.infinite := by
      simpa [Double.isInfinite] using hinfinite
    have hfinite : x.isFinite = false := by simp [Double.isFinite, hmagnitude]
    have hnumber : x.isNaN = false := by simp [Double.isNaN, hmagnitude]
    simp [source, Double.pointed, Double.plain, Double.signed, hfinite, hnumber,
      isNegativeInfinity, hinfinite, Name.infinity]
  | _ => cases h

end Element

theorem forall_blank_space : ∀ c ∈ [' '], isBlank c := by
  rintro c (_ | ⟨_, ⟨⟩⟩)
  rfl

namespace Spot

variable {fresh : Bool} {p : Position} {gap raw rest : List Char} {kind : Kind}

theorem gives_lexeme (hgap : ∀ c ∈ gap, isBlank c)
    (hlex : Lexeme.ofTag fresh cs = ⟨raw, rest, .ok kind⟩) (hkind : ∀ c, kind ≠ .other c) :
    Gives ⟨.tag, fresh, p, gap ++ cs⟩ [(kind, p.after gap)]
      ⟨.tag, false, (p.after gap).after raw, rest⟩ := by
  have hother {c : Char} {ds : List Char} (hcs : cs = c :: ds) : ¬ (isBlank c ∨ c = '$') := by
    intro hc
    rw [hcs, Lexeme.ofTag_eq_other hc, Lexeme.mk.injEq, Except.ok.injEq] at hlex
    exact hkind c hlex.2.2.symm
  cases cs with
  | nil => cases hlex
  | cons c ds =>
    refine gives_tag hgap ?_ (List.cons_ne_nil c ds) ?_ hlex
    · refine .cons ?_
      rw [Bool.eq_false_iff]
      exact fun hc => hother rfl (.inl hc)
    · rintro more ⟨⟩
      exact hother rfl (.inr rfl)

theorem gives_element (hgap : ∀ c ∈ gap, isBlank c) (hnumber : e.isNaN = false)
    (hmore : Separated more) :
    Gives ⟨.tag, false, p, gap ++ (e.source ++ more)⟩ (e.marks (p.after gap))
      ⟨.tag, false, (p.after gap).after e.source, more⟩ := by
  have hname := hmore.endsClass fun _ => isNameChar_eq_false_of_isBlank
  have hword := Lexeme.ofTag_word false Name.infinity hname
  by_cases hinfinite : e.isInfinite
  · rw [Element.marks, Element.asWord, Element.source_of_isInfinite hinfinite, hinfinite]
    cases hnegative : e.isNegativeInfinity with
    | true =>
      have hletter : EndsClass Char.isDigit (Name.infinity.text.toList ++ more) := .cons rfl
      have hsign := Lexeme.ofTag_operator .sub hletter
      exact (gives_lexeme hgap hsign (by simp)).append
        (gives_lexeme (List.forall_mem_nil _) hword (by simp))
    | false => exact gives_lexeme hgap hword (by simp [Element.kind])
  · have hnegative : e.isNegativeInfinity = false := by
      cases e <;> simp_all [Element.isNegativeInfinity, Element.isInfinite]
    rw [Bool.not_eq_true] at hinfinite
    rw [Element.marks, Element.asWord, hinfinite, hnegative]
    exact gives_lexeme hgap (Lexeme.ofTag_source hinfinite hnumber hmore) e.kind_ne_other

end Spot

end Template
