import Template.Proofs.TokenRuns

/-! The first token of a tag is a tag name exactly if the characters spell one. -/
namespace Template

open Token Character

/-- The characters at the front that may be a tag name: an equals sign, or else a whole word. -/
def tagName : List Char → List Char
  | '=' :: _ => ['=']
  | cs => cs.takeWhile isNameChar

def Keyword.letters : Keyword → List Char
  | .loop => ['f', 'o', 'r']
  | .endLoop => ['e', 'n', 'd']
  | .echo => ['=']

/-- The tag name stands at the front, in letters of either case. -/
def Keyword.StandsAt (k : Keyword) (cs : List Char) : Prop :=
  (tagName cs).map Char.toLower = k.letters

variable {c : Char} {cs raw rest : List Char} {k : Keyword} {kind : Kind}

theorem isAlphabetic_of_isAlpha (h : c.isAlpha) : isAlphabetic c := by
  have hrange := isAlpha_iff_toNat.1 h
  exact (isAlphabetic_iff_of_ascii (by omega)).2 hrange

theorem tagName_of_ne (hc : c ≠ '=') : tagName (c :: cs) = (c :: cs).takeWhile isNameChar := by
  unfold tagName
  split
  · next h => exact (hc (List.cons.inj h).1).elim
  · rfl

theorem keyword?_eq_some_iff {word : List Char} : Lexeme.keyword? word = some k ↔
    word.map Char.toLower = k.letters ∧ k ≠ .echo := by
  unfold Lexeme.keyword?
  split
  · next h => cases k <;> simp [h, Keyword.letters]
  · next hloop =>
    split
    · next h => cases k <;> simp [h, Keyword.letters]
    · next hend => cases k <;> simp [hloop, hend, Keyword.letters]

/-- Only capital letters have another small form. -/
theorem toLower_eq_self_or (c : Char) :
    c.toLower = c ∨ (65 ≤ c.toNat ∧ c.toNat ≤ 90 ∧ c.toLower.toNat = c.toNat + 32) := by
  by_cases hupper : 'A'.val ≤ c.val ∧ c.val ≤ 'Z'.val
  · have hlow : 65 ≤ c.toNat := UInt32.le_iff_toNat_le.1 hupper.1
    have hhigh : c.toNat ≤ 90 := UInt32.le_iff_toNat_le.1 hupper.2
    have hsmall : c.toLower.toNat = (c.toNat + 32) % 2 ^ 32 := congrArg Char.toNat (dif_pos hupper)
    exact .inr ⟨hlow, hhigh, by omega⟩
  · exact .inl (dif_neg hupper)

theorem Keyword.StandsAt.head (h : k.StandsAt (c :: cs)) :
    c = '=' ∨ (isAlphabetic c ∧ k ≠ .echo) := by
  by_cases hc : c = '='
  · exact .inl hc
  rw [StandsAt, tagName_of_ne hc] at h
  by_cases hname : isNameChar c
  · rw [List.takeWhile_cons_of_pos hname, List.map_cons] at h
    have hletters : c.toLower ∈ k.letters.head? := by
      rw [← h]
      rfl
    rcases toLower_eq_self_or c with hlower | ⟨hlow, hhigh, hlower⟩
    · rw [hlower] at hletters
      cases k with
      | loop =>
        cases hletters
        exact .inr ⟨isAlphabetic_of_isAlpha rfl, by simp⟩
      | endLoop =>
        cases hletters
        exact .inr ⟨isAlphabetic_of_isAlpha rfl, by simp⟩
      | echo => exact (hc (Option.some.inj hletters).symm).elim
    · refine .inr ⟨isAlphabetic_of_isAlpha (isAlpha_iff_toNat.2 (.inl ⟨hlow, hhigh⟩)), ?_⟩
      rintro rfl
      have hcode : 61 = c.toNat + 32 := (congrArg Char.toNat (Option.some.inj hletters)).trans hlower
      omega
  · rw [List.takeWhile_cons_of_neg hname] at h
    cases k <;> cases h

theorem Keyword.standsAt_iff_of_ne (hc : c ≠ '=') :
    k.StandsAt (c :: cs) ↔ Lexeme.keyword? ((c :: cs).takeWhile isNameChar) = some k := by
  constructor
  · intro h
    rcases h.head with rfl | ⟨-, hecho⟩
    · exact (hc rfl).elim
    · rw [StandsAt, tagName_of_ne hc] at h
      exact keyword?_eq_some_iff.2 ⟨h, hecho⟩
  · intro h
    rw [StandsAt, tagName_of_ne hc]
    exact (keyword?_eq_some_iff.1 h).1

namespace Lexeme

theorem ofTag_eq_of_not_isAlphabetic (hc : c ≠ '=') (halpha : ¬ isAlphabetic c) :
    ofTag true (c :: cs) = ofTag false (c :: cs) := by
  simp [ofTag, hc, halpha]

/-- What is first in a tag is a tag name exactly if one stands there, and all of it is read. -/
theorem ofTag_eq_keyword_iff (h : ofTag true cs = ⟨raw, rest, .ok kind⟩) (k : Keyword) :
    (kind = .keyword k ↔ k.StandsAt cs) ∧ (kind = .keyword k → raw = tagName cs) := by
  cases cs with
  | nil => cases h
  | cons c cs =>
    by_cases hc : c = '='
    · subst hc
      cases h
      exact ⟨by cases k <;> simp [Keyword.StandsAt, tagName, Keyword.letters], fun _ => rfl⟩
    · by_cases halpha : isAlphabetic c
      · rw [ofTag_of_isAlphabetic halpha] at h
        unfold ofWord at h
        rw [Keyword.standsAt_iff_of_ne hc, tagName_of_ne hc]
        cases hword : keyword? ((c :: cs).takeWhile isNameChar) with
        | none =>
          simp only [hword] at h
          cases h
          simp
        | some k' =>
          simp only [hword] at h
          cases h
          simp
      · rw [ofTag_eq_of_not_isAlphabetic hc halpha] at h
        have hkind := (ofTag_eq_ok h).2.2 rfl k
        refine ⟨iff_of_false hkind ?_, fun h => (hkind h).elim⟩
        intro hstands
        rcases hstands.head with rfl | hc'
        · exact hc rfl
        · exact halpha hc'.1

end Lexeme

end Template
