import Template.Character.Alphabetic
import Template.Character.Numeric

/-! Names of variables and functions: a letter, then letters, numeric characters and underscores. -/
namespace Template

open Character

def isNameChar (c : Char) : Bool := isAlphabetic c || isNumeric c || c == '_'

def isName : List Char → Bool
  | [] => false
  | c :: cs => isAlphabetic c && cs.all isNameChar

structure Name where
  text : String
  wellFormed : isName text.toList
deriving DecidableEq

def Name.ofString? (s : String) : Option Name :=
  if h : isName s.toList then some ⟨s, h⟩ else none

theorem Name.ofString?_eq_some_iff {s : String} {n : Name} :
    ofString? s = some n ↔ n.text = s := by
  obtain ⟨t, ht⟩ := n
  simp only [ofString?, Option.dite_none_right_eq_some, Option.some.injEq, mk.injEq]
  constructor
  · rintro ⟨_, rfl⟩
    rfl
  · rintro rfl
    exact ⟨ht, rfl⟩

end Template
