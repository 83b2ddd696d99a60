import Template.Character.Blank
import Template.Escape
import Template.LexicalError
import Template.Name
import Template.Numeral
import Template.Token

/-! The token at the front of a text. -/
namespace Template

open Character

/-- The characters read, the characters left, and what the reading came to. -/
structure Lexeme where
  raw : List Char
  rest : List Char
  outcome : Except LexicalError.Cause Token.Kind

namespace Lexeme

def ofFault : Escape.Fault → LexicalError.Cause
  | .unfinished => .openEscape
  | .unknown c => .badEscape c

def ofText (cs : List Char) : Lexeme :=
  let s := Escape.text.scan cs
  ⟨s.raw, s.rest, match s.fault with
    | some f => .error (ofFault f)
    | none => .ok (.text (String.ofList s.value))⟩

def ofQuoted (s : Escape.Scan) : Lexeme :=
  match s.fault, s.rest with
  | some f, rest => ⟨'"' :: s.raw, rest, .error (ofFault f)⟩
  | none, '"' :: rest => ⟨'"' :: s.raw ++ ['"'], rest, .ok (.string (String.ofList s.value))⟩
  | none, rest => ⟨'"' :: s.raw, rest, .error .openString⟩

/-- A string literal, from behind its opening quote. -/
def ofString (cs : List Char) : Lexeme := ofQuoted (Escape.string.scan cs)

/-- A number. Without a fraction it is an integer, and an error if it does not fit. -/
def ofNumeral (cs : List Char) : Lexeme :=
  let n := (Numeral.scan cs).1
  ⟨n.raw, (Numeral.scan cs).2, match n.fraction, n.int32? with
    | [], some value => .ok (.int value)
    | [], none => .error (.badNumber (String.ofList n.raw))
    | _, _ => .ok (.double n.double)⟩

/-- Tag names are words, in letters of either case. -/
def keyword? (word : List Char) : Option Keyword :=
  if word.map Char.toLower = ['f', 'o', 'r'] then some .loop
  else if word.map Char.toLower = ['e', 'n', 'd'] then some .endLoop
  else none

def ofWord (first : Bool) (cs : List Char) : Lexeme :=
  let word := cs.takeWhile isNameChar
  let kind := match first, keyword? word with
    | true, some k => .keyword k
    | _, _ => .identifier (String.ofList word)
  ⟨word, cs.dropWhile isNameChar, .ok kind⟩

/-- A function name, from behind its `@`. -/
def ofFunction (cs : List Char) : Lexeme :=
  let word := cs.takeWhile isNameChar
  ⟨'@' :: word, cs.dropWhile isNameChar, .ok (.function (String.ofList word))⟩

/-- What stands at the front inside a tag; `first` says that nothing of the tag has been read. -/
def ofTag (first : Bool) : List Char → Lexeme
  | [] => ⟨[], [], .error .openTag⟩
  | c :: cs =>
    if first && c == '=' then ⟨[c], cs, .ok (.keyword .echo)⟩
    else if c = '"' then ofString cs
    else if c == '@' && cs.head?.any isAlphabetic then ofFunction cs
    else if Numeral.begins (c :: cs) then ofNumeral (c :: cs)
    else if isOperatorChar c then ⟨[c], cs, .ok (.operator c)⟩
    else if isAlphabetic c then ofWord first (c :: cs)
    else ⟨[c], cs, .ok (.other c)⟩

variable {first : Bool} {cs : List Char}

theorem raw_append_ofText (cs : List Char) : (ofText cs).raw ++ (ofText cs).rest = cs :=
  Escape.text.raw_append_scan cs

theorem raw_append_ofQuoted (s : Escape.Scan) :
    (ofQuoted s).raw ++ (ofQuoted s).rest = '"' :: (s.raw ++ s.rest) := by
  fun_cases ofQuoted s <;> simp_all

theorem raw_append_ofString (cs : List Char) :
    (ofString cs).raw ++ (ofString cs).rest = '"' :: cs := by
  rw [ofString, raw_append_ofQuoted, Escape.string.raw_append_scan]

theorem raw_append_ofNumeral (cs : List Char) :
    (ofNumeral cs).raw ++ (ofNumeral cs).rest = cs :=
  Numeral.raw_append_scan cs

theorem raw_append_ofTag (first : Bool) (cs : List Char) :
    (ofTag first cs).raw ++ (ofTag first cs).rest = cs := by
  fun_cases ofTag first cs <;>
    simp_all [raw_append_ofString, raw_append_ofNumeral, ofWord, ofFunction]

theorem raw_ofText_ne_nil (hcs : cs ≠ []) (h : Escape.text.ends cs = false) :
    (ofText cs).raw ≠ [] :=
  Escape.Rule.raw_scan_ne_nil hcs h

theorem raw_ofNumeral_ne_nil (h : Numeral.begins cs) : (ofNumeral cs).raw ≠ [] :=
  Numeral.raw_scan_ne_nil h

theorem raw_ofTag_ne_nil (hcs : cs ≠ []) : (ofTag first cs).raw ≠ [] := by
  fun_cases ofTag first cs
  all_goals simp_all [raw_ofNumeral_ne_nil, ofFunction]
  · rw [ofString]
    fun_cases ofQuoted _ <;> simp
  · simp_all [ofWord, isNameChar]

end Lexeme

end Template
