/-! Text in which a backslash gives the next character another meaning, and its encoders. -/
namespace Template

namespace Escape

structure Rule where
  /-- What a character means behind a backslash, if it may stand there. -/
  meaning : Char → Option Char
  /-- Whether the text ends before these characters. -/
  ends : List Char → Bool

inductive Fault
  | unfinished
  | unknown (c : Char)
deriving DecidableEq

/-- The characters read and what they mean, the characters left, and a fault if one ended the
reading. The character that is at fault is left, the backslash before it is not. -/
structure Scan where
  raw : List Char
  value : List Char
  rest : List Char
  fault : Option Fault
deriving DecidableEq

def Scan.after (s : Scan) (raw : List Char) (c : Char) : Scan :=
  { s with raw := raw ++ s.raw, value := c :: s.value }

/-- Reads up to where the rule ends the text, or to the end, or to the first fault. -/
def Rule.scan (rule : Rule) : List Char → Scan
  | [] => ⟨[], [], [], none⟩
  | '\\' :: [] => ⟨['\\'], [], [], some .unfinished⟩
  | '\\' :: c :: cs =>
    match rule.meaning c with
    | some m => (rule.scan cs).after ['\\', c] m
    | none => ⟨['\\'], [], c :: cs, some (.unknown c)⟩
  | c :: cs =>
    if rule.ends (c :: cs) then ⟨[], [], c :: cs, none⟩
    else (rule.scan cs).after [c] c

variable {rule : Rule} {cs : List Char}

theorem Rule.raw_append_scan (rule : Rule) (cs : List Char) :
    (rule.scan cs).raw ++ (rule.scan cs).rest = cs := by
  fun_induction Rule.scan rule cs <;> simp_all [Scan.after]

theorem Rule.raw_scan_ne_nil (hcs : cs ≠ []) (h : rule.ends cs = false) :
    (rule.scan cs).raw ≠ [] := by
  fun_cases Rule.scan rule cs <;> simp_all [Scan.after]

/-- Text between tags ends where a tag opens. -/
def text : Rule where
  meaning
    | '\\' => some '\\'
    | '"' => some '"'
    | '{' => some '{'
    | _ => none
  ends
    | '{' :: '$' :: _ => true
    | _ => false

def string : Rule where
  meaning
    | '"' => some '"'
    | '\\' => some '\\'
    | 'n' => some '\n'
    | 'r' => some '\r'
    | 't' => some '\t'
    | _ => none
  ends
    | '"' :: _ => true
    | _ => false

/-- Writes a backslash before each backslash and before each brace that would open a tag. -/
def encodeText : List Char → List Char
  | [] => []
  | '\\' :: cs => '\\' :: '\\' :: encodeText cs
  | '{' :: '$' :: cs => '\\' :: '{' :: '$' :: encodeText cs
  | c :: cs => c :: encodeText cs

/-- Writes a string literal: quotes around, a backslash before each quote and each backslash. -/
def encodeString (cs : List Char) : List Char :=
  '"' :: cs.flatMap (fun c => if c = '"' ∨ c = '\\' then ['\\', c] else [c]) ++ ['"']

end Escape

end Template
