import Template.Token.Lexeme

/-! Readers of tokens: one token at a time, and after an error on from where it stopped. -/
namespace Template

open Character

inductive Mode
  | text
  | tag
deriving DecidableEq

/-- A reader stands at a place of a source, before the characters that are left. -/
structure Reader where
  rest : List Char
  position : Position
  mode : Mode
  /-- Nothing of the current tag has been read yet. -/
  freshTag : Bool
  keepsBlanks : Bool
  /-- The second half of a delimiter whose first half was given last. -/
  pending : Option Token
  last : Option Token
  ended : Bool
deriving DecidableEq

abbrev Reading := Except LexicalError Token × Reader

namespace Reader

/-- A reader at the beginning, in text, that leaves out blanks in tags. -/
def ofChars (cs : List Char) : Reader where
  rest := cs
  position := {}
  mode := .text
  freshTag := false
  keepsBlanks := false
  pending := none
  last := none
  ended := false

def ofSource (source : String) : Reader := ofChars source.toList

variable (r : Reader)

def keepBlanks (keep : Bool) : Reader := { r with keepsBlanks := keep }

/-- Goes on in a mode. The second half of a delimiter is dropped. -/
def switchTo (mode : Mode) : Reader :=
  { r with mode, pending := none, freshTag := mode == .tag }

def advance (raw rest : List Char) : Reader :=
  { r with rest, position := r.position.after raw }

def spanOf (raw : List Char) : Span := ⟨r.position, (r.position.after raw).offset⟩

def read (lexeme : Lexeme) : Reading :=
  let stop := { r.advance lexeme.raw lexeme.rest with freshTag := false }
  match lexeme.outcome with
  | .ok kind => (.ok ⟨kind, r.spanOf lexeme.raw⟩, stop)
  | .error cause =>
    (.error ⟨cause, if cause.isOfLiteral then r.position else stop.position⟩, stop)

/-- Reads a delimiter: its first half is given, its second is given next. -/
def readDelimiter (first second : Char × Token.Kind) (rest : List Char) (mode : Mode) : Reading :=
  let middle := r.advance [first.1] rest
  let stop := middle.advance [second.1] rest
  (.ok ⟨first.2, r.spanOf [first.1]⟩,
    { stop with
      mode
      freshTag := mode == .tag
      pending := some ⟨second.2, middle.spanOf [second.1]⟩ })

def readText : Reading :=
  match r.rest with
  | [] => (.ok ⟨.eof, r.spanOf []⟩, { r with ended := true })
  | '{' :: '$' :: rest => r.readDelimiter ('{', .tagOpen) ('$', .tagMark) rest .tag
  | rest => r.read (.ofText rest)

def readTagToken : Reading :=
  match r.rest with
  | [] => (.error ⟨.openTag, r.position⟩, r)
  | '$' :: '}' :: rest => r.readDelimiter ('$', .tagMark) ('}', .tagClose) rest .text
  | rest => r.read (.ofTag r.freshTag rest)

def blanks : List Char := r.rest.takeWhile isBlank

def afterBlanks : Reader := r.advance r.blanks (r.rest.dropWhile isBlank)

def readTag : Reading :=
  if r.keepsBlanks && !r.blanks.isEmpty then
    (.ok ⟨.blanks (String.ofList r.blanks), r.spanOf r.blanks⟩, r.afterBlanks)
  else r.afterBlanks.readTagToken

/-- The pending token, or the one read in the current mode. -/
def fetch : Reading :=
  match r.pending, r.mode with
  | some token, _ => (.ok token, { r with pending := none })
  | none, .text => r.readText
  | none, .tag => r.readTag

/-- The next token. After the end of input there is none. -/
def next : Reading :=
  if r.ended then (.error ⟨.exhausted, r.position⟩, r)
  else match r.fetch with
    | (.ok token, stop) => (.ok token, { stop with last := some token })
    | (.error e, stop) => (.error e, stop)

/-- A bound on the tokens that are still to come. -/
def remaining : Nat := r.rest.length + r.pending.toList.length + (!r.ended).toNat

variable {r} {s : Reader} {token : Token} {lexeme : Lexeme}

theorem remaining_lt_of_read (h : r.read lexeme = (.ok token, s))
    (happend : lexeme.raw ++ lexeme.rest = r.rest) (hraw : lexeme.raw ≠ []) :
    s.remaining < r.remaining := by
  have hlen := congrArg List.length happend
  have := List.length_pos_iff.2 hraw
  rw [List.length_append] at hlen
  unfold read at h
  split at h <;> cases h
  simp [remaining, advance]
  omega

theorem remaining_lt_of_readText (hq : r.pending = none) (hf : r.ended = false)
    (h : r.readText = (.ok token, s)) : s.remaining < r.remaining := by
  unfold readText at h
  split at h
  · cases h
    simp [remaining, hf]
  · cases h
    simp_all [remaining, advance]
  · rename_i hne hnd
    refine remaining_lt_of_read h (Lexeme.raw_append_ofText _) (Lexeme.raw_ofText_ne_nil hne ?_)
    simp [Escape.text]

theorem remaining_lt_of_readTagToken (hq : r.pending = none) (h : r.readTagToken = (.ok token, s)) :
    s.remaining < r.remaining := by
  unfold readTagToken at h
  split at h
  · cases h
  · cases h
    simp_all [remaining, advance]
  · rename_i hne _
    exact remaining_lt_of_read h (Lexeme.raw_append_ofTag _ _) (Lexeme.raw_ofTag_ne_nil hne)

theorem length_blanks_add (r : Reader) :
    r.blanks.length + r.afterBlanks.remaining = r.remaining := by
  have := congrArg List.length (List.takeWhile_append_dropWhile (p := isBlank) (l := r.rest))
  simp only [List.length_append, remaining, afterBlanks, advance, blanks] at *
  omega

theorem remaining_lt_of_readTag (hq : r.pending = none) (h : r.readTag = (.ok token, s)) :
    s.remaining < r.remaining := by
  have hlen := r.length_blanks_add
  unfold readTag at h
  split at h
  · rename_i hk
    cases h
    have : 0 < r.blanks.length := List.length_pos_iff.2 (by simp_all)
    omega
  · have := remaining_lt_of_readTagToken (r := r.afterBlanks) hq h
    omega

theorem remaining_lt_of_fetch (hf : r.ended = false) (h : r.fetch = (.ok token, s)) :
    s.remaining < r.remaining := by
  unfold fetch at h
  split at h
  · cases h
    simp_all [remaining]
  · exact remaining_lt_of_readText ‹_› hf h
  · exact remaining_lt_of_readTag ‹_› h

theorem remaining_lt_of_next (h : r.next = (.ok token, s)) : s.remaining < r.remaining := by
  unfold next at h
  split at h
  · cases h
  · split at h <;> cases h
    rename_i hf _ _ hfetch
    have := remaining_lt_of_fetch (Bool.eq_false_iff.2 hf) hfetch
    exact this

end Reader

end Template
