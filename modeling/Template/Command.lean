import Template.Disk
import Template.Document.Outline
import Template.Document.RoundTrip
import Template.Token.Run

/-! The commands on a template file: check it, format it, outline it, list its tokens. -/
namespace Template

def version : String := "0.1.0"

inductive Command
  | check
  | format (output : Option String) (verify : Bool)
  | outline
  | tokens (keepBlanks : Bool)
deriving DecidableEq

inductive Input
  | missing
  | unreadable (reason : String)
  | text (source : String)
deriving DecidableEq

/-- A file holds a text if its bytes are valid UTF-8. -/
def Input.ofBytes? : Option ByteArray → Input
  | none => .missing
  | some bytes =>
    match String.fromUTF8? bytes with
    | some source => .text source
    | none => .unreadable "stream did not contain valid UTF-8"

/-- An exit status and what is printed. -/
structure Report where
  status : Nat
  stdout : String
  stderr : String
deriving DecidableEq

def Report.failure (message : String) : Report := ⟨1, "", message ++ "\n"⟩

/-- What a command comes to before anything is written. -/
inductive Outcome
  | report (r : Report)
  | write (path text : String)
deriving DecidableEq

def Outcome.failure (message : String) : Outcome := .report (.failure message)

def Report.ofWrite (path : String) : Option String → Report
  | none => ⟨0, "", "Wrote: " ++ path ++ "\n"⟩
  | some reason => .failure ("Error writing " ++ path ++ ": " ++ reason)

namespace Command

/-- Why the canonical source may not stand for the document, if so. -/
def verification (path : String) (d : Document) : Option String :=
  match d.roundTrip with
  | .equal => none
  | .different =>
    some ("Error: reconstructed source of " ++ path ++ " parses to a different tree")
  | .failed e =>
    some ("Error: reconstructed source of " ++ path ++ " does not parse: " ++ e.message)

/-- The canonical source, printed or to be written, or a message if it fails verification. -/
def formatted (path : String) (output : Option String) (verify : Bool) (d : Document) : Outcome :=
  match if verify then verification path d else none, output with
  | some message, _ => .failure message
  | none, some target => .write target d.source
  | none, none => .report ⟨0, d.source, ""⟩

/-- A line for each token, and a message behind them if the run fails. -/
def listTokens (keepBlanks : Bool) (source : String) : Report :=
  let run := ((Reader.ofSource source).keepBlanks keepBlanks).run
  let lines := String.join (run.tokens.map fun t => t.listing ++ "\n")
  match run.failure with
  | none => ⟨0, lines, ""⟩
  | some e => ⟨1, lines, e.message ++ "\n"⟩

def withDocument (source : String) (k : Document → Outcome) : Outcome :=
  match Document.parse source with
  | .ok d => k d
  | .error e => .failure e.message

def onSource (path source : String) : Command → Outcome
  | .check => withDocument source fun _ => .report ⟨0, "", "OK: " ++ path ++ "\n"⟩
  | .format output verify => withDocument source (formatted path output verify)
  | .outline => withDocument source fun d => .report ⟨0, d.outline ++ "\n", ""⟩
  | .tokens keepBlanks => .report (listTokens keepBlanks source)

def onInput (path : String) (c : Command) : Input → Outcome
  | .missing => .failure ("Error: file not found: " ++ path)
  | .unreadable reason => .failure ("Error reading " ++ path ++ ": " ++ reason)
  | .text source => c.onSource path source

/-- The whole command: what it reports and how it leaves the disk. -/
def perform (c : Command) (path : String) (disk : Disk) : Report × Disk :=
  match c.onInput path (.ofBytes? (disk.bytes? path)) with
  | .report r => (r, disk)
  | .write target text =>
    match disk.write target text.toUTF8 with
    | .ok written => (.ofWrite target none, written)
    | .error reason => (.ofWrite target (some reason), disk)

end Command

end Template
