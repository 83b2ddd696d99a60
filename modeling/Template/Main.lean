import Template.Command.Arguments

/-! The command line. -/
namespace Template

/-- The system's words for an error and its number, where both are known. -/
def reason : IO.Error → String
  | .noFileOrDirectory _ code details
  | .permissionDenied _ code details
  | .inappropriateType _ code details
  | .resourceExhausted _ code details => details ++ " (os error " ++ toString code ++ ")"
  | e => toString e

def readInput (path : String) : IO Input := do
  try
    return .ofBytes? (some (← IO.FS.readBinFile path))
  catch
    | .noFileOrDirectory .. => return .missing
    | e => return .unreadable (reason e)

def writeOutput (path text : String) : IO (Option String) := do
  try
    IO.FS.writeFile path text
    return none
  catch e => return some (reason e)

def emit (r : Report) : IO UInt32 := do
  IO.print r.stdout
  IO.eprint r.stderr
  return r.status.toUInt32

def usage : String :=
  "usage: check PATH | fmt PATH [-o OUTPUT] [--verify] | tree PATH | " ++
    "tokens PATH [--keep-whitespace]"

end Template

def main (args : List String) : IO UInt32 := do
  match Template.Command.ofArguments args with
  | none =>
    IO.eprintln Template.usage
    return 2
  | some (command, path) =>
    match command.onInput path (← Template.readInput path) with
    | .report r => Template.emit r
    | .write target text =>
      Template.emit (.ofWrite target (← Template.writeOutput target text))
