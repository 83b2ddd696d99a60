import Template.Command

/-! Commands from the words of a command line: a command's name, a path, and options. -/
namespace Template

namespace Command

structure Options where
  path : Option String
  output : Option String
  verify : Bool
  keepBlanks : Bool
deriving DecidableEq

/-- Reads paths and options in any order; there is one path, and each option is given once. -/
def Options.read (o : Options) : List String → Option Options
  | [] => some o
  | "--verify" :: rest => if o.verify then none else { o with verify := true }.read rest
  | "--keep-whitespace" :: rest =>
    if o.keepBlanks then none else { o with keepBlanks := true }.read rest
  | "--output" :: target :: rest | "-o" :: target :: rest =>
    if o.output.isSome then none else { o with output := some target }.read rest
  | word :: rest =>
    if o.path.isSome || word.startsWith "-" then none else { o with path := some word }.read rest

def ofArguments : List String → Option (Command × String)
  | [] => none
  | word :: rest => do
    let o ← Options.read ⟨none, none, false, false⟩ rest
    let path ← o.path
    match word, o.output, o.verify, o.keepBlanks with
    | "check", none, false, false => some (.check, path)
    | "fmt", output, verify, false => some (.format output verify, path)
    | "tree", none, false, false => some (.outline, path)
    | "tokens", none, false, keep => some (.tokens keep, path)
    | _, _, _, _ => none

end Command

end Template
