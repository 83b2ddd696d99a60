import Template.Token.Reader

/-! Whole runs of a reader: token after token, up to the end of input or the first failure. -/
namespace Template

/-- The tokens given, the end of input included, and the failure that ended the run if one did. -/
structure Run where
  tokens : List Token
  failure : Option LexicalError
deriving DecidableEq

namespace Reader

/-- Asks for tokens until the end of input or a failure. -/
def run (r : Reader) : Run :=
  match h : r.next with
  | (.error e, _) => ⟨[], some e⟩
  | (.ok token, s) =>
    if token.kind = .eof then ⟨[token], none⟩
    else
      have := remaining_lt_of_next h
      let rest := s.run
      { rest with tokens := token :: rest.tokens }
termination_by r.remaining

end Reader

def Run.result (r : Run) : Except LexicalError (List Token) :=
  match r.failure with
  | none => .ok r.tokens
  | some e => .error e

def tokenize (source : String) : Except LexicalError (List Token) :=
  (Reader.ofSource source).run.result

end Template
