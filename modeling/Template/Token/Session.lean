import Template.Token.Reader

/-! A reader in use: requests in any order, each with its reply. -/
namespace Template

inductive Request
  | next
  | last
  | mode
  | switchTo (mode : Mode)
  | keepBlanks (keep : Bool)
deriving DecidableEq

inductive Reply
  | token (token : Token)
  | failure (error : LexicalError)
  | mode (mode : Mode)
  | nothing
deriving DecidableEq

namespace Reader

def perform (r : Reader) : Request → Reply × Reader
  | .next =>
    match r.next with
    | (.ok token, s) => (.token token, s)
    | (.error e, s) => (.failure e, s)
  | .last =>
    match r.last with
    | some token => (.token token, r)
    | none => (.nothing, r)
  | .mode => (.mode r.mode, r)
  | .switchTo mode => (.nothing, r.switchTo mode)
  | .keepBlanks keep => (.nothing, r.keepBlanks keep)

end Reader

end Template
