import Template.Document
import Template.ParseError

/-! Documents from tokens, one token at a time. -/
namespace Template

inductive ElementTag
  | echo (keyword : Position)
  | loop (counter : Name)
deriving DecidableEq

/-- Where in the grammar of templates a builder stands: between tags, or somewhere in a tag. -/
inductive Stage
  | between
  | afterBrace
  | tagName
  | loopCounter
  | elements (tag : ElementTag) (read : Array (Element × Position))
  /-- The closing mark has been read; its place is kept. -/
  | closing (tag : ElementTag) (read : Array (Element × Position)) (mark : Position)
  | endTag (keyword : Position)
  | closingEnd (keyword : Position)
deriving DecidableEq

structure Builder where
  document : Document
  /-- The open loops, innermost first. -/
  loops : List NodeNumber
  stage : Stage
deriving DecidableEq

/-- What a token makes of a builder. -/
inductive Progress
  | ongoing (builder : Builder)
  | complete (document : Document)
deriving DecidableEq

def Token.unexpected {α : Type} (t : Token) (expected : Expected) : Except ParseError α :=
  .error ⟨.unexpected expected t.kind, t.span.start⟩

def Name.ofIdentifier (text : String) (place : Position) : Except ParseError Name :=
  match ofString? text with
  | some name => .ok name
  | none => .error ⟨.badName text, place⟩

def Element.ofToken (t : Token) : Except ParseError Element :=
  match t.kind with
  | .identifier text => (Name.ofIdentifier text t.span.start).map .var
  | .function text => (Name.ofIdentifier text t.span.start).map .function
  | .string value => .ok (.string value)
  | .int value => .ok (.int value)
  | .double value => .ok (.double value)
  | .operator c =>
    match Operator.ofChar? c with
    | some op => .ok (.operator op)
    | none => t.unexpected .element
  | _ => t.unexpected .elementOrEnd

/-- A loop of two or three operands. Elements of the wrong sort are reported before their number,
which counts the loop's own name. -/
def Loop.ofElements (counter : Name) (read : List (Element × Position)) (mark : Position) :
    Except ParseError Loop :=
  match read.find? (!·.1.isLoopOperand) with
  | some (e, place) => .error ⟨.badOperand e, place⟩
  | none =>
    match read.map (·.1) with
    | [start, stop] => .ok ⟨counter, start, stop, none⟩
    | [start, stop, step] => .ok ⟨counter, start, stop, some step⟩
    | es => .error ⟨.loopSize (es.length + 1), mark⟩

namespace Builder

def initial : Builder := ⟨.empty, [], .between⟩

variable (b : Builder)

/-- The node that takes the next child. -/
def container : NodeNumber := b.loops.headD Document.rootNumber

def addLeaf (node : Node) : Builder :=
  { b with document := b.document.append b.container node, stage := .between }

def openLoop (head : Loop) : Builder :=
  { document := b.document.append b.container (.loop head #[])
    loops := b.document.size :: b.loops
    stage := .between }

def enter (stage : Stage) : Except ParseError Progress := .ok (.ongoing { b with stage })

def closeTag (read : List (Element × Position)) (mark : Position) :
    ElementTag → Except ParseError Progress
  | .echo keyword =>
    if read.isEmpty then .error ⟨.emptyEcho, keyword⟩
    else .ok (.ongoing (b.addLeaf (.echo (read.map (·.1)))))
  | .loop counter => do
    let head ← Loop.ofElements counter read mark
    .ok (.ongoing (b.openLoop head))

def closeLoop (keyword : Position) : Except ParseError Progress :=
  match b.loops with
  | [] => .error ⟨.strayEnd, keyword⟩
  | _ :: outer => .ok (.ongoing { b with loops := outer, stage := .between })

def finish (place : Position) : Except ParseError Progress :=
  match b.loops with
  | [] => .ok (.complete b.document)
  | loops => .error ⟨.openLoops loops.length, place⟩

def feedBetween (t : Token) : Except ParseError Progress :=
  match t.kind with
  | .text value => .ok (.ongoing (b.addLeaf (.text value)))
  | .tagOpen => b.enter .afterBrace
  | .eof => b.finish t.span.start
  | _ => t.unexpected .textOrTag

def feedTagName (t : Token) : Except ParseError Progress :=
  match t.kind with
  | .keyword .loop => b.enter .loopCounter
  | .keyword .echo => b.enter (.elements (.echo t.span.start) #[])
  | .keyword .endLoop => b.enter (.endTag t.span.start)
  | .identifier text => .error ⟨.unknownTag text, t.span.start⟩
  | _ => t.unexpected .tagName

def feedCounter (t : Token) : Except ParseError Progress :=
  match t.kind with
  | .identifier text => do
    let counter ← Name.ofIdentifier text t.span.start
    b.enter (.elements (.loop counter) #[])
  | found => .error ⟨.badCounter found, t.span.start⟩

def feedElement (tag : ElementTag) (read : Array (Element × Position)) (t : Token) :
    Except ParseError Progress :=
  match t.kind with
  | .tagMark => b.enter (.closing tag read t.span.start)
  | _ => do
    let e ← Element.ofToken t
    b.enter (.elements tag (read.push (e, t.span.start)))

def feed (t : Token) : Except ParseError Progress :=
  match b.stage with
  | .between => b.feedBetween t
  | .afterBrace => if t.kind = .tagMark then b.enter .tagName else t.unexpected .openingMark
  | .tagName => b.feedTagName t
  | .loopCounter => b.feedCounter t
  | .elements tag read => b.feedElement tag read t
  | .closing tag read mark =>
    if t.kind = .tagClose then b.closeTag read.toList mark tag else t.unexpected .closingBrace
  | .endTag keyword =>
    if t.kind = .tagMark then b.enter (.closingEnd keyword) else t.unexpected .endOfTag
  | .closingEnd keyword =>
    if t.kind = .tagClose then b.closeLoop keyword else t.unexpected .closingBrace

end Builder

end Template
