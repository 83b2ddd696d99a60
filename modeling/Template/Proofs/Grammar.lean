import Template.Document.Builder
import Template.Proofs.Content

/-! The token kinds that a tree is written with, and what the grammar asks of echoes and loops. -/
namespace Template

open Token

def Element.kind : Element → Kind
  | .var name => .identifier name.text
  | .string value => .string value
  | .int value => .int value
  | .double value => .double value
  | .function name => .function name.text
  | .operator op => .operator op.char

/-- The kinds of a tag with the kinds between its first mark and its second. -/
def tagKinds (inner : List Kind) : List Kind :=
  [.tagOpen, .tagMark] ++ inner ++ [.tagMark, .tagClose]

def echoKinds (elements : List Element) : List Kind :=
  tagKinds (.keyword .echo :: elements.map Element.kind)

def Loop.kinds (head : Loop) : List Kind :=
  tagKinds (.keyword .loop :: .identifier head.counter.text :: head.operands.map Element.kind)

def endKinds : List Kind := tagKinds [.keyword .endLoop]

/-- Bounds and step are of the sorts that the grammar allows there. -/
def Loop.WellFormed (head : Loop) : Prop := ∀ e ∈ head.operands, e.isLoopOperand

namespace Content

def kinds : Content → List Kind
  | nil => []
  | text value next => .text value :: next.kinds
  | echo elements next => echoKinds elements ++ next.kinds
  | loop head body next => head.kinds ++ body.kinds ++ endKinds ++ next.kinds

/-- No echo is empty, and loops have operands of the right sorts. -/
def WellFormed : Content → Prop
  | nil => True
  | text _ next => next.WellFormed
  | echo elements next => elements ≠ [] ∧ next.WellFormed
  | loop head body next => head.WellFormed ∧ body.WellFormed ∧ next.WellFormed

variable {c d : Content}

@[simp] theorem kinds_append : (c ++ d).kinds = c.kinds ++ d.kinds := by
  induction c <;> simp_all [kinds]

@[simp] theorem wellFormed_append : (c ++ d).WellFormed ↔ c.WellFormed ∧ d.WellFormed := by
  induction c <;> simp_all [WellFormed, and_assoc]

end Content

variable {t : Token} {e : Element} {counter : Name} {read : List (Element × Position)}
  {mark : Position} {head : Loop}

theorem Name.ofIdentifier_text (name : Name) (place : Position) :
    Name.ofIdentifier name.text place = .ok name := by
  simp [Name.ofIdentifier, Name.ofString?_eq_some_iff.2 rfl]

theorem Name.text_of_ofIdentifier {text : String} {place : Position} {name : Name}
    (h : Name.ofIdentifier text place = .ok name) : name.text = text := by
  unfold Name.ofIdentifier at h
  split at h
  · next hname =>
    cases h
    exact Name.ofString?_eq_some_iff.1 hname
  · cases h

theorem Name.exists_of_map_ofIdentifier {α : Type} {f : Name → α} {text : String}
    {place : Position} {a : α} (h : (Name.ofIdentifier text place).map f = .ok a) :
    ∃ name : Name, name.text = text ∧ a = f name := by
  cases hname : Name.ofIdentifier text place with
  | error _ =>
    rw [hname] at h
    cases h
  | ok name =>
    rw [hname] at h
    cases h
    exact ⟨name, text_of_ofIdentifier hname, rfl⟩

theorem Operator.char_of_ofChar? {c : Char} {op : Operator} (h : Operator.ofChar? c = some op) :
    op.char = c := by
  unfold Operator.ofChar? at h
  split at h <;> cases h <;> rfl

theorem Element.kind_ne_other (e : Element) (c : Char) : e.kind ≠ .other c := by
  cases e <;> simp [kind]

theorem Element.ofToken_of_kind (h : t.kind = e.kind) : Element.ofToken t = .ok e := by
  cases e <;>
    simp_all [Element.ofToken, Element.kind, Name.ofIdentifier_text, Operator.ofChar?_char,
      Except.map]

theorem Element.kind_of_ofToken (h : Element.ofToken t = .ok e) : t.kind = e.kind := by
  unfold Element.ofToken at h
  split at h
  · next hk =>
    obtain ⟨name, rfl, rfl⟩ := Name.exists_of_map_ofIdentifier h
    exact hk
  · next hk =>
    obtain ⟨name, rfl, rfl⟩ := Name.exists_of_map_ofIdentifier h
    exact hk
  · next hk => cases h; exact hk
  · next hk => cases h; exact hk
  · next hk => cases h; exact hk
  · next c hk =>
    split at h
    · next op hop =>
      cases h
      rw [hk, ← Operator.char_of_ofChar? hop, Element.kind]
    · cases h
  · cases h

/-- A loop is read from operands of the right sorts, two or three of them. -/
theorem Loop.ofElements_eq_ok_iff : Loop.ofElements counter read mark = .ok head ↔
    head.counter = counter ∧ head.operands = read.map (·.1) ∧ head.WellFormed := by
  obtain ⟨v, start, stop, step⟩ := head
  unfold Loop.ofElements
  cases hbad : read.find? (!·.1.isLoopOperand) with
  | some bad =>
    have hmem := List.mem_of_find?_eq_some hbad
    have := List.find?_some hbad
    simp only [reduceCtorEq, false_iff, not_and]
    intro _ hops hwf
    have := hwf bad.1 (hops ▸ List.mem_map_of_mem hmem)
    simp_all
  | none =>
    have hgood : ∀ e ∈ read.map (·.1), e.isLoopOperand := by
      simpa using List.find?_eq_none.1 hbad
    generalize read.map (·.1) = es at hgood ⊢
    rcases es with _ | ⟨a, _ | ⟨b, _ | ⟨c, _ | ⟨d, es⟩⟩⟩⟩ <;> cases step <;>
      simp_all [Loop.operands, Loop.WellFormed]
    · grind
    · grind

end Template
