import Template.Proofs.TokenRuns

/-! Streams of token kinds. -/
namespace Template

open Token

def Token.Kind.isKeyword : Kind → Bool
  | .keyword _ => true
  | _ => false

def Token.Kind.isInner (k : Kind) : Bool := k.isContent || k.isBlanks

/-- What may stand between the marks of a tag: content, and blanks if they are kept. -/
structure IsTagBody (keep : Bool) (ks : List Kind) : Prop where
  sorts : ∀ k ∈ ks, k.isContent ∨ (keep ∧ k.isBlanks)
  apart : ks.IsChain fun k l => k.isBlanks → l.isBlanks = false
  /-- Nothing but blanks stands before a tag name. -/
  named : ks.Pairwise fun k l => l.isKeyword → k.isBlanks

def textKinds (text : Option String) : List Kind := text.toList.map .text

/-- Whole tags, each with or without a text before it. -/
inductive Tags (keep : Bool) : List Kind → Prop
  | nil : Tags keep []
  | tag {ks body : List Kind} (htags : Tags keep ks) (text : Option String)
      (hbody : IsTagBody keep body) : Tags keep (ks ++ textKinds text ++ tagKinds body)

/-- A whole stream: tags with texts between them, and the end of input. -/
inductive IsStream (keep : Bool) : List Kind → Prop
  | ends {ks : List Kind} (htags : Tags keep ks) (text : Option String) :
      IsStream keep (ks ++ textKinds text ++ [.eof])

/-- The kinds end inside a tag, behind its first mark and before its second. -/
def EndsInTag (ks : List Kind) : Prop :=
  ∃ before body, ks = before ++ [.tagOpen, .tagMark] ++ body ∧ ∀ k ∈ body, k.isInner

variable {keep : Bool} {k : Kind} {ks before before' body body' : List Kind} {v : String}

theorem Token.Kind.isBlanks_eq_false_of_isContent (h : k.isContent) : k.isBlanks = false := by
  cases k with
  | blanks value => cases h
  | _ => rfl

namespace IsTagBody

theorem nil : IsTagBody keep [] := ⟨by simp, .nil, .nil⟩

theorem concat (h : IsTagBody keep body) (hk : k.isContent)
    (hname : k.isKeyword → ∀ l ∈ body, l.isBlanks) : IsTagBody keep (body ++ [k]) where
  sorts := List.forall_mem_append.2 ⟨h.sorts, by simpa using .inl hk⟩
  apart := by
    refine List.isChain_append.2 ⟨h.apart, .singleton k, ?_⟩
    rintro l - m ⟨⟩ -
    exact Kind.isBlanks_eq_false_of_isContent hk
  named := by
    refine List.pairwise_append.2 ⟨h.named, List.pairwise_singleton _ _, ?_⟩
    intro l hl m hm hkey
    obtain rfl := List.mem_singleton.1 hm
    exact hname hkey l hl

theorem concat_blanks (h : IsTagBody keep body) (hkeep : keep)
    (hlast : ∀ l ∈ body.getLast?, l.isBlanks = false) : IsTagBody keep (body ++ [.blanks v]) where
  sorts := List.forall_mem_append.2 ⟨h.sorts, by simpa using .inr ⟨hkeep, rfl⟩⟩
  apart := by
    refine List.isChain_append.2 ⟨h.apart, .singleton _, ?_⟩
    rintro l hl m ⟨⟩ hblanks
    exact absurd hblanks (by simp [hlast l hl])
  named := by
    refine List.pairwise_append.2 ⟨h.named, List.pairwise_singleton _ _, ?_⟩
    intro l hl m hm hkey
    obtain rfl := List.mem_singleton.1 hm
    cases hkey

theorem isInner (h : IsTagBody keep body) : ∀ k ∈ body, k.isInner := by
  intro k hk
  rcases h.sorts k hk with hcontent | ⟨-, hblanks⟩
  · simp [Kind.isInner, hcontent]
  · simp [Kind.isInner, hblanks]

end IsTagBody

theorem getLast?_of_tags (h : Tags keep ks) (text : Option String) :
    ∀ k ∈ (ks ++ textKinds text).getLast?, k.isText ∨ k = .tagClose := by
  cases text with
  | some v => simp [textKinds, Kind.isText]
  | none =>
    rw [textKinds, Option.toList_none, List.map_nil, List.append_nil]
    cases h with
    | nil => simp
    | @tag ks body htags text hbody =>
      rw [tagKinds, ← List.append_assoc, List.getLast?_append_of_ne_nil _ (by simp)]
      simp

theorem not_endsInTag_nil : ¬ EndsInTag [] := by
  rintro ⟨before, body, h, -⟩
  simp at h

theorem EndsInTag.getLast? (h : EndsInTag ks) :
    ∃ k, ks.getLast? = some k ∧ (k = .tagMark ∨ k.isInner) := by
  obtain ⟨before, body, rfl, hbody⟩ := h
  rcases List.eq_nil_or_concat' body with rfl | ⟨inner, l, rfl⟩
  · exact ⟨.tagMark, by simp, .inl rfl⟩
  · rw [← List.append_assoc, List.getLast?_concat]
    exact ⟨l, rfl, .inr (hbody l List.mem_concat_self)⟩

theorem not_endsInTag_of_tags (h : Tags keep ks) (text : Option String) :
    ¬ EndsInTag (ks ++ textKinds text) := by
  intro htag
  obtain ⟨k, hlast, hk⟩ := htag.getLast?
  rcases getLast?_of_tags h text k hlast with hkind | rfl
  · cases k with
    | text value => rcases hk with hk | hk <;> cases hk
    | _ => cases hkind
  · rcases hk with hk | hk <;> cases hk

theorem EndsInTag.getLast?_ne (h : EndsInTag ks) (hmark : k ≠ .tagMark) (hk : k.isInner = false) :
    ks.getLast? ≠ some k := by
  intro hlast
  obtain ⟨l, hl, hkind⟩ := h.getLast?
  obtain rfl := Option.some.inj (hlast.symm.trans hl)
  rcases hkind with rfl | hinner
  · exact hmark rfl
  · exact Bool.false_ne_true (hk.symm.trans hinner)

theorem endsInTag_concat_iff : EndsInTag (ks ++ [k]) ↔
    (k = .tagMark ∧ ks.getLast? = some .tagOpen) ∨ (k.isInner ∧ EndsInTag ks) := by
  constructor
  · rintro ⟨before, body, h, hbody⟩
    rcases List.eq_nil_or_concat' body with rfl | ⟨inner, l, rfl⟩
    · have hsplit : ks ++ [k] = (before ++ [.tagOpen]) ++ [.tagMark] := by simpa using h
      obtain ⟨rfl, hk⟩ := List.append_inj' hsplit rfl
      exact .inl ⟨(List.cons.inj hk).1, by simp⟩
    · rw [← List.append_assoc] at h
      obtain ⟨rfl, hk⟩ := List.append_inj' h rfl
      obtain rfl := (List.cons.inj hk).1
      rw [List.forall_mem_append, List.forall_mem_singleton] at hbody
      exact .inr ⟨hbody.2, before, inner, rfl, hbody.1⟩
  · rintro (⟨rfl, hlast⟩ | ⟨hk, before, body, rfl, hbody⟩)
    · obtain ⟨before, rfl⟩ := List.getLast?_eq_some_iff.1 hlast
      exact ⟨before, [], by simp, by simp⟩
    · refine ⟨before, body ++ [k], by simp, ?_⟩
      rw [List.forall_mem_append, List.forall_mem_singleton]
      exact ⟨hbody, hk⟩

theorem takeWhile_isInner_reverse (before : List Kind) (hbody : ∀ k ∈ body, k.isInner) :
    (before ++ [Kind.tagOpen, .tagMark] ++ body).reverse.takeWhile Kind.isInner = body.reverse := by
  rw [List.reverse_append, List.takeWhile_append_of_pos (by simpa using hbody)]
  simp [Kind.isInner, Kind.isContent, Kind.isBlanks]

/-- The kinds settle what stands in the tag that they end in. -/
theorem body_eq_of_append_eq (hbody : ∀ k ∈ body, k.isInner) (hbody' : ∀ k ∈ body', k.isInner)
    (h : before ++ [.tagOpen, .tagMark] ++ body = before' ++ [.tagOpen, .tagMark] ++ body') :
    body = body' := by
  have htake := takeWhile_isInner_reverse before hbody
  rw [h, takeWhile_isInner_reverse before' hbody'] at htake
  exact (List.reverse_injective htake).symm

end Template
