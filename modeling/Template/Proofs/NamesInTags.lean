import Mathlib.Tactic.TFAE
import Template.Proofs.Lockstep
import Template.Proofs.Printing

/-! A word is a name just if it can be the one element of a tag. -/
namespace Template

open Token

variable {source : String} {w : String}

/-- The names that are read are names, and the operators are operators. -/
theorem wellNamed_of_tokenKinds {ks : List Kind} (h : tokenKinds source = .ok ks) :
    ∀ k ∈ ks, k.WellNamed := by
  obtain ⟨-, rfl⟩ := tokenKinds_eq_ok_iff.1 h
  obtain ⟨s, hreads, -⟩ := (Reader.ofSource source).reads_run
  have hkept : ((Reader.ofSource source).keepBlanks false).Reads _ s := hreads
  obtain ⟨-, -, -, hmeans⟩ := hkept.meansIn
  intro k hk
  obtain ⟨t, ht, rfl⟩ := List.mem_map.1 hk
  exact (hmeans t (.inl ht)).wellNamed

theorem tokenKinds_of_gives {marks : List Mark} {q : Position}
    (h : Spot.Gives ⟨.text, false, {}, source.toList⟩ marks ⟨.text, false, q, []⟩)
    (heof : ∀ m ∈ marks, m.1 ≠ .eof) :
    tokenKinds source = .ok (marks.map Prod.fst ++ [.eof]) := by
  obtain ⟨ts, last, hreads, rfl⟩ := h none
  have hstart : (Reader.ofSource source).Reads ts (Spot.reader ⟨.text, false, q, []⟩ last) := hreads
  have hkinds : ∀ t ∈ ts, t.kind ≠ .eof := fun t ht => heof t.mark (List.mem_map_of_mem ht)
  have hend : (Spot.reader ⟨.text, false, q, []⟩ last).next = (.ok ⟨.eof, q, q.offset⟩, _) := rfl
  rw [tokenKinds_eq_ok_iff, Reader.run_of_reads hstart hkinds, Reader.run_of_token hend, if_pos rfl]
  refine ⟨rfl, ?_⟩
  simp [Token.mark]

theorem tokenKinds_echo {e : Element} (hfinite : e.isInfinite = false) (hnumber : e.isNaN = false)
    (hsource : source.toList = ['{', '$', '=', ' '] ++ e.source ++ [' ', '$', '}']) :
    tokenKinds source = .ok (echoKinds [e] ++ [.eof]) := by
  have hseparated : Separated [' ', '$', '}'] := .cons rfl
  have hecho : Lexeme.ofTag true ('=' :: ' ' :: (e.source ++ [' ', '$', '}'])) =
      ⟨['='], ' ' :: (e.source ++ [' ', '$', '}']), .ok (.keyword .echo)⟩ := rfl
  have helement := Lexeme.ofTag_source hfinite hnumber hseparated
  have hfirst := Spot.gives_lexeme (p := Position.after {} ['{', '$']) (List.forall_mem_nil _)
    hecho (by simp)
  have hsecond := Spot.gives_lexeme (p := Position.after {} ['{', '$', '=']) forall_blank_space
    helement e.kind_ne_other
  have htag := Spot.gives_enclosed ('=' :: ' ' :: e.source) forall_blank_space
    (hfirst.append hsecond)
  have hrest : source.toList = '{' :: '$' :: ('=' :: ' ' :: e.source ++ ([' '] ++ ['$', '}'])) := by
    rw [hsource]
    simp
  rw [← hrest] at htag
  have hkinds := tokenKinds_of_gives htag (by cases e <;> simp [tagMarks, Element.kind])
  simpa [tagMarks, echoKinds, tagKinds] using hkinds

/-- The constructors of variables and of functions accept a word just if it is a name, and so do tags
that hold nothing but the word. Otherwise the constructors fail and say which word it was. -/
theorem tfae_isName (w : String) (span : Span) :
    List.TFAE [
      (isName w.toList : Prop),
      ∃ name : Name, name.text = w ∧ Element.ofToken ⟨.identifier w, span⟩ = .ok (.var name),
      ∃ name : Name, name.text = w ∧ Element.ofToken ⟨.function w, span⟩ = .ok (.function name),
      tokenKinds ("\x7b$= " ++ w ++ " $\x7d") =
        .ok [.tagOpen, .tagMark, .keyword .echo, .identifier w, .tagMark, .tagClose, .eof],
      tokenKinds ("\x7b$= @" ++ w ++ " $\x7d") =
        .ok [.tagOpen, .tagMark, .keyword .echo, .function w, .tagMark, .tagClose, .eof]] ∧
    (¬ isName w.toList →
      Element.ofToken ⟨.identifier w, span⟩ = .error ⟨.badName w, span.start⟩ ∧
      Element.ofToken ⟨.function w, span⟩ = .error ⟨.badName w, span.start⟩) := by
  constructor
  · tfae_have 1 → 2 := fun h => ⟨⟨w, h⟩, rfl, Element.ofToken_of_kind rfl⟩
    tfae_have 2 → 1
    | ⟨name, hname, _⟩ => hname ▸ name.wellFormed
    tfae_have 1 → 3 := fun h => ⟨⟨w, h⟩, rfl, Element.ofToken_of_kind rfl⟩
    tfae_have 3 → 1
    | ⟨name, hname, _⟩ => hname ▸ name.wellFormed
    tfae_have 1 → 4 := by
      intro h
      exact tokenKinds_echo (e := .var ⟨w, h⟩) rfl rfl (by simp [Element.source])
    tfae_have 4 → 1 := fun h => wellNamed_of_tokenKinds h (.identifier w) (by simp)
    tfae_have 1 → 5 := by
      intro h
      exact tokenKinds_echo (e := .function ⟨w, h⟩) rfl rfl (by simp [Element.source])
    tfae_have 5 → 1 := fun h => wellNamed_of_tokenKinds h (.function w) (by simp)
    tfae_finish
  · intro h
    simp [Element.ofToken, Name.ofIdentifier, Name.ofString?, h, Except.map]

end Template
