import Mathlib.Data.List.Chain
import Template.Proofs.Printing
import Template.Proofs.ReaderSteps

/-! What holds of the tokens of every run. -/
namespace Template

open Token

def Token.Kind.isText : Kind → Bool
  | .text _ => true
  | _ => false

def Token.Kind.isBlanks : Kind → Bool
  | .blanks _ => true
  | _ => false

/-- Whether the token is content of a tag, white space left out. -/
def Token.Kind.isContent : Kind → Bool
  | .keyword _ | .identifier _ | .string _ | .int _ | .double _ | .function _ | .operator _
  | .other _ => true
  | .text _ | .tagOpen | .tagMark | .tagClose | .blanks _ | .eof => false

/-- Text is not empty, and a double is a number. -/
def Token.Kind.Sound : Kind → Prop
  | .text value => value ≠ ""
  | .double x => x.isNaN = false
  | _ => True

/-- Two kinds that may follow each other. -/
def Token.Kind.MayPrecede (k l : Kind) : Prop := k.isText → l.isText = false

theorem Double.isNaN_numeral (n : Numeral) : n.double.isNaN = false := by
  rw [isNaN, n.magnitude_double, decide_eq_false_iff_not, Nat.not_lt]
  exact nearest_le_infinite

variable {cs raw rest : List Char} {first : Bool} {kind : Kind}

theorem Escape.atTag_of_scan (h : (text.scan cs).fault = none) : AtTag (text.scan cs).rest := by
  fun_induction Rule.scan text cs with
  | case1 => exact .inl rfl
  | case2 => cases h
  | case3 c cs m hmeaning ih => exact ih h
  | case4 => cases h
  | case5 c cs _ _ hends => exact .inr hends
  | case6 c cs _ _ hends ih => exact ih h

theorem Escape.value_scan_ne_nil {rule : Rule} (hcs : cs ≠ []) (hends : rule.ends cs = false)
    (h : (rule.scan cs).fault = none) : (rule.scan cs).value ≠ [] := by
  fun_cases Rule.scan rule cs <;> simp_all [Rule.scan, Scan.after]

theorem Lexeme.ofText_eq_ok (hcs : cs ≠ []) (hends : Escape.text.ends cs = false)
    (h : ofText cs = ⟨raw, rest, .ok kind⟩) :
    kind.isText ∧ kind.Sound ∧ Escape.AtTag rest := by
  simp only [ofText, mk.injEq] at h
  obtain ⟨-, rfl, h⟩ := h
  split at h
  · cases h
  · next hfault =>
    cases h
    refine ⟨rfl, ?_, Escape.atTag_of_scan hfault⟩
    simpa [Kind.Sound] using Escape.value_scan_ne_nil hcs hends hfault

theorem Token.Kind.isText_eq_false_of_isContent (h : kind.isContent) : kind.isText = false := by
  cases kind with
  | text value => cases h
  | _ => rfl

theorem Lexeme.ofNumeral_eq_ok (h : ofNumeral cs = ⟨raw, rest, .ok kind⟩) :
    kind.isContent ∧ kind.Sound ∧ ∀ k, kind ≠ .keyword k := by
  by_cases hfraction : (Numeral.scan cs).1.fraction = []
  · cases hvalue : (Numeral.scan cs).1.int32? with
    | none =>
      rw [ofNumeral_of_none hfraction hvalue] at h
      cases h
    | some value =>
      rw [ofNumeral_of_some hfraction hvalue] at h
      cases h
      exact ⟨rfl, trivial, by simp⟩
  · rw [ofNumeral_of_fraction hfraction] at h
    cases h
    exact ⟨rfl, Double.isNaN_numeral _, by simp⟩

/-- What is read in a tag is content of it, and a tag name only where nothing has been read. -/
theorem Lexeme.ofTag_eq_ok (h : ofTag first cs = ⟨raw, rest, .ok kind⟩) :
    kind.isContent ∧ kind.Sound ∧ (first = false → ∀ k, kind ≠ .keyword k) := by
  cases cs with
  | nil => cases h
  | cons c cs =>
    simp only [ofTag] at h
    split at h
    · next hfirst =>
      cases h
      refine ⟨rfl, trivial, ?_⟩
      rintro rfl
      simp at hfirst
    split at h
    · obtain ⟨-, -, -, rfl⟩ := ofString_eq_ok h
      exact ⟨rfl, trivial, by simp⟩
    split at h
    · cases h
      exact ⟨rfl, trivial, by simp⟩
    split at h
    · obtain ⟨hcontent, hsound, hname⟩ := ofNumeral_eq_ok h
      exact ⟨hcontent, hsound, fun _ => hname⟩
    split at h
    · cases h
      exact ⟨rfl, trivial, by simp⟩
    split at h
    · cases h
      split
      · exact ⟨rfl, trivial, by simp⟩
      · exact ⟨rfl, trivial, by simp⟩
    · cases h
      exact ⟨rfl, trivial, by simp⟩

namespace Reader

/-- What is pending is the second half of a delimiter. -/
def Settled (r : Reader) : Prop := ∀ t ∈ r.pending, t.kind = .tagMark ∨ t.kind = .tagClose

/-- The reader stands in text, at a tag or at the end of input. -/
def AtTag (r : Reader) : Prop :=
  r.pending = none ∧ r.mode = .text ∧ Escape.AtTag r.rest

variable {r s : Reader} {t : Token}

theorem settled_ofSource (source : String) : (ofSource source).Settled := by
  rintro t ⟨⟩

theorem settled_of_pending (h : r.pending = none) : r.Settled := by
  rintro t ht
  rw [h] at ht
  cases ht

/-- What one step gives, and how it leaves the reader. -/
theorem Step.sound (hr : r.Settled) (h : r.Step t s) :
    t.kind.Sound ∧ s.Settled ∧ (t.kind.isText → s.AtTag) ∧ (r.AtTag → t.kind.isText = false) := by
  cases h with
  | pending hpending =>
    have hnone : ({ r with pending := none } : Reader).Settled := settled_of_pending rfl
    rcases hr t hpending with hk | hk <;> simp [hk, Kind.Sound, Kind.isText, hnone]
  | eof hpending => exact ⟨trivial, settled_of_pending hpending, by rintro ⟨⟩, fun _ => rfl⟩
  | opening =>
    refine ⟨trivial, ?_, by rintro ⟨⟩, fun _ => rfl⟩
    rintro u ⟨⟩
    exact .inl rfl
  | text hpending hmode hne hends hlex =>
    obtain ⟨htext, hsound, htag⟩ := Lexeme.ofText_eq_ok hne hends hlex
    refine ⟨hsound, settled_of_pending hpending, fun _ => ⟨hpending, hmode, htag⟩, ?_⟩
    rintro ⟨-, -, hrest | hrest⟩
    · exact (hne hrest).elim
    · exact (Bool.false_ne_true (hends.symm.trans hrest)).elim
  | blanks hpending => exact ⟨trivial, settled_of_pending hpending, by rintro ⟨⟩, fun _ => rfl⟩
  | closing =>
    refine ⟨trivial, ?_, by rintro ⟨⟩, fun _ => rfl⟩
    rintro u ⟨⟩
    exact .inr rfl
  | inTag hpending _ _ _ hlex =>
    obtain ⟨hcontent, hsound, -⟩ := Lexeme.ofTag_eq_ok hlex
    have htext := Kind.isText_eq_false_of_isContent hcontent
    refine ⟨hsound, settled_of_pending hpending, ?_, fun _ => htext⟩
    intro h
    exact (Bool.false_ne_true (htext.symm.trans h)).elim

/-- The kinds of a run: all sound, no two texts together, and none first where a tag stands. -/
theorem sound_run (hr : r.Settled) :
    (∀ k ∈ r.run.tokens.map Token.kind, k.Sound) ∧
      (r.run.tokens.map Token.kind).IsChain Kind.MayPrecede ∧
      (r.AtTag → ∀ k ∈ (r.run.tokens.map Token.kind).head?, k.isText = false) := by
  induction hn : r.remaining using Nat.strongRecOn generalizing r with
  | ind n ih =>
    subst hn
    rcases hnext : r.next with ⟨e | t, s⟩
    · rw [run_of_error hnext]
      exact ⟨by simp, .nil, by simp⟩
    · obtain ⟨-, u, hstep, rfl⟩ := step_of_next hnext
      obtain ⟨hsound, hsettled, hbehind, hfirst⟩ := hstep.sound hr
      rw [run_of_token hnext]
      by_cases ht : t.kind = .eof
      · rw [if_pos ht]
        exact ⟨by simpa using hsound, .singleton _, by simpa using hfirst⟩
      · rw [if_neg ht]
        have hsettled' : ({ u with last := some t } : Reader).Settled := hsettled
        obtain ⟨hall, hchain, hhead⟩ := ih _ (remaining_lt_of_next hnext) hsettled' rfl
        refine ⟨?_, ?_, by simpa using hfirst⟩
        · simpa using ⟨hsound, by simpa using hall⟩
        · refine List.isChain_cons.2 ⟨fun k hk htext => ?_, hchain⟩
          exact hhead (hbehind htext) k hk

end Reader

namespace Content

variable {c : Content}

theorem spaced_of_kinds (hsound : ∀ k ∈ c.kinds, k.Sound)
    (hchain : c.kinds.IsChain Kind.MayPrecede) : c.Spaced := by
  induction c with
  | nil => trivial
  | text value next ih =>
    obtain ⟨hvalue, hsound⟩ := List.forall_mem_cons.1 hsound
    obtain ⟨hhead, htail⟩ := List.isChain_cons.1 hchain
    refine ⟨hvalue, ?_, ih hsound htail⟩
    cases next with
    | text value' next' => exact hhead (.text value') rfl rfl
    | _ => rfl
  | echo elements next ih =>
    rw [kinds] at hsound hchain
    exact ih (List.forall_mem_append.1 hsound).2 hchain.right_of_append
  | loop head body next ihb ihn =>
    simp only [kinds, List.append_assoc, List.forall_mem_append] at hsound hchain
    obtain ⟨-, hbody, -, hnext⟩ := hsound
    have hbehind := hchain.right_of_append
    exact ⟨ihb hbody hbehind.left_of_append,
      ihn hnext hbehind.right_of_append.right_of_append⟩

theorem kind_mem_kinds {e : Element} (he : e ∈ c.elements) : e.kind ∈ c.kinds := by
  induction c with
  | nil => cases he
  | text value next ih => exact List.mem_cons_of_mem _ (ih he)
  | echo elements next ih =>
    rcases List.mem_append.1 he with he | he
    · exact List.mem_append_left _ (by simp [echoKinds, tagKinds, List.mem_map_of_mem he])
    · exact List.mem_append_right _ (ih he)
  | loop head body next ihb ihn =>
    simp only [elements, List.mem_append] at he
    simp only [kinds, List.mem_append]
    rcases he with he | he | he
    · exact .inl (.inl (.inl (by simp [Loop.kinds, tagKinds, List.mem_map_of_mem he])))
    · exact .inl (.inl (.inr (ihb he)))
    · exact .inr (ihn he)

theorem isNaN_of_mem_elements {e : Element} (hsound : ∀ k ∈ c.kinds, k.Sound)
    (he : e ∈ c.elements) : e.isNaN = false := by
  have hkind := hsound _ (kind_mem_kinds he)
  cases e with
  | double x => exact hkind
  | _ => rfl

end Content

/-- The tree of a source that parses is spaced, and its doubles are numbers. -/
theorem spaced_of_parse {source : String} {d : Document} (h : Document.parse source = .ok d) :
    ∃ c : Content, c.WellFormed ∧ d = c.document ∧ c.Spaced ∧
      ∀ e ∈ c.elements, e.isNaN = false := by
  obtain ⟨c, hc, hd, hkinds⟩ := exists_content_of_parse h
  obtain ⟨-, hrun⟩ := tokenKinds_eq_ok_iff.1 hkinds
  obtain ⟨hsound, hchain, -⟩ := Reader.sound_run (Reader.settled_ofSource source)
  rw [hrun] at hsound hchain
  have hkinds : ∀ k ∈ c.kinds, k.Sound := (List.forall_mem_append.1 hsound).1
  exact ⟨c, hc, hd, Content.spaced_of_kinds hkinds hchain.left_of_append,
    fun e => Content.isNaN_of_mem_elements hkinds⟩

end Template
