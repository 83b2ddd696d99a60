import Mathlib.Data.List.TakeWhile
import Template.Proofs.Escapes
import Template.Proofs.TokenRuns

/-! Readers with more text behind their own. -/
namespace Template

open Token Character

variable {p : Char → Bool} {c : Char} {cs raw rest : List Char} {kind : Kind} {first : Bool}

/-- What ends a stretch of a class ends it whatever comes behind. -/
theorem takeWhile_append_of_dropWhile (h : cs.dropWhile p ≠ []) (more : List Char) :
    (cs ++ more).takeWhile p = cs.takeWhile p ∧
      (cs ++ more).dropWhile p = cs.dropWhile p ++ more := by
  obtain ⟨d, ds, hdrop⟩ := List.exists_cons_of_ne_nil h
  have hends : EndsClass p (cs.dropWhile p ++ more) := by
    have hd := endsClass_dropWhile p cs d (by simp [hdrop])
    rw [hdrop]
    exact .cons hd
  have htake : ∀ c ∈ cs.takeWhile p, p c := fun c hc => List.mem_takeWhile_imp hc
  have hsplit : cs ++ more = cs.takeWhile p ++ (cs.dropWhile p ++ more) := by
    rw [← List.append_assoc, List.takeWhile_append_dropWhile]
  constructor
  · rw [hsplit, takeWhile_append_of_ends htake hends]
  · rw [hsplit, dropWhile_append_of_ends htake hends]

namespace Escape

variable {rule : Rule}

/-- Whether the text ends is seen from two characters. -/
structure Rule.LooksAtTwo (rule : Rule) : Prop where
  of_two : ∀ c d cs more, rule.ends (c :: d :: (cs ++ more)) = rule.ends (c :: d :: cs)
  mono : ∀ cs more, rule.ends cs = true → rule.ends (cs ++ more) = true

theorem looksAtTwo_text : text.LooksAtTwo where
  of_two c d cs more := by
    simp only [text]
    split <;> split <;> simp_all
  mono cs more h := by
    obtain ⟨rest, rfl⟩ := ends_text_iff.1 h
    rfl

theorem looksAtTwo_string : string.LooksAtTwo where
  of_two c d cs more := by
    simp only [string]
    split <;> split <;> simp_all
  mono cs more h := by
    cases cs with
    | nil => cases h
    | cons c cs =>
      simp only [string] at h ⊢
      split at h
      · simp_all
      · cases h

/-- A reading that stops in front of something stops there whatever comes behind. -/
theorem Rule.scan_append (hrule : rule.LooksAtTwo) (hrest : (rule.scan cs).rest ≠ [])
    (more : List Char) :
    rule.scan (cs ++ more) = { rule.scan cs with rest := (rule.scan cs).rest ++ more } := by
  fun_induction Rule.scan rule cs with
  | case1 => exact (hrest rfl).elim
  | case2 => exact (hrest rfl).elim
  | case3 c cs m hm ih =>
    rw [List.cons_append, List.cons_append, scan_escape hm, ih hrest]
    rfl
  | case4 c cs hm => rw [List.cons_append, List.cons_append, Rule.scan, hm]
  | case5 c cs hsingle hpair hends =>
    have hc : c ≠ '\\' := Rule.ne_slash hsingle hpair
    exact scan_end hc (hrule.mono (c :: cs) more hends)
  | case6 c cs hsingle hpair hends ih =>
    have hc : c ≠ '\\' := Rule.ne_slash hsingle hpair
    obtain ⟨d, ds, rfl⟩ : ∃ d ds, cs = d :: ds := by
      refine List.exists_cons_of_ne_nil ?_
      rintro rfl
      exact hrest rfl
    have hends' : rule.ends (c :: d :: (ds ++ more)) = false := by
      rw [hrule.of_two]
      exact Bool.eq_false_iff.2 hends
    rw [List.cons_append, List.cons_append, scan_plain hc hends', ← List.cons_append, ih hrest]
    rfl

theorem ends_eq_false_of_raw (h : (text.scan cs).raw ≠ []) : text.ends cs = false := by
  rw [Bool.eq_false_iff]
  intro hends
  rw [scan_atTag (.inr hends)] at h
  exact h rfl

/-- Text that goes on to the end of input goes on into what is appended. -/
theorem scan_append_of_end (h : (text.scan cs).fault = none) (hrest : (text.scan cs).rest = [])
    {more : List Char}
    (hseam : ∀ before, cs = before ++ ['{'] → ¬ Escapes before → more.head? ≠ some '$') :
    text.scan (cs ++ more) = ⟨cs ++ (text.scan more).raw,
      (text.scan cs).value ++ (text.scan more).value, (text.scan more).rest,
      (text.scan more).fault⟩ := by
  fun_induction Rule.scan text cs with
  | case1 => simp
  | case2 => cases h
  | case3 c cs m hm ih =>
    have hseam' : ∀ before, cs = before ++ ['{'] → ¬ Escapes before → more.head? ≠ some '$' := by
      rintro before rfl hescapes
      exact hseam ('\\' :: c :: before) rfl (mt (escapes_pair c before).1 hescapes)
    rw [List.cons_append, List.cons_append, Rule.scan_escape hm, ih h hrest hseam']
    rfl
  | case4 => cases h
  | case5 c cs => cases hrest
  | case6 c cs hsingle hpair hends ih =>
    have hc : c ≠ '\\' := Rule.ne_slash hsingle hpair
    have hseam' : ∀ before, cs = before ++ ['{'] → ¬ Escapes before → more.head? ≠ some '$' := by
      rintro before rfl hescapes
      exact hseam (c :: before) rfl (mt (escapes_cons_of_ne hc).1 hescapes)
    have hends' : text.ends (c :: (cs ++ more)) = false := by
      refine ends_text_eq_false fun hbrace hhead => ?_
      subst hbrace
      cases cs with
      | nil => exact hseam [] rfl not_escapes_nil hhead
      | cons d cs =>
        cases hhead
        exact hends rfl
    rw [List.cons_append, Rule.scan_plain hc hends', ih h hrest hseam']
    rfl

end Escape

namespace Numeral

theorem begins_append (c d : Char) (cs more : List Char) :
    begins (c :: d :: (cs ++ more)) = begins (c :: d :: cs) := by
  by_cases hc : c = '-'
  · subst hc
    rfl
  · rw [begins_cons hc, begins_cons hc]

theorem splitFraction_append (h : 2 ≤ (splitFraction cs).2.length) (more : List Char) :
    splitFraction (cs ++ more) = ((splitFraction cs).1, (splitFraction cs).2 ++ more) := by
  unfold splitFraction at h
  split at h
  · next cs =>
    split at h
    · next hnone =>
      cases cs with
      | nil => simp at h
      | cons d ds =>
        have hd : d.isDigit = false := by
          by_contra hdigit
          simp [hdigit] at hnone
        simp [splitFraction, hd]
    · next hsome =>
      have hdrop : cs.dropWhile Char.isDigit ≠ [] := by
        intro hnil
        simp [hnil] at h
      obtain ⟨htake, hdrop⟩ := takeWhile_append_of_dropWhile hdrop more
      simp [splitFraction, htake, hdrop, hsome]
  · next hpoint =>
    cases cs with
    | nil => simp at h
    | cons d ds =>
      have hd : d ≠ '.' := fun hd => hpoint ds (by rw [hd])
      rw [List.cons_append]
      rw [splitFraction, splitFraction]
      · rfl
      · intro ds hds
        exact hd (List.cons.inj hds).1
      · intro ds hds
        exact hd (List.cons.inj hds).1

theorem scanUnsigned_appended {negative : Bool} (h : 2 ≤ (scanUnsigned negative cs).2.length)
    (more : List Char) : scanUnsigned negative (cs ++ more) =
      ((scanUnsigned negative cs).1, (scanUnsigned negative cs).2 ++ more) := by
  have hdrop : cs.dropWhile Char.isDigit ≠ [] := by
    intro hnil
    simp [scanUnsigned, hnil, splitFraction] at h
  obtain ⟨htake, hdrop⟩ := takeWhile_append_of_dropWhile hdrop more
  have hsplit := splitFraction_append h more
  simp only [scanUnsigned, htake, hdrop, hsplit]

theorem scan_appended (h : 2 ≤ (scan cs).2.length) (more : List Char) :
    scan (cs ++ more) = ((scan cs).1, (scan cs).2 ++ more) := by
  cases cs with
  | nil => simp [scan, scanUnsigned, splitFraction] at h
  | cons c cs =>
    by_cases hc : c = '-'
    · subst hc
      exact scanUnsigned_appended h more
    · rw [scan_of_ne hc] at h
      rw [List.cons_append, scan_of_ne hc, scan_of_ne hc]
      exact scanUnsigned_appended h more

end Numeral

namespace Lexeme

theorem ofNumeral_append (h : 2 ≤ (ofNumeral cs).rest.length) (more : List Char) :
    ofNumeral (cs ++ more) =
      ⟨(ofNumeral cs).raw, (ofNumeral cs).rest ++ more, (ofNumeral cs).outcome⟩ := by
  have hscan := Numeral.scan_appended h more
  rw [ofNumeral, ofNumeral, hscan]

theorem ofString_append (hrest : (Escape.string.scan cs).rest ≠ []) (more : List Char) :
    ofString (cs ++ more) =
      ⟨(ofString cs).raw, (ofString cs).rest ++ more, (ofString cs).outcome⟩ := by
  rw [ofString, ofString, Escape.Rule.scan_append Escape.looksAtTwo_string hrest more]
  generalize Escape.string.scan cs = s at hrest
  obtain ⟨raw, value, rest, fault⟩ := s
  obtain ⟨c, cs, rfl⟩ := List.exists_cons_of_ne_nil hrest
  by_cases hc : c = '"'
  · cases fault <;> simp [ofQuoted, hc]
  · cases fault <;> simp [ofQuoted, hc]

theorem word_append (h : cs.dropWhile isNameChar ≠ []) (first : Bool) (more : List Char) :
    ofWord first (cs ++ more) =
      ⟨(ofWord first cs).raw, (ofWord first cs).rest ++ more, (ofWord first cs).outcome⟩ := by
  obtain ⟨htake, hdrop⟩ := takeWhile_append_of_dropWhile h more
  simp only [ofWord, htake, hdrop]

theorem function_append (h : cs.dropWhile isNameChar ≠ []) (more : List Char) :
    ofFunction (cs ++ more) =
      ⟨(ofFunction cs).raw, (ofFunction cs).rest ++ more, (ofFunction cs).outcome⟩ := by
  obtain ⟨htake, hdrop⟩ := takeWhile_append_of_dropWhile h more
  simp only [ofFunction, htake, hdrop]

theorem exists_cons_cons_of_ofTag (h : ofTag first cs = ⟨raw, rest, .ok kind⟩)
    (hrest : 2 ≤ rest.length) : ∃ c d ds, cs = c :: d :: ds := by
  have hlen := congrArg List.length (raw_append_ofTag first cs)
  simp only [h, List.length_append] at hlen
  match cs, hlen with
  | [], hlen =>
    rw [List.length_nil] at hlen
    omega
  | [c], hlen =>
    rw [List.length_singleton] at hlen
    omega
  | c :: d :: ds, _ => exact ⟨c, d, ds, rfl⟩

/-- What is read in a tag is read whatever comes behind, if two characters follow it. -/
theorem ofTag_append (h : ofTag first cs = ⟨raw, rest, .ok kind⟩) (hrest : 2 ≤ rest.length)
    (more : List Char) : ofTag first (cs ++ more) = ⟨raw, rest ++ more, .ok kind⟩ := by
  obtain ⟨c, d, ds, rfl⟩ := exists_cons_cons_of_ofTag h hrest
  have hne : rest ≠ [] := by
    rintro rfl
    simp at hrest
  have hhead : (d :: (ds ++ more)).head? = (d :: ds).head? := rfl
  rw [List.cons_append, List.cons_append]
  rw [ofTag] at h ⊢
  rw [hhead, Numeral.begins_append c d ds more]
  split at h
  · next hif =>
    cases h
    rw [if_pos hif]
    rfl
  next hecho =>
  rw [if_neg hecho]
  split at h
  · next hif =>
    rw [if_pos hif]
    obtain ⟨-, hquote, -⟩ := ofString_eq_ok h
    have hrest : (Escape.string.scan (d :: ds)).rest ≠ [] := by simp [hquote]
    rw [← List.cons_append, ofString_append hrest more, h]
  next hquote =>
  rw [if_neg hquote]
  split at h
  · next hif =>
    have hdrop : (d :: ds).dropWhile isNameChar = rest := congrArg Lexeme.rest h
    rw [if_pos hif, ← List.cons_append, function_append (hdrop ▸ hne) more, h]
  next hat =>
  rw [if_neg hat]
  split at h
  · next hif =>
    have hlen : 2 ≤ (ofNumeral (c :: d :: ds)).rest.length := by rwa [h]
    have hnumeral := ofNumeral_append hlen more
    rw [h] at hnumeral
    rw [if_pos hif]
    exact hnumeral
  next hbegins =>
  rw [if_neg hbegins]
  split at h
  · next hif =>
    cases h
    rw [if_pos hif]
    rfl
  next hoperator =>
  rw [if_neg hoperator]
  split at h
  · next hif =>
    have hdrop : (c :: d :: ds).dropWhile isNameChar = rest := congrArg Lexeme.rest h
    have hword := word_append (hdrop ▸ hne) first more
    rw [h] at hword
    rw [if_pos hif]
    exact hword
  · next hletter =>
    cases h
    rw [if_neg hletter]
    rfl

theorem ofText_append {outcome : Except LexicalError.Cause Kind}
    (h : ofText cs = ⟨raw, rest, outcome⟩) (hrest : rest ≠ []) (more : List Char) :
    ofText (cs ++ more) = ⟨raw, rest ++ more, outcome⟩ := by
  simp only [ofText, mk.injEq] at h
  obtain ⟨rfl, rfl, rfl⟩ := h
  have hscan := Escape.Rule.scan_append Escape.looksAtTwo_text hrest more
  simp only [ofText, hscan]

end Lexeme

namespace Reader

def append (r : Reader) (more : List Char) : Reader := { r with rest := r.rest ++ more }

variable {r s : Reader} {t : Token} {ts : List Token} {more : List Char}

theorem afterBlanks_append (h : r.afterBlanks.rest ≠ []) (more : List Char) :
    (r.append more).blanks = r.blanks ∧
      (r.append more).afterBlanks = r.afterBlanks.append more := by
  obtain ⟨htake, hdrop⟩ := takeWhile_append_of_dropWhile h more
  refine ⟨htake, ?_⟩
  simp only [afterBlanks, advance, blanks, append, htake, hdrop]

/-- A step is the same whatever comes behind, if no text ends the input and two characters follow
what is read in a tag. -/
theorem Step.append (h : r.Step t s) (hkind : t.kind ≠ .eof) (htext : t.kind.isText → s.rest ≠ [])
    (htag : s.mode = .tag → s.pending = none → 2 ≤ s.rest.length) (more : List Char) :
    (r.append more).Step t (s.append more) := by
  cases h with
  | pending hpending => exact .pending hpending
  | eof => exact (hkind rfl).elim
  | @opening rest hpending hmode hrest =>
    have hrest' : (r.append more).rest = '{' :: '$' :: (rest ++ more) := by
      rw [Reader.append, hrest]
      rfl
    exact .opening hpending hmode hrest'
  | @text raw rest kind hpending hmode hne hends hlex =>
    have hrest := htext (Lexeme.ofText_eq_ok hne hends hlex).1
    have hlex' := Lexeme.ofText_append hlex hrest more
    have hends' : Escape.text.ends (r.rest ++ more) = false := by
      have hraw := Lexeme.raw_ofText_ne_nil hne hends
      rw [hlex] at hraw
      exact Escape.ends_eq_false_of_raw ((congrArg Lexeme.raw hlex').trans_ne hraw)
    exact .text hpending hmode (List.append_ne_nil_of_left_ne_nil hne more) hends' hlex'
  | blanks hpending hmode hkeeps hblanks =>
    have hlen : 2 ≤ r.afterBlanks.rest.length := htag hmode hpending
    obtain ⟨hsame, hafter⟩ := r.afterBlanks_append (List.ne_nil_of_length_pos (by omega)) more
    have hstep := Step.blanks (r := r.append more) hpending hmode hkeeps (hsame ▸ hblanks)
    rw [hsame, hafter] at hstep
    exact hstep
  | @closing rest hpending hmode hrest hkept =>
    obtain ⟨hsame, hafter⟩ := r.afterBlanks_append (by simp [hrest]) more
    have hrest' : (r.append more).afterBlanks.rest = '$' :: '}' :: (rest ++ more) := by
      rw [hafter, Reader.append, hrest]
      rfl
    have hstep := Step.closing (r := r.append more) hpending hmode hrest' (by rwa [hsame])
    rw [hafter] at hstep
    exact hstep
  | @inTag raw rest kind hpending hmode hne hclose hlex hkept =>
    obtain ⟨hsame, hafter⟩ := r.afterBlanks_append hne more
    have hlex' := Lexeme.ofTag_append hlex (htag hmode hpending) more
    have hne' : (r.afterBlanks.append more).rest ≠ [] := List.append_ne_nil_of_left_ne_nil hne more
    have hclose' : ∀ tail, (r.afterBlanks.append more).rest ≠ '$' :: '}' :: tail := by
      intro tail htail
      obtain ⟨c, d, ds, hfront⟩ := Lexeme.exists_cons_cons_of_ofTag hlex (htag hmode hpending)
      rw [Reader.append, hfront] at htail
      cases htail
      exact hclose ds hfront
    have hstep : (r.append more).Step ⟨kind, (r.append more).afterBlanks.spanOf raw⟩
        ((r.append more).afterBlanks.afterLexeme raw (rest ++ more)) := by
      refine .inTag hpending hmode (by rwa [hafter]) (by rwa [hafter]) ?_ (by rwa [hsame])
      rw [hafter]
      exact hlex'
    rw [hafter] at hstep
    exact hstep

theorem length_rest_afterBlanks_le (r : Reader) : r.afterBlanks.rest.length ≤ r.rest.length :=
  (List.dropWhile_suffix isBlank).length_le

theorem Step.length_rest_le (h : r.Step t s) : s.rest.length ≤ r.rest.length := by
  have hblanks := r.length_rest_afterBlanks_le
  cases h with
  | pending => exact Nat.le_refl _
  | eof => exact Nat.le_refl _
  | opening _ _ hrest =>
    simp only [hrest, afterDelimiter, advance, List.length_cons]
    omega
  | text _ _ _ _ hlex =>
    have hlen := congrArg List.length (Lexeme.raw_append_ofText r.rest)
    simp only [hlex, List.length_append] at hlen
    simp only [afterLexeme, advance]
    omega
  | blanks => exact hblanks
  | closing _ _ hrest =>
    rw [hrest] at hblanks
    simp only [afterDelimiter, advance, List.length_cons] at hblanks ⊢
    omega
  | inTag _ _ _ _ hlex =>
    have hlen := congrArg List.length (Lexeme.raw_append_ofTag r.freshTag r.afterBlanks.rest)
    simp only [hlex, List.length_append] at hlen
    simp only [afterLexeme, advance]
    omega

/-- A reader that stands in a tag and comes out of it has the end of the tag before it; otherwise it
has at least what is left in the end. -/
theorem Reads.two_le_length (h : r.Reads ts s) (hmode : r.mode = .tag) (hpending : r.pending = none)
    (hs : s.mode = .tag → s.pending = none → 2 ≤ s.rest.length) : 2 ≤ r.rest.length := by
  induction h with
  | nil => exact hs hmode hpending
  | @cons r _ _ _ _ hnext _ ih =>
    obtain ⟨-, u, hstep, rfl⟩ := step_of_next hnext
    have hle := hstep.length_rest_le
    cases hstep with
    | pending hsome => cases hpending.symm.trans hsome
    | eof _ htext => cases hmode.symm.trans htext
    | opening _ htext => cases hmode.symm.trans htext
    | text _ htext => cases hmode.symm.trans htext
    | blanks => exact Nat.le_trans (ih hmode hpending hs) hle
    | closing _ _ hrest =>
      have hblanks := r.length_rest_afterBlanks_le
      rw [hrest, List.length_cons, List.length_cons] at hblanks
      omega
    | inTag => exact Nat.le_trans (ih hmode hpending hs) hle

theorem Step.kind_of_empty (hpending : r.pending = none) (hmode : r.mode = .text)
    (hrest : r.rest = []) (h : r.Step t s) : t.kind = .eof := by
  cases h with
  | pending hsome => cases hpending.symm.trans hsome
  | eof => rfl
  | opening _ _ hopen => cases hrest.symm.trans hopen
  | text _ _ hne => exact (hne hrest).elim
  | blanks _ htag => cases hmode.symm.trans htag
  | closing _ htag => cases hmode.symm.trans htag
  | inTag _ htag => cases hmode.symm.trans htag

/-- A reader that stands in text stands in no tag that is not closed. -/
theorem two_le_length_of_text (h : r.mode = .text) :
    r.mode = .tag → r.pending = none → 2 ≤ r.rest.length := by
  intro htag
  cases h.symm.trans htag

/-- What is given before the last text is given whatever comes behind, if two characters are left in
a tag that is not closed. -/
theorem Reads.append_more (hr : r.Settled) (h : r.Reads ts s)
    (hs : s.mode = .tag → s.pending = none → 2 ≤ s.rest.length) (hkinds : ∀ t ∈ ts, t.kind ≠ .eof)
    (hlast : (∃ t ∈ ts.getLast?, t.kind.isText) → s.rest ≠ []) (more : List Char) :
    (r.append more).Reads ts (s.append more) := by
  induction h with
  | nil => exact .nil
  | @cons r s u t ts hnext hrest ih =>
    obtain ⟨hended, v, hstep, rfl⟩ := step_of_next hnext
    obtain ⟨ht, hts⟩ := List.forall_mem_cons.1 hkinds
    obtain ⟨-, hsettled, hbehind, -⟩ := hstep.sound hr
    have htext : t.kind.isText → v.rest ≠ [] := by
      intro htext
      cases hrest with
      | nil => exact hlast ⟨t, rfl, htext⟩
      | @cons _ w _ t' ts' hnext' _ =>
        intro hnil
        obtain ⟨hpending, hmode, -⟩ := hbehind htext
        obtain ⟨-, w', hstep', -⟩ := step_of_next hnext'
        exact hts t' List.mem_cons_self
          (Step.kind_of_empty (r := { v with last := some t }) hpending hmode hnil hstep')
    have htag : v.mode = .tag → v.pending = none → 2 ≤ v.rest.length := by
      intro hmode hpending
      exact hrest.two_le_length hmode hpending hs
    have hnext' := next_of_step (r := r.append more) hended (hstep.append ht htext htag more)
    refine .cons hnext' (ih hsettled hs hts fun ⟨t', ht', htext'⟩ => hlast ⟨t', ?_, htext'⟩)
    rw [List.getLast?_cons, Option.mem_def.1 ht']
    rfl

end Reader

end Template
