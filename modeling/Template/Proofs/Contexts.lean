import Template.Proofs.Faults

/-! Whether a place in a source lies in text, in a tag or in a string literal. -/
namespace Template

open Token Character

/-- What a place of a source lies in, and what stands right before it where that matters. -/
inductive Context
  | text
  /-- In text, behind a backslash that is not escaped. -/
  | textSlash
  /-- In text, behind a brace that is not escaped. -/
  | brace
  | tag
  /-- In a tag, behind a mark. -/
  | mark
  | string
  /-- In a string literal, behind a backslash that is not escaped. -/
  | stringSlash
deriving DecidableEq

namespace Context

def inText (c : Char) : Context :=
  if c = '\\' then textSlash else if c = '{' then brace else text

def inTag (c : Char) : Context :=
  if c = '"' then string else if c = '$' then mark else tag

def step (k : Context) (c : Char) : Context :=
  match k with
  | text => inText c
  | textSlash => text
  | brace => if c = '$' then tag else inText c
  | tag => inTag c
  | mark => if c = '}' then text else inTag c
  | string => if c = '\\' then stringSlash else if c = '"' then tag else string
  | stringSlash => string

def after (k : Context) (cs : List Char) : Context := cs.foldl step k

/-- The context behind the characters, when these begin a source. -/
def behind (before : List Char) : Context := after text before

def IsText (k : Context) : Prop := k = text ∨ k = brace

def IsTag (k : Context) : Prop := k = tag ∨ k = mark

/-- In text in front of `rest`, where no tag has begun. -/
def StaysText (k : Context) (rest : List Char) : Prop :=
  k = text ∨ k = brace ∧ rest.head? ≠ some '$'

/-- In a tag in front of `rest`, where it has not ended. -/
def StaysTag (k : Context) (rest : List Char) : Prop :=
  k = tag ∨ k = mark ∧ rest.head? ≠ some '}'

variable {k : Context} {c : Char} {cs raw rest : List Char}

@[simp] theorem after_nil (k : Context) : k.after [] = k := rfl

@[simp] theorem after_cons (k : Context) (c : Char) (cs : List Char) :
    k.after (c :: cs) = (k.step c).after cs := rfl

@[simp] theorem after_append (k : Context) (cs ds : List Char) :
    k.after (cs ++ ds) = (k.after cs).after ds := List.foldl_append

theorem behind_append (cs ds : List Char) : behind (cs ++ ds) = (behind cs).after ds :=
  after_append text cs ds

theorem StaysTag.isTag (h : k.StaysTag rest) : k.IsTag := h.imp_right And.left

/-- An unescaped backslash in text is one that does not stand behind another. -/
theorem step_eq_textSlash_iff : k.step c = textSlash ↔ c = '\\' ∧ k.IsText := by
  cases k <;> grind [step, inText, inTag, IsText]

theorem step_eq_stringSlash_iff : k.step c = stringSlash ↔ c = '\\' ∧ k = string := by
  cases k <;> grind [step, inText, inTag]

theorem StaysText.step_eq (h : k.StaysText (c :: rest)) : k.step c = inText c := by
  rcases h with rfl | ⟨rfl, hhead⟩
  · rfl
  · exact if_neg fun hc => hhead (congrArg some hc)

/-- A character of text at which no tag begins. -/
theorem StaysText.step (h : k.StaysText (c :: rest)) (hc : c ≠ '\\')
    (hends : Escape.text.ends (c :: rest) = false) : (k.step c).StaysText rest := by
  rw [h.step_eq, inText, if_neg hc]
  split
  · next hbrace =>
    refine .inr ⟨rfl, fun hhead => ?_⟩
    obtain ⟨more, rfl⟩ := List.head?_eq_some_iff.1 hhead
    subst hbrace
    cases hends
  · exact .inl rfl

theorem StaysText.step_slash (h : k.StaysText ('\\' :: rest)) : k.step '\\' = textSlash :=
  h.step_eq

/-- Behind text that has been scanned, and behind a fault in it. -/
theorem StaysText.scan (h : k.StaysText cs) :
    ((Escape.text.scan cs).fault = none →
      (k.after (Escape.text.scan cs).raw).StaysText (Escape.text.scan cs).rest) ∧
    ∀ fault, (Escape.text.scan cs).fault = some fault →
      k.after (Escape.text.scan cs).raw = textSlash := by
  fun_induction Escape.Rule.scan Escape.text cs generalizing k with
  | case1 => exact ⟨fun _ => h, by rintro _ ⟨⟩⟩
  | case2 => exact ⟨by rintro ⟨⟩, fun _ _ => h.step_slash⟩
  | case3 c cs m hm ih =>
    have hstep : (k.step '\\').step c = text := by rw [h.step_slash]; rfl
    simp only [Escape.Scan.after, List.cons_append, List.nil_append, after_cons, hstep]
    exact ih (.inl rfl)
  | case4 => exact ⟨by rintro ⟨⟩, fun _ _ => h.step_slash⟩
  | case5 => exact ⟨fun _ => h, by rintro _ ⟨⟩⟩
  | case6 c cs hsingle hpair hends ih =>
    exact ih (h.step (Escape.Rule.ne_slash hsingle hpair) (Bool.eq_false_iff.2 hends))

theorem StaysText.ofText {kind : Kind} (h : k.StaysText cs)
    (hlex : Lexeme.ofText cs = ⟨raw, rest, .ok kind⟩) : (k.after raw).StaysText rest := by
  simp only [Lexeme.ofText, Lexeme.mk.injEq] at hlex
  obtain ⟨rfl, rfl, houtcome⟩ := hlex
  split at houtcome
  · cases houtcome
  · next hfault => exact h.scan.1 hfault

theorem string_step (hc : c ≠ '\\') (hquote : c ≠ '"') : string.step c = string := by
  rw [Context.step, if_neg hc, if_neg hquote]

theorem string_scan (cs : List Char) :
    ((Escape.string.scan cs).fault = none → string.after (Escape.string.scan cs).raw = string) ∧
    ∀ fault, (Escape.string.scan cs).fault = some fault →
      string.after (Escape.string.scan cs).raw = stringSlash := by
  fun_induction Escape.Rule.scan Escape.string cs with
  | case1 => exact ⟨fun _ => rfl, by rintro _ ⟨⟩⟩
  | case2 => exact ⟨by rintro ⟨⟩, fun _ _ => rfl⟩
  | case3 c cs m hm ih => exact ih
  | case4 => exact ⟨by rintro ⟨⟩, fun _ _ => rfl⟩
  | case5 => exact ⟨fun _ => rfl, by rintro _ ⟨⟩⟩
  | case6 c cs hsingle hpair hends ih =>
    have hquote : c ≠ '"' := by
      rintro rfl
      exact hends rfl
    simp only [Escape.Scan.after, List.cons_append, List.nil_append, after_cons,
      string_step (Escape.Rule.ne_slash hsingle hpair) hquote]
    exact ih

/-- The characters that neither open nor close anything in a tag. -/
def Plain (c : Char) : Prop := c ≠ '"' ∧ c ≠ '$' ∧ c ≠ '}'

theorem plain_of_class (p : Char → Bool) (hp : ['"', '$', '}'].any p = false) (hc : p c) :
    Plain c := by
  have hne : ∀ d ∈ ['"', '$', '}'], c ≠ d := by
    rintro d hd rfl
    exact List.any_eq_false.1 hp c hd hc
  simpa [Plain] using hne

theorem StaysTag.step_eq (h : k.StaysTag (c :: rest)) : k.step c = inTag c := by
  rcases h with rfl | ⟨rfl, hhead⟩
  · rfl
  · exact if_neg fun hc => hhead (congrArg some hc)

theorem Plain.inTag_eq (hc : Plain c) : inTag c = tag := by
  rw [inTag, if_neg hc.1, if_neg hc.2.1]

theorem tag_after (h : ∀ c ∈ cs, Plain c) : tag.after cs = tag := by
  induction cs with
  | nil => rfl
  | cons c cs ih =>
    obtain ⟨hc, hcs⟩ := List.forall_mem_cons.1 h
    have hstep : tag.step c = tag := hc.inTag_eq
    rw [after_cons, hstep, ih hcs]

/-- Plain characters lead back into the tag. -/
theorem StaysTag.plain (h : k.StaysTag (raw ++ rest)) (hraw : ∀ c ∈ raw, Plain c) :
    (k.after raw).StaysTag rest := by
  cases raw with
  | nil => exact h
  | cons c cs =>
    obtain ⟨hc, hcs⟩ := List.forall_mem_cons.1 hraw
    rw [after_cons, h.step_eq, hc.inTag_eq, tag_after hcs]
    exact .inl rfl

theorem plain_of_isNameChar (hc : isNameChar c) : Plain c := plain_of_class isNameChar rfl hc

theorem plain_of_mem_takeWhile (hc : c ∈ cs.takeWhile isNameChar) : Plain c :=
  plain_of_isNameChar (List.mem_takeWhile_imp hc)

theorem plain_of_mem_raw {n : Numeral} (hn : n.WellFormed) (hc : c ∈ n.raw) : Plain c := by
  have hdigits {ds : List Char} (hds : ∀ d ∈ ds, d.isDigit) (hmem : c ∈ ds) : Plain c :=
    plain_of_class Char.isDigit rfl (hds c hmem)
  obtain ⟨negative, whole, fraction⟩ := n
  rcases List.mem_append.1 hc with hc | hc
  · rcases List.mem_append.1 hc with hc | hc
    · cases negative with
      | false => cases hc
      | true =>
        rw [List.mem_singleton.1 hc]
        exact plain_of_class (· == '-') rfl rfl
    · exact hdigits hn.whole hc
  · cases fraction with
    | nil => cases hc
    | cons d ds =>
      rcases List.mem_cons.1 hc with rfl | hc
      · exact plain_of_class (· == '.') rfl rfl
      · exact hdigits hn.fraction hc

/-- What is read in a tag leads back into the tag, except for the mark that closes it. -/
theorem StaysTag.ofTag {first : Bool} {kind : Kind} (h : k.StaysTag cs)
    (hclose : ∀ more, cs ≠ '$' :: '}' :: more)
    (hlex : Lexeme.ofTag first cs = ⟨raw, rest, .ok kind⟩) : (k.after raw).StaysTag rest := by
  have happend := Lexeme.raw_append_ofTag first cs
  rw [hlex] at happend
  have hplain (hraw : ∀ c ∈ raw, Plain c) : (k.after raw).StaysTag rest :=
    StaysTag.plain (happend.symm ▸ h) hraw
  cases cs with
  | nil => cases hlex
  | cons c cs =>
    simp only [Lexeme.ofTag] at hlex
    split at hlex
    · next hfirst =>
      cases hlex
      refine hplain (List.forall_mem_singleton.2 (plain_of_class (· == '=') rfl ?_))
      exact (Bool.and_eq_true _ _ ▸ hfirst).2
    split at hlex
    · next hquote =>
      subst hquote
      obtain ⟨hfault, -, rfl, -⟩ := Lexeme.ofString_eq_ok hlex
      refine .inl ?_
      rw [after_cons, h.step_eq, after_append]
      change (string.after _).after _ = _
      rw [(string_scan cs).1 hfault]
      rfl
    split at hlex
    · cases hlex
      refine hplain (List.forall_mem_cons.2 ⟨plain_of_class (· == '@') rfl rfl, ?_⟩)
      exact fun _ => plain_of_mem_takeWhile
    split at hlex
    · next hbegins =>
      have hraw : (Numeral.scan (c :: cs)).1.raw = raw := congrArg Lexeme.raw hlex
      refine hplain fun d hd => ?_
      rw [← hraw] at hd
      exact plain_of_mem_raw (Numeral.wellFormed_scan hbegins) hd
    split at hlex
    · next hoperator =>
      cases hlex
      exact hplain (List.forall_mem_singleton.2 (plain_of_class isOperatorChar rfl hoperator))
    split at hlex
    · have hraw : (c :: cs).takeWhile isNameChar = raw := congrArg Lexeme.raw hlex
      refine hplain fun d hd => ?_
      rw [← hraw] at hd
      exact plain_of_mem_takeWhile hd
    · next hquote _ _ _ _ =>
      cases hlex
      rw [after_cons, h.step_eq, after_nil, inTag, if_neg hquote]
      split
      · next hmark =>
        refine .inr ⟨rfl, fun hhead => ?_⟩
        obtain ⟨more, rfl⟩ := List.head?_eq_some_iff.1 hhead
        exact hclose more (by rw [hmark])
      · exact .inl rfl

theorem StaysTag.blanks {r : Reader} (h : k.StaysTag r.rest) :
    (k.after r.blanks).StaysTag r.afterBlanks.rest := by
  have happend : r.blanks ++ r.afterBlanks.rest = r.rest := List.takeWhile_append_dropWhile
  refine StaysTag.plain (happend.symm ▸ h) fun c hc => ?_
  exact plain_of_class isBlank rfl (Reader.isBlank_of_mem_blanks hc)

end Context

namespace Reader

open Context

/-- The reader stands in the context, and its mode says so. -/
def StandsWithin (r : Reader) (k : Context) : Prop :=
  match r.mode with
  | .text => k.StaysText r.rest
  | .tag => k.StaysTag r.rest

variable {r s : Reader} {t : Token} {k : Context} {source consumed : List Char}

theorem StandsWithin.staysText (h : r.StandsWithin k) (hmode : r.mode = .text) :
    k.StaysText r.rest := by
  simpa only [StandsWithin, hmode] using h

theorem StandsWithin.staysTag (h : r.StandsWithin k) (hmode : r.mode = .tag) :
    k.StaysTag r.rest := by
  simpa only [StandsWithin, hmode] using h

theorem standsWithin_of_text (hmode : r.mode = .text) (h : k.StaysText r.rest) :
    r.StandsWithin k := by
  simpa only [StandsWithin, hmode] using h

theorem standsWithin_of_tag (hmode : r.mode = .tag) (h : k.StaysTag r.rest) :
    r.StandsWithin k := by
  simpa only [StandsWithin, hmode] using h

/-- Both halves of a delimiter have been consumed before the second is given. -/
theorem HasConsumed.afterDelimiter_consumed {a b : Char} {rest : List Char}
    (hr : r.HasConsumed source consumed) (first second : Kind) (mode : Mode)
    (hrest : r.rest = a :: b :: rest) :
    (r.afterDelimiter (a, first) (b, second) rest mode).HasConsumed source
      (consumed ++ [a, b]) where
  source_eq := by
    rw [← hr.source_eq, hrest, List.append_assoc]
    rfl
  position := hr.position.after [a, b]

/-- A token that is given takes the reader past some characters and to their context. -/
theorem StandsWithin.step (h : r.StandsWithin k) (hr : r.HasConsumed source consumed)
    (hstep : r.Step t s) : ∃ passed, s.HasConsumed source (consumed ++ passed) ∧
      s.StandsWithin (k.after passed) := by
  cases hstep with
  | pending hpending =>
    refine ⟨[], ?_, h⟩
    rw [List.append_nil]
    exact ⟨hr.source_eq, hr.position⟩
  | eof hpending hmode hrest =>
    refine ⟨[], ?_, h⟩
    rw [List.append_nil]
    exact ⟨hr.source_eq, hr.position⟩
  | opening hpending hmode hrest =>
    have htext := h.staysText hmode
    rw [hrest] at htext
    have hpassed := hr.afterDelimiter_consumed .tagOpen .tagMark .tag hrest
    refine ⟨_, hpassed, .inl ?_⟩
    rw [after_cons, htext.step_eq]
    rfl
  | text hpending hmode hne hends hlex =>
    have happend := Lexeme.raw_append_ofText r.rest
    rw [hlex] at happend
    exact ⟨_, hr.afterLexeme happend,
      standsWithin_of_text hmode ((h.staysText hmode).ofText hlex)⟩
  | blanks hpending hmode hkeeps hblanks =>
    have htag := (h.staysTag hmode).blanks
    exact ⟨_, hr.afterBlanks, standsWithin_of_tag hmode htag⟩
  | closing hpending hmode hrest hkept =>
    have htag := (h.staysTag hmode).blanks
    rw [hrest] at htag
    have hpassed := hr.afterBlanks.afterDelimiter_consumed .tagMark .tagClose .text hrest
    rw [List.append_assoc] at hpassed
    refine ⟨_, hpassed, .inl ?_⟩
    rw [after_append, after_cons, htag.step_eq]
    rfl
  | inTag hpending hmode hne hclose hlex hkept =>
    have htag := (h.staysTag hmode).blanks
    have happend := Lexeme.raw_append_ofTag r.freshTag r.afterBlanks.rest
    rw [hlex] at happend
    have hpassed := hr.afterBlanks.afterLexeme happend
    rw [List.append_assoc] at hpassed
    refine ⟨_, hpassed, standsWithin_of_tag hmode ?_⟩
    rw [after_append]
    exact htag.ofTag hclose hlex

/-- A reader stands in the context that the characters before it lead to. -/
theorem Reads.standsWithin {source : String} {ts : List Token} (h : (ofSource source).Reads ts s) :
    ∃ consumed, s.HasConsumed source.toList consumed ∧ s.StandsWithin (.behind consumed) := by
  induction ts using List.reverseRecOn generalizing s with
  | nil =>
    cases h
    exact ⟨[], hasConsumed_ofSource source, .inl rfl⟩
  | append_singleton ts t ih =>
    obtain ⟨r, hts, hnext⟩ := h.of_concat
    obtain ⟨consumed, hr, hwithin⟩ := ih hts
    obtain ⟨-, u, hstep, rfl⟩ := step_of_next hnext
    obtain ⟨passed, hu, hlater⟩ := hwithin.step hr hstep
    refine ⟨consumed ++ passed, ⟨hu.source_eq, hu.position⟩, ?_⟩
    rw [behind_append]
    exact hlater

end Reader

end Template
