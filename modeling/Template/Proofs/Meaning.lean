import Template.Proofs.Escapes
import Template.Proofs.TokenStream

/-! A token is the longest stretch that has its form, and its value what that means. -/
namespace Template

open String Token Character

/-- The characters are a numeral, and what follows does not go on to a longer one. -/
structure Numeral.Spans (n : Numeral) (raw rest : List Char) : Prop where
  wellFormed : n.WellFormed
  raw_eq : n.raw = raw
  longest : ∀ m : Numeral, m.WellFormed → ∀ more, more <+: rest → m.raw = raw ++ more → more = []

/-- The characters `raw` in front of `rest` have the form of the token and mean its value. -/
def Token.Kind.Means (raw rest : List Char) : Kind → Prop
  | .text value => raw ≠ [] ∧ Escape.text.Reads raw value.toList rest ∧
      (rest = [] ∨ ∃ more, rest = '{' :: '$' :: more)
  | .tagOpen => raw = ['{'] ∧ rest.head? = some '$'
  | .tagMark => raw = ['$']
  | .tagClose => raw = ['}']
  | .blanks value => raw = value.toList ∧ raw ≠ [] ∧ (∀ c ∈ raw, isBlank c) ∧
      EndsClass isBlank rest
  | .keyword .echo => raw = ['=']
  | .keyword k => raw.map Char.toLower = k.letters ∧ EndsClass isNameChar rest
  | .identifier name => raw = name.toList ∧ isName name.toList ∧ EndsClass isNameChar rest
  | .function name => raw = '@' :: name.toList ∧ isName name.toList ∧ EndsClass isNameChar rest
  | .string value => ∃ body, raw = '"' :: body ++ ['"'] ∧
      Escape.string.Reads body value.toList ('"' :: rest)
  | .int value => ∃ n : Numeral, n.Spans raw rest ∧ n.fraction = [] ∧ value.toInt = n.integer
  | .double x => ∃ n : Numeral, n.Spans raw rest ∧ n.fraction ≠ [] ∧ x = n.double
  | .operator c => raw = [c] ∧ isOperatorChar c ∧ (c = '-' → EndsClass Char.isDigit rest)
  | .other c => raw = [c] ∧ isBlank c = false ∧ isAlphabetic c = false ∧ c.isDigit = false ∧
      isOperatorChar c = false ∧ c ≠ '"' ∧ (c = '$' → rest.head? ≠ some '}') ∧
      (c = '@' → EndsClass isAlphabetic rest)
  | .eof => raw = [] ∧ rest = []

/-- The token's stretch of the source means its value, with what follows it in the source. -/
def Token.MeansIn (t : Token) (source : List Char) : Prop :=
  t.kind.Means (t.span.slice source) (dropBytes t.span.stop source)

variable {p : Char → Bool} {c : Char} {cs before raw rest more : List Char} {first : Bool}
  {kind : Kind} {n m : Numeral}

namespace Numeral

theorem prefix_takeWhile (hcs : ∀ c ∈ cs, p c) (h : cs <+: more) : cs <+: more.takeWhile p := by
  obtain ⟨rest, rfl⟩ := h
  rw [List.takeWhile_append_of_pos hcs]
  exact List.prefix_append _ _

/-- Where a fraction stands, the one that is read is no shorter. -/
theorem pointed_prefix_splitFraction (hcs : ∀ c ∈ cs, c.isDigit) (h : pointed cs <+: more) :
    pointed cs <+: pointed (splitFraction more).1 := by
  cases cs with
  | nil => exact List.nil_prefix
  | cons d ds =>
    obtain ⟨rest, rfl⟩ := h
    have htake := prefix_takeWhile hcs (List.prefix_append (d :: ds) rest)
    have hne : (d :: ds ++ rest).takeWhile Char.isDigit ≠ [] := by
      intro hnil
      rw [hnil] at htake
      exact List.cons_ne_nil d ds (List.prefix_nil.1 htake)
    rw [pointed.eq_2 (d :: ds) (List.cons_ne_nil d ds), List.cons_append, splitFraction,
      if_neg hne, pointed.eq_2 _ hne]
    exact (List.prefix_cons_inj '.').2 htake

/-- Digits and a fraction that stand at the front are read. -/
theorem prefix_scanUnsigned (hn : n.WellFormed) (negative : Bool)
    (h : n.whole ++ pointed n.fraction <+: cs) :
    n.whole ++ pointed n.fraction <+:
      (scanUnsigned negative cs).1.whole ++ pointed (scanUnsigned negative cs).1.fraction := by
  obtain ⟨rest, rfl⟩ := h
  by_cases hfraction : n.fraction = []
  · rw [hfraction, pointed, List.append_nil]
    exact (prefix_takeWhile hn.whole (List.prefix_append ..)).trans (List.prefix_append ..)
  · have hends : EndsClass Char.isDigit (pointed n.fraction ++ rest) := by
      rw [pointed.eq_2 _ hfraction]
      exact .cons rfl
    have hpointed := pointed_prefix_splitFraction hn.fraction
      (List.prefix_append (pointed n.fraction) rest)
    simpa only [scanUnsigned, List.append_assoc, takeWhile_append_of_ends hn.whole hends,
      dropWhile_append_of_ends hn.whole hends, List.prefix_append_right_inj] using hpointed

/-- No numeral at the front is longer than the one that is read. -/
theorem raw_prefix_scan (hn : n.WellFormed) (h : n.raw <+: cs) : n.raw <+: (scan cs).1.raw := by
  obtain ⟨rest, rfl⟩ := h
  have hscan := scan_sign_append hn (pointed n.fraction ++ rest)
  have hunsigned := prefix_scanUnsigned hn n.negative
    (List.prefix_append (n.whole ++ pointed n.fraction) rest)
  simp only [raw, List.append_assoc, hscan] at hunsigned ⊢
  exact (List.prefix_append_right_inj (sign n.negative)).2 hunsigned

theorem isDigit_of_mem_splitFraction (h : c ∈ (splitFraction cs).1) : c.isDigit := by
  unfold splitFraction at h
  split at h
  · split at h
    · cases h
    · exact List.mem_takeWhile_imp h
  · cases h

theorem wellFormed_scanUnsigned (negative : Bool) (h : cs.head?.any Char.isDigit) :
    (scanUnsigned negative cs).1.WellFormed where
  nonempty := by
    cases cs with
    | nil => cases h
    | cons c cs =>
      have hdigit : c.isDigit := h
      simp [scanUnsigned, hdigit]
  whole _ hc := List.mem_takeWhile_imp hc
  fraction _ hc := isDigit_of_mem_splitFraction hc

theorem wellFormed_scan (h : begins cs) : (scan cs).1.WellFormed := by
  fun_cases scan cs
  · exact wellFormed_scanUnsigned true h
  · next hminus =>
    refine wellFormed_scanUnsigned false ?_
    cases cs with
    | nil => cases h
    | cons c cs =>
      rw [begins_cons fun hc => hminus cs (by rw [hc])] at h
      exact h

/-- What is read is the longest numeral at the front. -/
theorem spans_scan (h : begins cs) : (scan cs).1.Spans (scan cs).1.raw (scan cs).2 where
  wellFormed := wellFormed_scan h
  raw_eq := rfl
  longest m hm more hmore hraw := by
    have hpre : m.raw <+: cs := by
      rw [hraw]
      have happend := (List.prefix_append_right_inj (scan cs).1.raw).2 hmore
      rwa [raw_append_scan] at happend
    have hlen := (raw_prefix_scan hm hpre).length_le
    rw [hraw, List.length_append] at hlen
    exact List.eq_nil_of_length_eq_zero (by omega)

theorem toInt_of_int32? {value : Int32} (h : n.int32? = some value) :
    value.toInt = n.integer := by
  unfold int32? at h
  split at h
  · next hrange =>
    cases h
    exact Int32.toInt_ofInt_of_le hrange.1 (Int.lt_add_one_of_le hrange.2)
  · cases h

end Numeral

namespace Lexeme

theorem means_ofText (hcs : cs ≠ []) (hends : Escape.text.ends cs = false)
    (h : ofText cs = ⟨raw, rest, .ok kind⟩) : kind.Means raw rest := by
  have hraw := raw_ofText_ne_nil hcs hends
  simp only [ofText, mk.injEq] at h
  obtain ⟨rfl, rfl, h⟩ := h
  split at h
  · cases h
  · next hfault =>
    cases h
    have hreads := Escape.text.reads_of_scan (fun _ => rfl) hfault
    refine ⟨hraw, by rwa [String.toList_ofList], ?_⟩
    rcases Escape.atTag_of_scan hfault with hrest | hrest
    · exact .inl hrest
    · exact .inr (Escape.ends_text_iff.1 hrest)

theorem means_ofString (h : ofString cs = ⟨raw, rest, .ok kind⟩) : kind.Means raw rest := by
  obtain ⟨hfault, hrest, rfl, rfl⟩ := ofString_eq_ok h
  have hreads := Escape.string.reads_of_scan (fun _ => rfl) hfault
  rw [hrest] at hreads
  exact ⟨_, rfl, by rwa [String.toList_ofList]⟩

theorem means_ofNumeral (hbegins : Numeral.begins cs) (h : ofNumeral cs = ⟨raw, rest, .ok kind⟩) :
    kind.Means raw rest := by
  have hspans := Numeral.spans_scan hbegins
  by_cases hfraction : (Numeral.scan cs).1.fraction = []
  · cases hvalue : (Numeral.scan cs).1.int32? with
    | none =>
      rw [ofNumeral_of_none hfraction hvalue] at h
      cases h
    | some value =>
      rw [ofNumeral_of_some hfraction hvalue] at h
      cases h
      exact ⟨_, hspans, hfraction, Numeral.toInt_of_int32? hvalue⟩
  · rw [ofNumeral_of_fraction hfraction] at h
    cases h
    exact ⟨_, hspans, hfraction, rfl⟩

theorem isName_takeWhile (hc : isAlphabetic c) (cs : List Char) :
    isName ((c :: cs).takeWhile isNameChar) := by
  rw [List.takeWhile_cons_of_pos (isNameChar_of_isAlphabetic hc), isName, hc, Bool.true_and,
    List.all_eq_true]
  exact fun d hd => List.mem_takeWhile_imp hd

theorem isName_takeWhile_of_any (h : cs.head?.any isAlphabetic) :
    isName (cs.takeWhile isNameChar) := by
  cases cs with
  | nil => cases h
  | cons c cs => exact isName_takeWhile h cs

theorem endsClass_of_any (h : cs.head?.any p = false) : EndsClass p cs := by
  intro c hc
  rwa [Option.mem_def.1 hc, Option.any_some] at h

theorem means_ofWord (hc : isAlphabetic c) (h : ofWord first (c :: cs) = ⟨raw, rest, .ok kind⟩) :
    kind.Means raw rest := by
  have hname := isName_takeWhile hc cs
  have hends := endsClass_dropWhile isNameChar (c :: cs)
  simp only [ofWord, mk.injEq] at h
  obtain ⟨rfl, rfl, h⟩ := h
  split at h
  · next k hword =>
    cases h
    obtain ⟨hletters, hecho⟩ := keyword?_eq_some_iff.1 hword
    cases k with
    | echo => exact (hecho rfl).elim
    | _ => exact ⟨hletters, hends⟩
  · cases h
    simpa [Kind.Means] using ⟨hname, hends⟩

theorem means_ofFunction (hc : cs.head?.any isAlphabetic)
    (h : ofFunction cs = ⟨raw, rest, .ok kind⟩) : kind.Means raw rest := by
  have hname := isName_takeWhile_of_any hc
  have hends := endsClass_dropWhile isNameChar cs
  cases h
  simpa [Kind.Means] using ⟨hname, hends⟩

/-- What is read in a tag, from a character that is not blank and does not close the tag. -/
theorem means_ofTag (hblank : EndsClass isBlank cs) (hclose : ∀ more, cs ≠ '$' :: '}' :: more)
    (h : ofTag first cs = ⟨raw, rest, .ok kind⟩) : kind.Means raw rest := by
  cases cs with
  | nil => cases h
  | cons c cs =>
    rw [ofTag] at h
    split at h
    · next hecho =>
      obtain rfl : c = '=' := by simp_all
      cases h
      rfl
    split at h
    · exact means_ofString h
    split at h
    · next hat =>
      rw [Bool.and_eq_true] at hat
      exact means_ofFunction hat.2 h
    split at h
    · next hbegins => exact means_ofNumeral hbegins h
    next hquote hat hbegins =>
    split at h
    · next hoperator =>
      cases h
      refine ⟨rfl, hoperator, ?_⟩
      rintro rfl
      exact endsClass_of_any (by simpa [Numeral.begins] using hbegins)
    split at h
    · next hletter => exact means_ofWord hletter h
    · next hoperator hletter =>
      cases h
      have hminus : c ≠ '-' := by
        rintro rfl
        exact hoperator rfl
      rw [Numeral.begins_cons hminus] at hbegins
      refine ⟨rfl, hblank c rfl, by simpa using hletter, by simpa using hbegins,
        by simpa using hoperator, hquote, ?_, ?_⟩
      · rintro rfl hbrace
        obtain ⟨more, rfl⟩ := List.head?_eq_some_iff.1 hbrace
        exact hclose more rfl
      · rintro rfl
        exact endsClass_of_any (by simpa using hat)

/-- An equals sign that is first in its tag is the tag's name. -/
theorem ne_other_of_first (h : ofTag true cs = ⟨raw, rest, .ok kind⟩)
    (hmeans : kind.Means raw rest) : kind ≠ .other '=' := by
  rintro rfl
  have happend := raw_append_ofTag true cs
  rw [h, hmeans.1] at happend
  obtain rfl : '=' :: rest = cs := happend
  have hkeyword := (ofTag_eq_keyword_iff h .echo).1.2 rfl
  cases hkeyword

end Lexeme

theorem Span.Covers.dropBytes_stop {s : Span} (h : s.Covers before raw) (rest : List Char) :
    dropBytes s.stop (before ++ raw ++ rest) = rest := by
  rw [h.stop, dropBytes_utf8Len]

theorem Token.meansIn_of_covers {t : Token} (h : t.span.Covers before raw)
    (hmeans : t.kind.Means raw rest) : t.MeansIn (before ++ raw ++ rest) := by
  rw [MeansIn, h.slice, h.dropBytes_stop]
  exact hmeans

namespace Reader

variable {r s : Reader} {t : Token} {source given held : List Char}

/-- With nothing pending, the characters that are read begin where the reader has come to. -/
theorem HasConsumed.meansIn {consumed : List Char} (h : r.HasConsumed source consumed)
    (hrest : raw ++ rest = r.rest) (hmeans : kind.Means raw rest) :
    Token.MeansIn ⟨kind, r.spanOf raw⟩ source := by
  have hmeansIn := Token.meansIn_of_covers (t := ⟨kind, r.spanOf raw⟩) (h.covers raw) hmeans
  rwa [List.append_assoc, hrest, h.source_eq] at hmeansIn

theorem HasConsumed.meansIn_delimiter {consumed : List Char} {a b : Char} {k l : Kind}
    (h : r.HasConsumed source consumed) (hrest : r.rest = a :: b :: rest)
    (hk : k.Means [a] (b :: rest)) (hl : l.Means [b] rest) (mode : Mode) :
    Token.MeansIn ⟨k, r.spanOf [a]⟩ source ∧
      ∀ u ∈ (r.afterDelimiter (a, k) (b, l) rest mode).pending, u.MeansIn source := by
  have hmiddle : (r.advance [a] (b :: rest)).HasConsumed source (consumed ++ [a]) :=
    h.advance hrest.symm
  refine ⟨h.meansIn hrest.symm hk, ?_⟩
  rintro u ⟨⟩
  have hsplit : [b] ++ rest = b :: rest := rfl
  exact hmiddle.meansIn hsplit hl

theorem endsClass_afterBlanks (r : Reader) : EndsClass isBlank r.afterBlanks.rest :=
  endsClass_dropWhile isBlank r.rest

/-- A token that is given means its characters, and so does one that is pending then. -/
theorem Step.meansIn (hr : r.StandsAt source given held)
    (hpendings : ∀ u ∈ r.pending, u.MeansIn source) (h : r.Step t s) :
    t.MeansIn source ∧ ∀ u ∈ s.pending, u.MeansIn source := by
  cases h with
  | pending hpending => exact ⟨hpendings t hpending, by rintro u ⟨⟩⟩
  | eof hpending hmode hrest =>
    obtain ⟨rfl, hconsumed⟩ := hr.consumed_of_nothing hpending
    have hmeans : Kind.eof.Means [] [] := ⟨rfl, rfl⟩
    exact ⟨hconsumed.meansIn hrest.symm hmeans, hpendings⟩
  | opening hpending hmode hrest =>
    obtain ⟨rfl, hconsumed⟩ := hr.consumed_of_nothing hpending
    exact hconsumed.meansIn_delimiter (k := .tagOpen) (l := .tagMark) hrest ⟨rfl, rfl⟩ rfl .tag
  | text hpending hmode hne hends hlex =>
    obtain ⟨rfl, hconsumed⟩ := hr.consumed_of_nothing hpending
    have happend := Lexeme.raw_append_ofText r.rest
    rw [hlex] at happend
    exact ⟨hconsumed.meansIn happend (Lexeme.means_ofText hne hends hlex), hpendings⟩
  | blanks hpending hmode hkeeps hblanks =>
    obtain ⟨rfl, hconsumed⟩ := hr.consumed_of_nothing hpending
    refine ⟨hconsumed.meansIn List.takeWhile_append_dropWhile ?_, hpendings⟩
    exact ⟨String.toList_ofList.symm, hblanks, fun _ => isBlank_of_mem_blanks,
      r.endsClass_afterBlanks⟩
  | closing hpending hmode hrest hkept =>
    obtain ⟨rfl, hconsumed⟩ := hr.consumed_of_nothing hpending
    exact hconsumed.afterBlanks.meansIn_delimiter (k := .tagMark) (l := .tagClose) hrest rfl rfl
      .text
  | inTag hpending hmode hne hclose hlex hkept =>
    obtain ⟨rfl, hconsumed⟩ := hr.consumed_of_nothing hpending
    have happend := Lexeme.raw_append_ofTag r.freshTag r.afterBlanks.rest
    rw [hlex] at happend
    have hmeans := Lexeme.means_ofTag r.endsClass_afterBlanks hclose hlex
    exact ⟨hconsumed.afterBlanks.meansIn happend hmeans, hpendings⟩

/-- Where nothing of a tag has been given, an equals sign is the tag's name. -/
theorem Step.ne_other_of_fresh (hpending : r.pending = none) (hmode : r.mode = .tag)
    (hfresh : r.freshTag) (h : r.Step t s) : t.kind ≠ .other '=' := by
  cases h with
  | pending hsome => cases hpending.symm.trans hsome
  | eof _ htext => cases hmode.symm.trans htext
  | opening _ htext => cases hmode.symm.trans htext
  | text _ htext => cases hmode.symm.trans htext
  | blanks => simp
  | closing => simp
  | inTag _ _ _ hclose hlex =>
    rw [hfresh] at hlex
    exact Lexeme.ne_other_of_first hlex (Lexeme.means_ofTag r.endsClass_afterBlanks hclose hlex)

/-- Every token that has been given means its characters. -/
theorem Reads.meansIn {source : String} {keep : Bool} {ts : List Token}
    (h : ((ofSource source).keepBlanks keep).Reads ts s) :
    ∃ given held, s.StandsAt source.toList given held ∧
      ∀ u, u ∈ ts ∨ u ∈ s.pending → u.MeansIn source.toList := by
  induction ts using List.reverseRecOn generalizing s with
  | nil =>
    cases h
    refine ⟨[], [], standsAt_start source keep, ?_⟩
    rintro u (hu | hu)
    · cases hu
    · cases hu
  | append_singleton ts t ih =>
    obtain ⟨r, hts, hnext⟩ := h.of_concat
    obtain ⟨given, held, hr, hall⟩ := ih hts
    obtain ⟨gap, raw, held', -, hs⟩ := standsAt_of_next_ok hr hnext
    obtain ⟨-, v, hstep, rfl⟩ := step_of_next hnext
    obtain ⟨ht, hpendings⟩ := hstep.meansIn hr fun u hu => hall u (.inr hu)
    refine ⟨given ++ gap ++ raw, held', hs, ?_⟩
    rintro u (hu | hu)
    · rcases List.mem_append.1 hu with hu | hu
      · exact hall u (.inl hu)
      · rwa [List.mem_singleton.1 hu]
    · exact hpendings u hu

/-- Every token of a run means its characters, and they are the longest that have its form. An equals
sign that is first in its tag is the tag's name. -/
theorem tokens_mean_raw (source : String) (keep : Bool) :
    ∀ us t vs, ((ofSource source).keepBlanks keep).run.tokens = us ++ t :: vs →
      t.kind.Means (t.span.slice source.toList) (dropBytes t.span.stop source.toList) ∧
      ∀ before blanks, us.map Token.kind = before ++ [.tagOpen, .tagMark] ++ blanks →
        (∀ k ∈ blanks, k.isBlanks) → t.kind ≠ .other '=' := by
  intro us t vs hrun
  obtain ⟨r, s, hus, hnext, hreads⟩ := reads_of_run_eq hrun
  refine ⟨?_, ?_⟩
  · obtain ⟨-, -, -, hall⟩ := hreads.meansIn
    exact hall t (.inl List.mem_concat_self)
  · intro before blanks hkinds hblanks
    have hbehind := hus.behind.1
    rw [hkinds] at hbehind
    obtain ⟨hpending, hmode, hfresh⟩ := hbehind.freshTag hblanks
    obtain ⟨-, u, hstep, -⟩ := step_of_next hnext
    exact hstep.ne_other_of_fresh hpending hmode hfresh

/-- A text with a brace that is escaped, and a number in front of a point that begins no fraction. -/
theorem tokens_mean_raw_escape :
    let run := ((ofSource "\\\x7b$\x7b$=-1.50.$\x7d").keepBlanks false).run
    ∃ t us x vs, run.tokens = t :: us ++ x :: vs ∧
      t.kind = .text "\x7b$" ∧
      t.kind.Means ['\\', '{', '$'] ['{', '$', '=', '-', '1', '.', '5', '0', '.', '$', '}'] ∧
      x.kind = .double (Numeral.mk true ['1'] ['5', '0']).double ∧
      x.kind.Means ['-', '1', '.', '5', '0'] ['.', '$', '}'] := by
  intro run
  have hrun : run.tokens = [⟨.text "\x7b$", ⟨⟨0, 1, 1⟩, 3⟩⟩, ⟨.tagOpen, ⟨⟨3, 1, 4⟩, 4⟩⟩,
      ⟨.tagMark, ⟨⟨4, 1, 5⟩, 5⟩⟩, ⟨.keyword .echo, ⟨⟨5, 1, 6⟩, 6⟩⟩] ++
      ⟨.double (Numeral.mk true ['1'] ['5', '0']).double, ⟨⟨6, 1, 7⟩, 11⟩⟩ ::
      [⟨.other '.', ⟨⟨11, 1, 12⟩, 12⟩⟩, ⟨.tagMark, ⟨⟨12, 1, 13⟩, 13⟩⟩,
        ⟨.tagClose, ⟨⟨13, 1, 14⟩, 14⟩⟩, ⟨.eof, ⟨⟨14, 1, 15⟩, 14⟩⟩] := by
    decide +kernel
  have htext := (tokens_mean_raw "\\\x7b$\x7b$=-1.50.$\x7d" false [] _ _ hrun).1
  have hnumber := (tokens_mean_raw "\\\x7b$\x7b$=-1.50.$\x7d" false _ _ _ hrun).1
  exact ⟨_, _, _, _, hrun, rfl, htext, rfl, hnumber⟩

end Reader

end Template
