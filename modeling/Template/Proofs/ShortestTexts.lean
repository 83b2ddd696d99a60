import Template.Proofs.Balance
import Template.Proofs.Seams

/-! Encoded text is the shortest source that is read as the text. -/
namespace Template

open Token

namespace Escape

/-- The characters with `new` for `old` wherever that occurs, from the left. -/
def replaceAll (old new : List Char) : List Char → List Char
  | [] => []
  | c :: cs =>
    if old.isPrefixOf (c :: cs) then new ++ replaceAll old new (cs.drop (old.length - 1))
    else c :: replaceAll old new cs
termination_by cs => cs.length
decreasing_by
  · rw [List.length_drop, List.length_cons]
    omega
  · exact Nat.lt_succ_self _

variable {c d : Char} {cs raw value rest : List Char}

theorem replaceAll_cons {old new : List Char} (h : ¬ old <+: c :: cs) :
    replaceAll old new (c :: cs) = c :: replaceAll old new cs := by
  rw [replaceAll, if_neg]
  rwa [List.isPrefixOf_iff_prefix]

theorem replaceAll_append (c : Char) (old new cs : List Char) :
    replaceAll (c :: old) new (c :: (old ++ cs)) = new ++ replaceAll (c :: old) new cs := by
  have hprefix : (c :: old).isPrefixOf (c :: (old ++ cs)) := by
    rw [List.isPrefixOf_iff_prefix]
    exact List.prefix_append (c :: old) cs
  rw [replaceAll, if_pos hprefix, List.length_cons, Nat.add_sub_cancel, List.drop_left]

theorem replaceAll_of_ne {old : Char} (hc : c ≠ old) (new cs : List Char) :
    replaceAll [old] new (c :: cs) = c :: replaceAll [old] new cs := by
  refine replaceAll_cons fun hprefix => ?_
  exact hc (List.cons_prefix_cons.1 hprefix).1.symm

def doubleSlashes (cs : List Char) : List Char := replaceAll ['\\'] ['\\', '\\'] cs

theorem doubleSlashes_slash (cs : List Char) :
    doubleSlashes ('\\' :: cs) = '\\' :: '\\' :: doubleSlashes cs :=
  replaceAll_append '\\' [] _ cs

theorem doubleSlashes_cons (hc : c ≠ '\\') :
    doubleSlashes (c :: cs) = c :: doubleSlashes cs :=
  replaceAll_of_ne hc _ cs

/-- The text with a backslash in front of each brace that would open a tag. -/
def escapeOpenings (cs : List Char) : List Char := replaceAll ['{', '$'] ['\\', '{', '$'] cs

theorem escapeOpenings_opening (cs : List Char) :
    escapeOpenings ('{' :: '$' :: cs) = '\\' :: '{' :: '$' :: escapeOpenings cs :=
  replaceAll_append '{' ['$'] _ cs

theorem escapeOpenings_cons (h : c = '{' → cs.head? ≠ some '$') :
    escapeOpenings (c :: cs) = c :: escapeOpenings cs := by
  refine replaceAll_cons ?_
  rintro ⟨more, hmore⟩
  cases hmore
  exact h rfl rfl

theorem head?_doubleSlashes (h : (doubleSlashes cs).head? = some '$') : cs.head? = some '$' := by
  cases cs with
  | nil => simp [doubleSlashes, replaceAll] at h
  | cons c cs =>
    by_cases hc : c = '\\'
    · subst hc
      rw [doubleSlashes_slash] at h
      cases h
    · rwa [doubleSlashes_cons hc] at h

/-- The encoder doubles the backslashes and then escapes the braces in front of marks. -/
theorem encodeText_eq (cs : List Char) : encodeText cs = escapeOpenings (doubleSlashes cs) := by
  fun_induction encodeText cs with
  | case1 => simp [doubleSlashes, escapeOpenings, replaceAll]
  | case2 cs ih =>
    rw [doubleSlashes_slash, escapeOpenings_cons (by simp), escapeOpenings_cons (by simp), ih]
  | case3 cs ih =>
    rw [doubleSlashes_cons (by decide), doubleSlashes_cons (by decide), escapeOpenings_opening, ih]
  | case4 c cs hslash hopen ih =>
    have hplain : c = '{' → (doubleSlashes cs).head? ≠ some '$' := by
      intro hbrace hhead
      obtain ⟨ds, rfl⟩ := List.head?_eq_some_iff.1 (head?_doubleSlashes hhead)
      exact hopen ds hbrace rfl
    rw [doubleSlashes_cons hslash, escapeOpenings_cons hplain, ih]

theorem eq_of_meaning_text (h : text.meaning c = some d) : c = d := by
  simp only [text] at h
  split at h <;> cases h <;> rfl

/-- There is no escape for a mark. -/
theorem exists_of_scan_mark (h : text.scan cs = ⟨raw, '$' :: value, rest, none⟩) :
    ∃ cs' raw', cs = '$' :: cs' ∧ raw = '$' :: raw' ∧
      text.scan cs' = ⟨raw', value, rest, none⟩ := by
  cases Rule.begins_of_scan h with
  | plain _ _ hscan => exact ⟨_, _, rfl, rfl, hscan⟩
  | escape hmeaning =>
    obtain rfl := eq_of_meaning_text hmeaning
    cases hmeaning

/-- What is read as a text is the encoded text or longer. -/
theorem raw_of_scan_text (h : text.scan cs = ⟨raw, value, rest, none⟩) :
    raw = encodeText value ∨ (encodeText value).length < raw.length := by
  fun_induction encodeText value generalizing cs raw with
  | case1 => exact .inl ((Rule.raw_eq_nil_iff h).2 rfl)
  | case2 value ih =>
    cases Rule.begins_of_scan h with
    | plain hc => exact (hc rfl).elim
    | escape hmeaning hscan =>
      obtain rfl := eq_of_meaning_text hmeaning
      simpa using ih hscan
  | case3 value ih =>
    cases Rule.begins_of_scan h with
    | plain _ hends hscan =>
      obtain ⟨_, _, rfl, -, -⟩ := exists_of_scan_mark hscan
      cases hends
    | escape hmeaning hscan =>
      obtain rfl := eq_of_meaning_text hmeaning
      obtain ⟨_, _, rfl, rfl, hrest⟩ := exists_of_scan_mark hscan
      simpa using ih hrest
  | case4 c value hslash hopen ih =>
    cases Rule.begins_of_scan h with
    | plain _ _ hscan => simpa using ih hscan
    | escape hmeaning hscan =>
      right
      rcases ih hscan with rfl | hlt
      · simp
      · simp only [List.length_cons]
        omega

end Escape

namespace Reader

variable {source t more : String}

theorem next_of_scan_source {raw rest : List Char} (ht : t ≠ "")
    (h : Escape.text.scan source.toList = ⟨raw, t.toList, rest, none⟩) :
    ∃ token s, (ofSource source).next = (.ok token, s) ∧ token.kind = .text t ∧
      token.span.slice source.toList = raw ∧ s.rest = rest ∧ s.mode = .text ∧
      s.pending = none ∧ s.ended = false := by
  have hraw : raw ≠ [] := by
    rw [ne_eq, Escape.Rule.raw_eq_nil_iff h, String.toList_eq_nil_iff]
    exact ht
  have hslice : ((ofSource source).spanOf raw).slice source.toList = raw := by
    have happend := Escape.text.raw_append_scan source.toList
    rw [h] at happend
    have hcovers := ((hasConsumed_ofSource source).covers raw).slice rest
    rwa [List.nil_append, happend] at hcovers
  have hnext := next_of_scan (r := ofSource source) rfl rfl rfl hraw h
  rw [String.ofList_toList] at hnext
  exact ⟨_, _, hnext, rfl, hslice, rfl, rfl, rfl, rfl⟩

theorem scan_of_next {token : Token} {s : Reader} (h : (ofSource source).next = (.ok token, s))
    (hkind : token.kind = .text t) :
    ∃ raw, Escape.text.scan source.toList = ⟨raw, t.toList, s.rest, none⟩ := by
  obtain ⟨-, u, hstep, rfl⟩ := step_of_next h
  obtain ⟨-, -, -, hfault, rfl, rfl⟩ :=
    step_of_text (settled_ofSource source) hstep (by rw [hkind]; rfl)
  obtain rfl := Kind.text.inj hkind
  refine ⟨(Escape.text.scan source.toList).raw, ?_⟩
  rw [String.toList_ofList, ← hfault]
  rfl

end Reader

variable {source : String} {t : String}

/-- The tokens of a source are a text and the end of input if all of it is read as that text. -/
theorem tokenKinds_eq_text_iff (ht : t ≠ "") : tokenKinds source = .ok [.text t, .eof] ↔
    Escape.text.scan source.toList = ⟨source.toList, t.toList, [], none⟩ := by
  constructor
  · intro h
    have htokens : tokenKinds source = .ok ([.text t] ++ [.eof]) := h
    obtain ⟨ts, eof, s, -, hts, heof, hreads⟩ := exists_run_of_tokenKinds htokens
    obtain ⟨token, _, rfl, htoken, hnil⟩ := List.map_eq_cons_iff.1 hts
    rw [List.map_eq_nil_iff] at hnil
    subst hnil
    obtain ⟨r, hread, hnext'⟩ := hreads.of_concat
    obtain ⟨-, hrest, -⟩ := hread.append_end hnext' heof ""
    cases hread with
    | cons hnext hnil =>
      cases hnil
      obtain ⟨raw, hscan⟩ := Reader.scan_of_next hnext htoken
      have happend : raw ++ r.rest = source.toList := by
        simpa only [hscan] using Escape.text.raw_append_scan source.toList
      rw [hrest, List.append_nil] at happend
      rw [hscan, hrest, happend]
  · intro h
    obtain ⟨token, s, hnext, hkind, -, hrest, hmode, hpending, hended⟩ :=
      Reader.next_of_scan_source ht h
    have heof := Reader.next_of_step hended (.eof hpending hmode hrest)
    rw [tokenKinds_eq_ok_iff, Reader.run_of_token hnext, if_neg (by simp [hkind]),
      Reader.run_of_token heof, if_pos rfl]
    simp [hkind]

/-- Every other source that is read as the text is longer than the encoded text. -/
theorem eq_or_length_lt_of_tokenKinds (ht : t ≠ "") (h : tokenKinds source = .ok [.text t, .eof]) :
    source = String.ofList (Escape.encodeText t.toList) ∨
      (Escape.encodeText t.toList).length < source.length := by
  rcases Escape.raw_of_scan_text ((tokenKinds_eq_text_iff ht).1 h) with heq | hlt
  · exact .inl (by rw [← heq, String.ofList_toList])
  · exact .inr (by rwa [String.length_toList] at hlt)

/-- The encoder doubles the backslashes of a text and then escapes the braces in front of marks. What
it makes of a text that is not empty has that text as its only token. In front of an opening tag all
of it is read as the text too. And it is the only shortest source with this token. -/
theorem encodeText_shortest (t : String) (ht : t ≠ "") :
    Escape.encodeText t.toList = Escape.escapeOpenings (Escape.doubleSlashes t.toList) ∧
    tokenKinds (String.ofList (Escape.encodeText t.toList)) = .ok [.text t, .eof] ∧
    (∀ source more : String,
      source = String.ofList (Escape.encodeText t.toList) ++ "\x7b$" ++ more →
      ∃ token, (Reader.ofSource source).next.1 = .ok token ∧ token.kind = .text t ∧
        token.span.slice source.toList = Escape.encodeText t.toList) ∧
    ∀ source, tokenKinds source = .ok [.text t, .eof] →
      source = String.ofList (Escape.encodeText t.toList) ∨
        (Escape.encodeText t.toList).length < source.length := by
  refine ⟨Escape.encodeText_eq t.toList, ?_, ?_, fun source => eq_or_length_lt_of_tokenKinds ht⟩
  · rw [tokenKinds_eq_text_iff ht, String.toList_ofList]
    simpa using Escape.scan_encodeText t.toList (.inl rfl)
  · rintro source more rfl
    have hscan : Escape.text.scan
        (String.ofList (Escape.encodeText t.toList) ++ "\x7b$" ++ more).toList =
          ⟨Escape.encodeText t.toList, t.toList, '{' :: '$' :: more.toList, none⟩ := by
      have htag : Escape.AtTag ('{' :: '$' :: more.toList) := .inr rfl
      simpa using Escape.scan_encodeText t.toList htag
    obtain ⟨token, s, hnext, hkind, hslice, -⟩ := Reader.next_of_scan_source ht hscan
    exact ⟨token, congrArg Prod.fst hnext, hkind, hslice⟩

/-- A backslash in front of what would open a tag. -/
theorem encodeText_shortest_slash :
    tokenKinds "\\\\\\\x7b$" = .ok [.text "\\\x7b$", .eof] ∧
    ∀ source, tokenKinds source = .ok [.text "\\\x7b$", .eof] →
      source = "\\\\\\\x7b$" ∨ 5 < source.length := by
  obtain ⟨-, htokens, -, hshortest⟩ := encodeText_shortest "\\\x7b$" (by decide)
  have hencoded : Escape.encodeText "\\\x7b$".toList = "\\\\\\\x7b$".toList := by
    decide
  rw [hencoded, String.ofList_toList] at htokens hshortest
  exact ⟨htokens, hshortest⟩

end Template
