import Template.Proofs.Meaning
import Template.Proofs.ReaderStates
import Template.Proofs.ShortestTexts

/-! An encoded string is the shortest literal that is read as the string. -/
namespace Template

open String Token

namespace Escape

/-- The same characters, or more of them that also take more bytes. -/
def EqOrLonger (cs ds : List Char) : Prop :=
  ds = cs ∨ (cs.length < ds.length ∧ utf8Len cs < utf8Len ds)

variable {c d : Char} {cs ds raw value rest : List Char}

/-- The text with a backslash in front of each quote. -/
def escapeQuotes (cs : List Char) : List Char := replaceAll ['"'] ['\\', '"'] cs

theorem escapeQuotes_quote (cs : List Char) :
    escapeQuotes ('"' :: cs) = '\\' :: '"' :: escapeQuotes cs :=
  replaceAll_append '"' [] _ cs

theorem escapeQuotes_cons (hc : c ≠ '"') : escapeQuotes (c :: cs) = c :: escapeQuotes cs :=
  replaceAll_of_ne hc _ cs

/-- Between its quotes, an encoded string has its backslashes doubled and then its quotes escaped. -/
theorem stringBody_eq (cs : List Char) : stringBody cs = escapeQuotes (doubleSlashes cs) := by
  induction cs with
  | nil => simp [stringBody, doubleSlashes, escapeQuotes, replaceAll]
  | cons c cs ih =>
    by_cases hslash : c = '\\'
    · subst hslash
      rw [stringBody_escaped (.inr rfl), doubleSlashes_slash, escapeQuotes_cons (by decide),
        escapeQuotes_cons (by decide), ih]
    · rw [doubleSlashes_cons hslash]
      by_cases hquote : c = '"'
      · subst hquote
        rw [stringBody_escaped (.inl rfl), escapeQuotes_quote, ih]
      · have hplain : ¬ (c = '"' ∨ c = '\\') := by
          rintro (h | h)
          · exact hquote h
          · exact hslash h
        rw [stringBody_plain hplain, escapeQuotes_cons hquote, ih]

namespace EqOrLonger

theorem within (h : EqOrLonger cs ds) (front back : List Char) :
    EqOrLonger (front ++ cs ++ back) (front ++ ds ++ back) := by
  rcases h with rfl | ⟨hlength, hbytes⟩
  · exact .inl rfl
  · right
    simp only [List.length_append, utf8Len_append]
    constructor <;> omega

/-- An escape in place of a character that takes no more bytes than the one behind the backslash. -/
theorem escape (h : EqOrLonger cs ds) (hsize : c.utf8Size ≤ d.utf8Size) :
    EqOrLonger (c :: cs) ('\\' :: d :: ds) := by
  have hle : cs.length ≤ ds.length ∧ utf8Len cs ≤ utf8Len ds := by
    rcases h with rfl | ⟨hlength, hbytes⟩
    · exact ⟨Nat.le_refl _, Nat.le_refl _⟩
    · exact ⟨Nat.le_of_lt hlength, Nat.le_of_lt hbytes⟩
  have hpos : 0 < ('\\' : Char).utf8Size := Char.utf8Size_pos _
  right
  simp only [List.length_cons, utf8Len_cons]
  constructor <;> omega

end EqOrLonger

/-- Behind a backslash stands the character that is meant, or a letter for a control character. -/
theorem meaning_string (h : string.meaning d = some c) :
    (d = c ∧ (c = '"' ∨ c = '\\')) ∨
      (¬ (c = '"' ∨ c = '\\') ∧ c.utf8Size ≤ d.utf8Size) := by
  simp only [string] at h
  split at h
  · cases h
    exact .inl ⟨rfl, .inl rfl⟩
  · cases h
    exact .inl ⟨rfl, .inr rfl⟩
  · cases h
    exact .inr (by decide)
  · cases h
    exact .inr (by decide)
  · cases h
    exact .inr (by decide)
  · cases h

/-- What is read as a string is the encoded string or longer. -/
theorem raw_of_scan_string (h : string.scan cs = ⟨raw, value, rest, none⟩) :
    EqOrLonger (stringBody value) raw := by
  induction value generalizing cs raw with
  | nil => exact .inl ((Rule.raw_eq_nil_iff h).2 rfl)
  | cons c value ih =>
    cases Rule.begins_of_scan h with
    | @plain cs raw hslash hends hscan =>
      have hplain : ¬ (c = '"' ∨ c = '\\') := by
        rintro (rfl | rfl)
        · cases hends
        · exact hslash rfl
      rw [stringBody_plain hplain]
      simpa using (ih hscan).within [c] []
    | escape hmeaning hscan =>
      rcases meaning_string hmeaning with ⟨rfl, hescaped⟩ | ⟨hplain, hsize⟩
      · rw [stringBody_escaped hescaped]
        simpa using (ih hscan).within ['\\', _] []
      · rw [stringBody_plain hplain]
        exact (ih hscan).escape hsize

end Escape

namespace Lexeme

variable {first : Bool} {body rest : List Char} {v : String}

theorem raw_of_ofTag_string
    (h : ofTag first ('"' :: body ++ rest) = ⟨'"' :: body, rest, .ok (.string v)⟩) :
    Escape.EqOrLonger (Escape.encodeString v.toList) ('"' :: body) := by
  rw [List.cons_append, ofTag_quote] at h
  obtain ⟨hfault, hrest, hraw, hvalue⟩ := ofString_eq_ok h
  obtain rfl := Kind.string.inj hvalue
  have hscan : Escape.string.scan (body ++ rest) =
      ⟨(Escape.string.scan (body ++ rest)).raw, (Escape.string.scan (body ++ rest)).value,
        '"' :: rest, none⟩ := by
    rw [← hfault, ← hrest]
  have hbody := Escape.raw_of_scan_string hscan
  rw [String.toList_ofList, Escape.encodeString_eq, hraw]
  exact hbody.within ['"'] ['"']

end Lexeme

namespace Reader

variable {r : Reader} {source : String} {v : String} {raw more : List Char}

/-- Where a string is given, it has been read in a tag from a quote on. -/
theorem InUseOn.raw_of_nextIs_string (hr : r.InUseOn source)
    (h : r.NextIs source (.string v) raw more) :
    Escape.EqOrLonger (Escape.encodeString v.toList) raw := by
  obtain ⟨t, s, hnext, hkind, rfl, -⟩ := h
  obtain ⟨-, u, hstep, rfl⟩ := step_of_next hnext
  cases hstep with
  | pending hpending =>
    rcases hr.orderly.pending t hpending with ⟨hmark, -⟩ | ⟨hclose, -⟩
    · cases hkind.symm.trans hmark
    · cases hkind.symm.trans hclose
  | eof => cases hkind
  | opening => cases hkind
  | text hpending hmode hne hends hlex =>
    obtain rfl : _ = Kind.string v := hkind
    cases (Lexeme.ofText_eq_ok hne hends hlex).1
  | blanks => cases hkind
  | closing => cases hkind
  | @inTag raw rest kind hpending hmode hne hclose hlex =>
    obtain rfl : kind = .string v := hkind
    have happend := Lexeme.raw_append_ofTag r.freshTag r.afterBlanks.rest
    rw [hlex] at happend
    rw [hr.slice_afterBlanks hpending happend]
    obtain ⟨body, rfl, -⟩ := Lexeme.means_ofTag r.endsClass_afterBlanks hclose hlex
    rw [← happend] at hlex
    exact Lexeme.raw_of_ofTag_string hlex

/-- The encoder doubles the backslashes of a string, then escapes its quotes, and puts it between
quotes. A reader in a tag in front of that, whatever follows it, reads all of it as the string and no
more. And every other literal that is read as the string has more characters and takes more bytes. -/
theorem encodeString_shortest (hr : r.InUseOn source) (v : String) :
    Escape.encodeString v.toList =
      '"' :: (Escape.escapeQuotes (Escape.doubleSlashes v.toList) ++ ['"']) ∧
    (∀ more, r.mode = .tag → r.rest = Escape.encodeString v.toList ++ more →
      ∃ s, r.Reads r.pending.toList s ∧
        s.NextIs source (.string v) (Escape.encodeString v.toList) more) ∧
    ∀ raw more, r.NextIs source (.string v) raw more →
      raw = Escape.encodeString v.toList ∨ (Escape.encodeString v.toList).length < raw.length ∧
        utf8Len (Escape.encodeString v.toList) < utf8Len raw := by
  refine ⟨?_, ?_, fun raw more => hr.raw_of_nextIs_string⟩
  · rw [Escape.encodeString_eq, Escape.stringBody_eq]
  · intro more hmode hrest
    obtain ⟨s, hreads, hs, hpending, hmode', hrest'⟩ := hr.reads_pending
    have hlex := Lexeme.ofTag_encodeString s.freshTag v.toList more
    rw [String.ofList_toList] at hlex
    exact ⟨s, hreads, hs.nextIs (hmode'.trans hmode) hpending (hrest'.trans hrest) hlex (by simp)⟩

/-- Of a line break and a quote: the line break stays, as its escape would be longer. -/
theorem encodeString_shortest_line_break :
    let source := "\x7b$=\"\n\\\"\"!$\x7d"
    let r := ((ofSource source).session [.next, .next, .next]).2
    r.InUseOn source ∧ r.mode = .tag ∧
    r.rest = Escape.encodeString ['\n', '"'] ++ ['!', '$', '\x7d'] ∧
    (∃ s, r.Reads r.pending.toList s ∧ s.NextIs source (.string "\n\"")
      ['"', '\n', '\\', '"', '"'] ['!', '$', '\x7d']) ∧
    ∀ raw more, r.NextIs source (.string "\n\"") raw more → 5 ≤ raw.length := by
  intro source r
  have hr : r.InUseOn source := ⟨_, rfl⟩
  have hmode : r.mode = .tag := by decide
  have hrest : r.rest = Escape.encodeString ['\n', '"'] ++ ['!', '$', '\x7d'] := by decide
  obtain ⟨-, hread, hshortest⟩ := encodeString_shortest hr "\n\""
  refine ⟨hr, hmode, hrest, hread _ hmode hrest, ?_⟩
  intro raw more h
  have hlength : (Escape.encodeString "\n\"".toList).length = 5 := by decide
  rcases hshortest raw more h with rfl | ⟨hlonger, -⟩
  · exact hlength.ge
  · omega

end Reader

end Template
