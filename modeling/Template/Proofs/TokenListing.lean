import Template.Proofs.Commands
import Template.Proofs.CompactDoubles
import Template.Proofs.Quoting

/-! Token listings, read back: what they show of the tokens determines the tokens. -/
namespace Template

open Token

theorem quotedString_injective {s t : String} (h : quotedString s = quotedString t) : s = t := by
  have happend := congrArg (· ++ []) (String.ofList_injective h)
  exact String.toList_inj.1 (Quoted.enclose_append_inj (.inl rfl) happend).1

theorem quotedChar_injective {c d : Char} (h : quotedChar c = quotedChar d) : c = d := by
  have happend := congrArg (· ++ []) (String.ofList_injective h)
  exact (List.cons.inj (Quoted.enclose_append_inj (.inr rfl) happend).1).1

theorem newline_notMem_quotedString (s : String) : '\n' ∉ (quotedString s).toList := by
  rw [quotedString, String.toList_ofList]
  exact Quoted.newline_notMem_enclose (.inl rfl) s.toList

theorem newline_notMem_quotedChar (c : Char) : '\n' ∉ (quotedChar c).toList := by
  rw [quotedChar, String.toList_ofList]
  exact Quoted.newline_notMem_enclose (.inr rfl) [c]

namespace Numeral

variable {i j : Int} {m n : Nat} {c : Char} {x y : List Char}

theorem toString_int_injective (h : toString i = toString j) : i = j := by
  apply raw_ofInt_injective
  rw [raw_ofInt, raw_ofInt, h]

theorem toString_append_inj (hdigit : c.isDigit = false) (hpoint : c ≠ '.')
    (h : (toString m).toList ++ c :: x = (toString n).toList ++ c :: y) : m = n ∧ x = y := by
  have hraw : (ofInt m).raw ++ c :: x = (ofInt n).raw ++ c :: y := by
    rw [raw_ofInt, raw_ofInt]
    exact h
  have hends (z : List Char) : EndsClass Char.isDigit (c :: z) := .cons hdigit
  obtain ⟨hnumeral, htail⟩ := raw_append_inj (wellFormed_ofInt m) (wellFormed_ofInt n) (hends x)
    (hends y) (by simpa using hpoint) (by simpa using hpoint) hraw
  exact ⟨Int.ofNat_inj.1 (ofInt_injective hnumeral), (List.cons.inj htail).2⟩

theorem newline_notMem_toString (i : Int) : '\n' ∉ (toString i).toList := by
  rw [← raw_ofInt]
  exact List.count_eq_zero.1 (count_raw (wellFormed_ofInt i))

end Numeral

theorem Keyword.listing_injective {k l : Keyword} (h : k.listing = l.listing) : k = l := by
  cases k <;> cases l <;> simp_all [listing]

namespace Token.Kind

def title : Kind → String
  | .text _ => "Text"
  | .tagOpen => "TagOpen"
  | .tagMark => "TagMark"
  | .tagClose => "TagClose"
  | .blanks _ => "Whitespace"
  | .keyword _ => "Keyword"
  | .identifier _ => "Identifier"
  | .string _ => "String"
  | .int _ => "Int"
  | .double _ => "Double"
  | .function _ => "Function"
  | .operator _ => "Operator"
  | .other _ => "Symbol"
  | .eof => "Eof"

/-- The value as it is listed, if the kind has one. -/
def listedValue : Kind → Option String
  | .text value | .blanks value | .identifier value | .string value | .function value =>
    some (quotedString value)
  | .keyword k => some k.listing
  | .int value => some (toString value.toInt)
  | .double value => some (String.ofList value.compact)
  | .operator c | .other c => some (quotedChar c)
  | .tagOpen | .tagMark | .tagClose | .eof => none

def parenthesized : Option String → List Char
  | some value => '(' :: value.toList ++ [')']
  | none => []

variable {k l : Kind}

theorem toList_listing (k : Kind) :
    k.listing.toList = k.title.toList ++ parenthesized k.listedValue := by
  cases k <;> simp [listing, title, listedValue, parenthesized]

theorem parenthesized_injective {v w : Option String} (h : parenthesized v = parenthesized w) :
    v = w := by
  cases v <;> cases w <;> simp_all [parenthesized, String.toList_inj]

theorem endsClass_parenthesized (v : Option String) : EndsClass (· != '(') (parenthesized v) := by
  cases v with
  | none => exact .nil _
  | some value => exact .cons rfl

theorem title_plain (k : Kind) : ∀ c ∈ k.title.toList, c != '(' ∧ c ≠ '\n' := by
  cases k <;> simp [title]

/-- The name and the listed value determine the kind, as long as a double is a number. -/
theorem eq_of_title_of_value (hk : k.Sound) (hl : l.Sound) (htitle : k.title = l.title)
    (hvalue : k.listedValue = l.listedValue) : k = l := by
  cases k <;> cases l <;>
    simp_all only [title, listedValue, Option.some.injEq, String.reduceEq]
  case text.text | blanks.blanks | identifier.identifier | string.string | function.function =>
    rw [quotedString_injective hvalue]
  case keyword.keyword => rw [Keyword.listing_injective hvalue]
  case int.int => rw [Int32.toInt_inj.1 (Numeral.toString_int_injective hvalue)]
  case double.double => rw [Double.compact_injective hk hl (String.ofList_injective hvalue)]
  case operator.operator | other.other => rw [quotedChar_injective hvalue]

/-- The name ends where the parenthesis opens. -/
theorem listing_injective (hk : k.Sound) (hl : l.Sound) (h : k.listing = l.listing) : k = l := by
  have happend := congrArg String.toList h
  rw [toList_listing, toList_listing] at happend
  have hname (k : Kind) : ∀ c ∈ k.title.toList, c != '(' := fun c hc => (k.title_plain c hc).1
  have htitle := congrArg (List.takeWhile (· != '(')) happend
  rw [takeWhile_append_of_ends (hname k) (endsClass_parenthesized _),
    takeWhile_append_of_ends (hname l) (endsClass_parenthesized _)] at htitle
  rw [htitle] at happend
  have hvalue := parenthesized_injective (List.append_cancel_left happend)
  exact eq_of_title_of_value hk hl (String.toList_inj.1 htitle) hvalue

theorem newline_notMem_listedValue (hk : k.Sound) :
    ∀ value ∈ k.listedValue, '\n' ∉ value.toList := by
  rintro value hvalue
  cases k with
  | tagOpen | tagMark | tagClose | eof => cases hvalue
  | text | blanks | identifier | string | function =>
    cases hvalue
    exact newline_notMem_quotedString _
  | keyword k =>
    cases hvalue
    cases k <;> simp [Keyword.listing]
  | int =>
    cases hvalue
    exact Numeral.newline_notMem_toString _
  | double =>
    cases hvalue
    rw [String.toList_ofList]
    exact Double.newline_notMem_compact hk
  | operator | other =>
    cases hvalue
    exact newline_notMem_quotedChar _

theorem newline_notMem_listing (hk : k.Sound) : '\n' ∉ k.listing.toList := by
  rw [toList_listing, List.mem_append]
  rintro (htitle | hvalue)
  · exact (k.title_plain _ htitle).2 rfl
  · cases hlisted : k.listedValue with
    | none => simp [hlisted, parenthesized] at hvalue
    | some value =>
      have hline := newline_notMem_listedValue hk value hlisted
      simp [hlisted, parenthesized, hline] at hvalue

end Token.Kind

namespace Token

/-- What a listing shows of a token: the line, the column and the kind with its value. -/
def shown (t : Token) : Nat × Nat × Kind := (t.span.start.line, t.span.start.column, t.kind)

variable {t u : Token} {ts us : List Token}

theorem toList_listing (t : Token) : t.listing.toList =
    (toString t.span.start.line).toList ++ ':' ::
      ((toString t.span.start.column).toList ++ '\t' :: t.kind.listing.toList) := by
  simp [listing]

theorem listing_injective (ht : t.kind.Sound) (hu : u.kind.Sound) (h : t.listing = u.listing) :
    t.shown = u.shown := by
  have happend := congrArg String.toList h
  rw [toList_listing, toList_listing] at happend
  obtain ⟨hline, happend⟩ := Numeral.toString_append_inj rfl (by decide) happend
  obtain ⟨hcolumn, hkind⟩ := Numeral.toString_append_inj rfl (by decide) happend
  have hkind := Kind.listing_injective ht hu (String.toList_inj.1 hkind)
  rw [shown, shown, hline, hcolumn, hkind]

theorem newline_notMem_listing (ht : t.kind.Sound) : '\n' ∉ t.listing.toList := by
  have hnat (n : Nat) : '\n' ∉ (toString n).toList := Numeral.newline_notMem_toString n
  have hline := hnat t.span.start.line
  have hcolumn := hnat t.span.start.column
  have hkind := Kind.newline_notMem_listing ht
  rw [toList_listing]
  simp only [List.mem_append, List.mem_cons, hline, hcolumn, hkind, or_false, false_or]
  decide

theorem shown_of_listings (ht : ∀ k ∈ ts.map Token.kind, k.Sound)
    (hu : ∀ k ∈ us.map Token.kind, k.Sound)
    (h : ts.map (·.listing.toList) = us.map (·.listing.toList)) :
    ts.map Token.shown = us.map Token.shown := by
  induction ts generalizing us with
  | nil => rw [List.map_eq_nil_iff.1 h.symm]
  | cons t ts ih =>
    cases us with
    | nil => cases h
    | cons u us =>
      obtain ⟨hlisting, hlistings⟩ := List.cons.inj h
      obtain ⟨ht, hts⟩ := List.forall_mem_cons.1 ht
      obtain ⟨hu, hus⟩ := List.forall_mem_cons.1 hu
      rw [List.map_cons, List.map_cons, ih hts hus hlistings,
        listing_injective ht hu (String.toList_inj.1 hlisting)]

end Token

/-- The reader gives these tokens, the last of them the end of input, or fails behind them. -/
inductive Reader.RunsTo : (r : Reader) → (ts : List Token) → (failure : Option LexicalError) → Prop
  | failed {r s : Reader} {e : LexicalError} (hnext : r.next = (.error e, s)) :
      r.RunsTo [] (some e)
  | ended {r s : Reader} {t : Token} (hnext : r.next = (.ok t, s)) (ht : t.kind = .eof) :
      r.RunsTo [t] none
  | token {r s : Reader} {t : Token} {ts : List Token} {failure : Option LexicalError}
      (hnext : r.next = (.ok t, s)) (ht : t.kind ≠ .eof) (hrest : s.RunsTo ts failure) :
      r.RunsTo (t :: ts) failure

namespace Reader

variable {r : Reader} {ts : List Token} {failure : Option LexicalError}

theorem runsTo_run (r : Reader) : r.RunsTo r.run.tokens r.run.failure := by
  induction hn : r.remaining using Nat.strongRecOn generalizing r with
  | ind n ih =>
    subst hn
    rcases hnext : r.next with ⟨e | t, s⟩
    · rw [run_of_error hnext]
      exact .failed hnext
    · rw [run_of_token hnext]
      by_cases ht : t.kind = .eof
      · rw [if_pos ht]
        exact .ended hnext ht
      · rw [if_neg ht]
        exact .token hnext ht (ih _ (remaining_lt_of_next hnext) s rfl)

theorem RunsTo.run_eq (h : r.RunsTo ts failure) : r.run = ⟨ts, failure⟩ := by
  induction h with
  | failed hnext => exact run_of_error hnext
  | ended hnext ht => rw [run_of_token hnext, if_pos ht]
  | token hnext ht _ ih => rw [run_of_token hnext, if_neg ht, ih]

theorem RunsTo.failure_eq_none_iff (h : r.RunsTo ts failure) :
    failure = none ↔ ∃ t ∈ ts, t.kind = .eof := by
  induction h with
  | failed => simp
  | ended _ ht => simpa using ht
  | token _ ht _ ih => simpa [ht] using ih

theorem RunsTo.sound {source : String} {keep : Bool}
    (h : ((ofSource source).keepBlanks keep).RunsTo ts failure) :
    ∀ k ∈ ts.map Token.kind, k.Sound := by
  have hsettled : ((ofSource source).keepBlanks keep).Settled := settled_ofSource source
  obtain ⟨hsound, -⟩ := sound_run hsettled
  rwa [h.run_eq] at hsound

end Reader

namespace Command

variable {disk : Disk} {path source : String} {keep : Bool} {ts : List Token}
  {failure : Option LexicalError}

/-- Lines that each end with a line end, as lines with an empty one behind them. -/
theorem intercalate_append_nil (x : Char) (ls : List (List Char)) :
    [x].intercalate (ls ++ [[]]) = ls.flatMap (· ++ [x]) := by
  induction ls with
  | nil => rfl
  | cons l ls ih =>
    rw [List.cons_append, List.intercalate_cons_of_ne_nil (by simp), ih, List.flatMap_cons]

theorem listTokens_of_runsTo (h : ((Reader.ofSource source).keepBlanks keep).RunsTo ts failure) :
    (listTokens keep source).stdout.toList =
        ['\n'].intercalate (ts.map (·.listing.toList) ++ [[]]) ∧
      ((listTokens keep source).status = 0 ↔ failure = none) := by
  have hlines : (String.join (ts.map fun t => t.listing ++ "\n")).toList =
      ['\n'].intercalate (ts.map (·.listing.toList) ++ [[]]) := by
    rw [intercalate_append_nil]
    simp [String.toList_join, List.flatMap_map]
  cases failure <;> simp [listTokens, h.run_eq, hlines]

/-- A listing splits into the lines of the tokens and nothing behind the last line end. -/
theorem splitOn_listTokens (h : ((Reader.ofSource source).keepBlanks keep).RunsTo ts failure) :
    (listTokens keep source).stdout.toList.splitOn '\n' = ts.map (·.listing.toList) ++ [[]] := by
  rw [(listTokens_of_runsTo h).1]
  refine List.splitOn_intercalate '\n' ?_ (by simp)
  intro l hl
  rcases List.mem_append.1 hl with hl | hl
  · obtain ⟨t, ht, rfl⟩ := List.mem_map.1 hl
    exact Token.newline_notMem_listing (h.sound _ (List.mem_map_of_mem ht))
  · rw [List.mem_singleton.1 hl]
    exact List.not_mem_nil

/-- A token listing is one line for each token that the reader gives up to the end of input or its
first failure, and succeeds exactly if that is the end of input. Where two listings are the same,
with either treatment of blanks, the tokens have been the same, values included, at the same lines
and columns. -/
theorem tokens_listed (keep : Bool) (h : disk.HoldsText path source) :
    let report := ((Command.tokens keep).perform path disk).1
    ∃ ts failure, ((Reader.ofSource source).keepBlanks keep).RunsTo ts failure ∧
      report.stdout.toList.splitOn '\n' = ts.map (·.listing.toList) ++ [[]] ∧
      (report.status = 0 ↔ ∃ t ∈ ts, t.kind = .eof) ∧
      ∀ keep' path' source' disk' ts' failure', Disk.HoldsText disk' path' source' →
        ((Reader.ofSource source').keepBlanks keep').RunsTo ts' failure' →
        ((Command.tokens keep').perform path' disk').1.stdout = report.stdout →
        ts'.map Token.shown = ts.map Token.shown := by
  intro report
  have hrun := ((Reader.ofSource source).keepBlanks keep).runsTo_run
  simp only [report, perform_tokens keep h]
  refine ⟨_, _, hrun, splitOn_listTokens hrun,
    (listTokens_of_runsTo hrun).2.trans hrun.failure_eq_none_iff, ?_⟩
  intro keep' path' source' disk' ts' failure' h' hrun' hstdout
  rw [perform_tokens keep' h'] at hstdout
  have hsplit := splitOn_listTokens hrun'
  rw [hstdout, splitOn_listTokens hrun] at hsplit
  exact Token.shown_of_listings hrun'.sound hrun.sound (List.append_cancel_right hsplit).symm

/-- A line end in a text, a double, and a tag that stays open. -/
theorem tokens_listed_open_tag :
    let source := "\n\x7b$0.5"
    let disk := Disk.ofFiles [("t", source.toUTF8)]
    let report := ((Command.tokens true).perform "t" disk).1
    disk.HoldsText "t" source ∧ report.status ≠ 0 ∧
      report.stdout.toList.splitOn '\n' = ["1:1\tText(\"\\n\")".toList, "2:1\tTagOpen".toList,
        "2:2\tTagMark".toList, "2:3\tDouble(0.5)".toList, []] := by
  intro source disk report
  have hholds : disk.HoldsText "t" source := ⟨source.toUTF8, rfl, by decide +kernel⟩
  obtain ⟨ts, failure, hrun, hlines, hstatus, -⟩ := tokens_listed true hholds
  obtain rfl : ((Reader.ofSource source).keepBlanks true).run.tokens = ts :=
    congrArg Run.tokens hrun.run_eq
  refine ⟨hholds, fun h => ?_, hlines.trans (by decide +kernel)⟩
  exact absurd (hstatus.1 h) (by decide +kernel)

end Command

end Template
