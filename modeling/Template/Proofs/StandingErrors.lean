import Template.Proofs.Balance
import Template.Proofs.Lockstep
import Template.Proofs.Seams

/-! Errors in closed tags and whole escapes stand whatever follows. -/
namespace Template

open Token

/-- The error is about what has been read to its end: a closed tag or a whole escape. -/
def ParseError.Cause.Stands : Cause → Prop
  | .emptyEcho | .loopSize _ | .badOperand _ | .strayEnd | .lexical (.badEscape _) => True
  | .lexical _ | .unexpected _ _ | .badCounter _ | .badName _ | .unknownTag _
  | .openLoops _ => False

variable {source : String} {rule : Escape.Rule} {fault : Escape.Fault} {first : Bool} {c : Char}
  {cs raw rest : List Char} {r s : Reader} {t : Token} {b : Builder} {e : ParseError}
  {error : LexicalError} {area area' : Area}

theorem Escape.Rule.StopsAt.rest_ne_nil (h : rule.StopsAt fault rest)
    (hcause : .badEscape c = Lexeme.ofFault fault) : rest ≠ [] := by
  cases h with
  | unfinished => cases hcause
  | unknown => exact List.cons_ne_nil _ _

namespace Lexeme

theorem rest_ne_nil_of_ofText (h : ofText cs = ⟨raw, rest, .error (.badEscape c)⟩) : rest ≠ [] := by
  obtain ⟨fault, good, -, hcause, -, -, hstops⟩ := ofText_eq_error h
  exact hstops.rest_ne_nil hcause

/-- Only a string has such an error in a tag, and it has been read up to the escape. -/
theorem exists_body_of_ofTag (h : ofTag first cs = ⟨raw, rest, .error (.badEscape c)⟩) :
    ∃ body, cs = '"' :: body ∧ ofString body = ⟨raw, rest, .error (.badEscape c)⟩ ∧
      (Escape.string.scan body).rest ≠ [] := by
  rcases ofTag_eq_error h with ⟨-, -, hcause⟩ | ⟨body, rfl, hstring⟩ | ⟨-, hnumeral⟩
  · cases hcause
  · refine ⟨body, rfl, hstring, ?_⟩
    rcases ofString_eq_error hstring with ⟨fault, good, hfault, hcause, -⟩ | ⟨hcause, -⟩
    · exact (Escape.string.stopsAt_of_scan hfault).2.rest_ne_nil hcause
    · cases hcause
  · obtain ⟨-, -, hcause, -⟩ := ofNumeral_eq_error hnumeral
    cases hcause

theorem ofTag_append_error (h : ofTag first cs = ⟨raw, rest, .error (.badEscape c)⟩)
    (more : List Char) :
    ofTag first (cs ++ more) = ⟨raw, rest ++ more, .error (.badEscape c)⟩ := by
  obtain ⟨body, rfl, hstring, hrest⟩ := exists_body_of_ofTag h
  rw [List.cons_append, ofTag_quote, ofString_append hrest more, hstring]

theorem two_le_length_of_ofTag (h : ofTag first cs = ⟨raw, rest, .error (.badEscape c)⟩) :
    2 ≤ cs.length := by
  obtain ⟨body, rfl, -, hrest⟩ := exists_body_of_ofTag h
  cases body with
  | nil => exact (hrest rfl).elim
  | cons d body => simp

end Lexeme

namespace Reader

theorem Fails.front (h : r.Fails error s) (hcause : error.cause = .badEscape c) :
    r.rest ≠ [] ∧ (r.mode = .tag → 2 ≤ r.rest.length) := by
  cases h with
  | text hpending hmode hlex =>
    refine ⟨?_, fun htag => ?_⟩
    · intro hnil
      rw [hnil] at hlex
      cases hlex
    · cases hmode.symm.trans htag
  | openTag => cases hcause
  | inTag hpending hmode hlex =>
    obtain rfl : _ = LexicalError.Cause.badEscape c := hcause
    have hlength := Nat.le_trans (Lexeme.two_le_length_of_ofTag hlex) r.length_rest_afterBlanks_le
    exact ⟨List.ne_nil_of_length_pos (by omega), fun _ => hlength⟩

theorem Fails.append (h : r.Fails error s) (hcause : error.cause = .badEscape c)
    (more : List Char) : (r.append more).Fails error (s.append more) := by
  cases h with
  | text hpending hmode hlex =>
    obtain rfl : _ = LexicalError.Cause.badEscape c := hcause
    have hrest := Lexeme.rest_ne_nil_of_ofText hlex
    exact .text (r := r.append more) hpending hmode (Lexeme.ofText_append hlex hrest more)
  | openTag => cases hcause
  | @inTag raw rest _ hpending hmode hlex hkept =>
    obtain rfl : _ = LexicalError.Cause.badEscape c := hcause
    have hlength := Lexeme.two_le_length_of_ofTag hlex
    obtain ⟨hsame, hafter⟩ := r.afterBlanks_append (List.ne_nil_of_length_pos (by omega)) more
    have hlex' : Lexeme.ofTag (r.append more).freshTag (r.append more).afterBlanks.rest =
        ⟨raw, rest ++ more, .error (.badEscape c)⟩ := by
      rw [hafter]
      exact Lexeme.ofTag_append_error hlex more
    have hfails := Fails.inTag (r := r.append more) hpending hmode hlex' (by rwa [hsame])
    rw [hafter] at hfails
    exact hfails

end Reader

theorem Area.Moves.eq_text (h : area.Moves .tagClose area') : area' = .text := by
  cases h with
  | text hkind => cases hkind
  | content hkind => cases hkind
  | brace => rfl

/-- A tag is refused when its last brace has been read. -/
theorem Builder.Refuses.kind_of_stands (h : b.Refuses t e) (hstands : e.cause.Stands) :
    t.kind = .tagClose := by
  cases h with
  | emptyEcho _ hkind => exact hkind
  | badOperand _ hkind => exact hkind
  | loopSize _ hkind => exact hkind
  | strayEnd _ hkind => exact hkind
  | _ => cases hstands

/-- What is read before a reader fails for an escape is read whatever comes behind, and so is what
the builder has made of it. -/
theorem parse_append_of_fails {b : Builder} (hreached : Builder.Reached source b r)
    (hfails : r.next.1 = .error error) (hcause : error.cause = .badEscape c) (more : String) :
    Document.parse (source ++ more) = .error (.ofLexical error) := by
  obtain ⟨-, -, hended⟩ := hreached.standsIn
  obtain ⟨ts, hreads, hkinds, hfeed⟩ := hreached.exists_reads
  rcases Reader.fails_of_next (Prod.ext hfails rfl) with ⟨hended', -⟩ | ⟨-, hfails⟩
  · cases hended.symm.trans hended'
  · obtain ⟨hne, hlength⟩ := hfails.front hcause
    have hreads' := hreads.append_more (Reader.settled_ofSource source) (fun htag _ => hlength htag)
      hkinds (fun _ => hne) more.toList
    rw [Reader.append_ofSource] at hreads'
    have hnext := Reader.next_of_fails (r := r.append more.toList) hended
      (hfails.append hcause more.toList)
    simp only [parse_of_reads hreads', hfeed]
    exact Builder.feedFrom_of_error (Prod.ext hnext rfl)

/-- A tag that has been read to its last brace is refused whatever comes behind. -/
theorem parse_append_of_refuses (hreached : Builder.Reached source b r)
    (hnext : r.next = (.ok t, s)) (hfeed : b.feed t = .error e) (hstands : e.cause.Stands)
    (more : String) : Document.parse (source ++ more) = .error e := by
  have hkind := (hreached.refuses hnext hfeed).kind_of_stands hstands
  obtain ⟨hstandsIn, hkeeps, -⟩ := hreached.standsIn
  obtain ⟨ts, hreads, hkinds, hall⟩ := hreached.exists_reads
  have hmode : s.mode = .text := by
    obtain ⟨-, u, hstep, rfl⟩ := Reader.step_of_next hnext
    obtain ⟨area, hmoves, hu⟩ := hstandsIn.step hkeeps hstep
    rw [hkind] at hmoves
    obtain rfl := hmoves.eq_text
    cases hu with
    | text _ hmode => exact hmode
  have hkinds' : ∀ u ∈ ts ++ [t], u.kind ≠ .eof := by
    rw [List.forall_mem_append, List.forall_mem_singleton, hkind]
    exact ⟨hkinds, by simp⟩
  have hlast : (∃ u ∈ (ts ++ [t]).getLast?, u.kind.isText) → s.rest ≠ [] := by
    rintro ⟨u, hu, htext⟩
    rw [List.getLast?_concat] at hu
    cases hu
    rw [hkind] at htext
    cases htext
  have hreads' := (hreads.append (.cons hnext .nil)).append_more (Reader.settled_ofSource source)
    (Reader.two_le_length_of_text hmode) hkinds' hlast more.toList
  rw [Reader.append_ofSource] at hreads'
  have herror : Builder.initial.feedAll (ts ++ [t]) = .error e := by
    rw [Builder.feedAll_append hall]
    simp only [Builder.feedAll, hfeed]
  rw [parse_of_reads hreads', herror]

/-- An error about a closed tag or a whole escape is the same, and at the same place, for every
source that goes on behind the one that it was reported for. -/
theorem parse_append_of_stands (h : Document.parse source = .error e) (hstands : e.cause.Stands)
    (more : String) : Document.parse (source ++ more) = .error e := by
  rcases Builder.Reached.start.exists_of_feedFrom h with
    ⟨b, r, error, hreached, hfails, rfl⟩ | ⟨b, r, t, s, hreached, hnext, hfeed⟩
  · have hcause : ∃ c, error.cause = .badEscape c := by
      obtain ⟨cause, place⟩ := error
      cases cause with
      | badEscape c => exact ⟨c, rfl⟩
      | _ => cases hstands
    obtain ⟨c, hcause⟩ := hcause
    exact parse_append_of_fails hreached hfails hcause more
  · exact parse_append_of_refuses hreached hnext hfeed hstands more

/-- An escape that a string does not know, and an end without a loop, whatever is opened behind. -/
theorem parse_append_of_stands_escape :
    Document.parse ("\x7b$= \"\\q" ++ "\"$\x7d") = .error ⟨.lexical (.badEscape 'q'), ⟨6, 1, 7⟩⟩ ∧
    Document.parse ("a\n\x7b$END$\x7d" ++ "\x7b$") = .error ⟨.strayEnd, ⟨4, 2, 3⟩⟩ := by
  have hescape : Document.parse "\x7b$= \"\\q" =
      .error ⟨.lexical (.badEscape 'q'), ⟨6, 1, 7⟩⟩ := by
    decide +kernel
  have hend : Document.parse "a\n\x7b$END$\x7d" = .error ⟨.strayEnd, ⟨4, 2, 3⟩⟩ := by
    decide +kernel
  exact ⟨parse_append_of_stands hescape trivial _, parse_append_of_stands hend trivial _⟩

end Template
