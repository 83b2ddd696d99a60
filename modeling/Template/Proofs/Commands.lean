import Template.Command
import Template.Document.Canonical
import Template.Proofs.Failures
import Template.Proofs.KeptBlanks

/-! What commands come to, and that they agree on which files hold templates. -/
namespace Template

def Disk.HoldsText (disk : Disk) (path source : String) : Prop :=
  ∃ bytes, disk.bytes? path = some bytes ∧ String.fromUTF8? bytes = some source

/-- The file at the path holds a source of the document. -/
def Disk.HoldsSourceOf (disk : Disk) (path : String) (d : Document) : Prop :=
  ∃ source, disk.HoldsText path source ∧ Document.parse source = .ok d

/-- What has to be so that the document is formatted. -/
structure Disk.Formats (disk : Disk) (path : String) (output : Option String) (verify : Bool)
    (d : Document) : Prop where
  source : disk.HoldsSourceOf path d
  writable : ∀ target ∈ output, disk.refusal target = none
  verified : verify → ∃ e, Document.parse d.source = .ok e ∧ e.sameValue d

/-- What formatting comes to: a message and nothing else, or the canonical source, which is printed
or written. -/
inductive Disk.Formatting (disk : Disk) (path : String) (output : Option String) (verify : Bool) :
    Report × Disk → Prop
  | refused {message : String} (h : ∀ d, ¬ disk.Formats path output verify d) :
      Formatting disk path output verify (.failure message, disk)
  | printed {d : Document} (h : disk.Formats path output verify d) (houtput : output = none) :
      Formatting disk path output verify (⟨0, d.source, ""⟩, disk)
  | written {d : Document} {target : String} (h : disk.Formats path output verify d)
      (houtput : output = some target) :
      Formatting disk path output verify
        (.ofWrite target none, disk.put target d.source.toUTF8)

variable {c : Command} {path source target text reason : String} {output : Option String}
  {verify : Bool} {disk : Disk} {d e : Document} {r : Report}

theorem Disk.holdsText_iff :
    disk.HoldsText path source ↔ Input.ofBytes? (disk.bytes? path) = .text source := by
  unfold HoldsText Input.ofBytes?
  cases disk.bytes? path with
  | none => simp
  | some bytes => cases htext : String.fromUTF8? bytes <;> simp [htext]

theorem Disk.HoldsText.eq {source' : String} (h : disk.HoldsText path source)
    (h' : disk.HoldsText path source') : source = source' :=
  Input.text.inj ((Disk.holdsText_iff.1 h).symm.trans (Disk.holdsText_iff.1 h'))

theorem Disk.HoldsSourceOf.eq (h : disk.HoldsSourceOf path d) (h' : disk.HoldsSourceOf path e) :
    d = e := by
  obtain ⟨source, hsource, hd⟩ := h
  obtain ⟨source', hsource', he⟩ := h'
  obtain rfl := hsource.eq hsource'
  exact Except.ok.inj (hd.symm.trans he)

theorem Disk.put_same (disk : Disk) (path : String) (bytes : ByteArray) :
    (disk.put path bytes).bytes? path = some bytes := by
  simp [Disk.put]

theorem Disk.put_of_ne {p : String} {bytes : ByteArray} (h : p ≠ path) :
    (disk.put path bytes).bytes? p = disk.bytes? p := by
  simp [Disk.put, h]

namespace Command

theorem perform_of_report (h : c.onInput path (.ofBytes? (disk.bytes? path)) = .report r) :
    c.perform path disk = (r, disk) := by
  simp only [perform, h]

theorem perform_of_written (h : c.onInput path (.ofBytes? (disk.bytes? path)) = .write target text)
    (hwritable : disk.refusal target = none) :
    c.perform path disk = (.ofWrite target none, disk.put target text.toUTF8) := by
  simp only [perform, h, Disk.write, hwritable]

theorem perform_of_refused (h : c.onInput path (.ofBytes? (disk.bytes? path)) = .write target text)
    (hrefusal : disk.refusal target = some reason) :
    c.perform path disk = (.ofWrite target (some reason), disk) := by
  simp only [perform, h, Disk.write, hrefusal]

theorem onInput_of_holdsText (c : Command) (h : disk.HoldsText path source) :
    c.onInput path (.ofBytes? (disk.bytes? path)) = c.onSource path source := by
  rw [Disk.holdsText_iff.1 h, onInput]

theorem onSource_of_error {e : ParseError} (hparse : Document.parse source = .error e)
    (hc : ∀ keep, c ≠ .tokens keep) : c.onSource path source = .failure e.message := by
  cases c with
  | check => simp only [onSource, withDocument, hparse]
  | format output verify => simp only [onSource, withDocument, hparse]
  | outline => simp only [onSource, withDocument, hparse]
  | tokens keep => exact (hc keep rfl).elim

/-- Without a document all commands but the token listing fail alike. -/
theorem exists_failure (h : ∀ d, ¬ disk.HoldsSourceOf path d) :
    ∃ message, ∀ c : Command, (∀ keep, c ≠ .tokens keep) →
      c.perform path disk = (.failure message, disk) := by
  have hmessage : ∃ message, ∀ c : Command, (∀ keep, c ≠ .tokens keep) →
      c.onInput path (.ofBytes? (disk.bytes? path)) = .failure message := by
    cases hinput : Input.ofBytes? (disk.bytes? path) with
    | missing => exact ⟨_, fun c _ => rfl⟩
    | unreadable reason => exact ⟨_, fun c _ => rfl⟩
    | text source =>
      cases hparse : Document.parse source with
      | ok d => exact (h d ⟨source, Disk.holdsText_iff.2 hinput, hparse⟩).elim
      | error e => exact ⟨e.message, fun c hc => onSource_of_error hparse hc⟩
  obtain ⟨message, hmessage⟩ := hmessage
  exact ⟨message, fun c hc => perform_of_report (hmessage c hc)⟩

theorem verification_eq_none_iff : verification path d = none ↔
    ∃ e, Document.parse d.source = .ok e ∧ e.sameValue d := by
  unfold verification Document.roundTrip
  cases Document.parse d.source with
  | error e => simp
  | ok e => cases h : e.sameValue d <;> simp [h]

theorem formatted_of_verified (output : Option String)
    (h : verify → ∃ e, Document.parse d.source = .ok e ∧ e.sameValue d) :
    formatted path output verify d =
      match output with
      | none => .report ⟨0, d.source, ""⟩
      | some target => .write target d.source := by
  have hnone : (if verify then verification path d else none) = none := by
    cases verify with
    | false => rfl
    | true => exact verification_eq_none_iff.2 (h rfl)
  simp only [formatted, hnone]
  cases output <;> rfl

theorem exists_formatted_of_not_verified (path : String) (output : Option String)
    (h : ¬ ∃ e, Document.parse d.source = .ok e ∧ e.sameValue d) :
    ∃ message, formatted path output true d = .failure message := by
  cases hmessage : verification path d with
  | none => exact (h (verification_eq_none_iff.1 hmessage)).elim
  | some message => exact ⟨message, by simp only [formatted, hmessage, if_true]⟩

theorem formatting_perform (path : String) (output : Option String) (verify : Bool) (disk : Disk) :
    disk.Formatting path output verify ((Command.format output verify).perform path disk) := by
  by_cases hd : ∃ d, disk.HoldsSourceOf path d
  · obtain ⟨d, hd⟩ := hd
    have hrefused (h : ¬ disk.Formats path output verify d) (e : Document) :
        ¬ disk.Formats path output verify e := by
      intro he
      exact h (hd.eq he.source ▸ he)
    have hinput : (Command.format output verify).onInput path (.ofBytes? (disk.bytes? path)) =
        formatted path output verify d := by
      obtain ⟨source, hsource, hparse⟩ := hd
      rw [onInput_of_holdsText _ hsource, onSource, withDocument, hparse]
    by_cases hverified : verify → ∃ e, Document.parse d.source = .ok e ∧ e.sameValue d
    · rw [formatted_of_verified output hverified] at hinput
      cases output with
      | none =>
        rw [perform_of_report hinput]
        exact .printed ⟨hd, by simp, hverified⟩ rfl
      | some target =>
        cases hrefusal : disk.refusal target with
        | none =>
          rw [perform_of_written hinput hrefusal]
          exact .written ⟨hd, by simpa using hrefusal, hverified⟩ rfl
        | some reason =>
          rw [perform_of_refused hinput hrefusal]
          refine .refused (hrefused fun h => ?_)
          cases hrefusal.symm.trans (h.writable target rfl)
    · obtain ⟨rfl, hdiffer⟩ := Classical.not_imp.1 hverified
      obtain ⟨message, hmessage⟩ := exists_formatted_of_not_verified path output hdiffer
      rw [perform_of_report (hinput.trans hmessage)]
      exact .refused (hrefused fun h => hdiffer (h.verified rfl))
  · obtain ⟨message, hmessage⟩ := exists_failure (not_exists.1 hd)
    rw [hmessage _ (by simp)]
    exact .refused fun d h => hd ⟨d, h.source⟩

/-- Formatting succeeds exactly if the file holds a source of a document, the output can be written,
and, if that is asked for, the canonical source parses to an equal document. On success the
canonical source is printed, or is all that the output then holds. On failure nothing is printed,
and no file has changed. -/
theorem perform_format (path : String) (output : Option String) (verify : Bool) (disk : Disk) :
    let result := (Command.format output verify).perform path disk
    (result.1.status = 0 ↔ ∃ d, disk.HoldsSourceOf path d ∧
      (∀ target ∈ output, disk.refusal target = none) ∧
      (verify → ∃ e, Document.parse d.source = .ok e ∧ e.sameValue d)) ∧
    (result.1.status = 0 → ∀ d, disk.HoldsSourceOf path d →
      match output with
      | none => result.1.stdout = d.source ∧ result.2 = disk
      | some target => result.1.stdout = "" ∧ result.2.bytes? target = some d.source.toUTF8 ∧
          ∀ p, p ≠ target → result.2.bytes? p = disk.bytes? p) ∧
    (result.1.status ≠ 0 → result.1.stdout = "" ∧ result.2 = disk) := by
  intro result
  have hresult : disk.Formatting path output verify result :=
    formatting_perform path output verify disk
  generalize result = result at hresult
  cases hresult with
  | refused h =>
    refine ⟨iff_of_false Nat.one_ne_zero ?_, fun hstatus => (Nat.one_ne_zero hstatus).elim,
      fun _ => ⟨rfl, rfl⟩⟩
    rintro ⟨d, hsource, hwritable, hverified⟩
    exact h d ⟨hsource, hwritable, hverified⟩
  | printed h houtput =>
    subst houtput
    refine ⟨iff_of_true rfl ⟨_, h.source, h.writable, h.verified⟩, fun _ e he => ?_,
      fun hstatus => (hstatus rfl).elim⟩
    rw [he.eq h.source]
    exact ⟨rfl, rfl⟩
  | written h houtput =>
    subst houtput
    refine ⟨iff_of_true rfl ⟨_, h.source, h.writable, h.verified⟩, fun _ e he => ?_,
      fun hstatus => (hstatus rfl).elim⟩
    rw [he.eq h.source]
    exact ⟨rfl, disk.put_same _ _, fun p hp => Disk.put_of_ne hp⟩

theorem failure_run_of_parse (hparse : Document.parse source = .ok d) :
    (Reader.ofSource source).run.failure = none := by
  have hends := Builder.ends_feedFrom .initial (.ofSource source)
  rw [← Document.parse, hparse] at hends
  exact hends.failure_of_ok

theorem failure_run_of_lexical {cause : LexicalError.Cause} {place : Position}
    (hparse : Document.parse source = .error ⟨.lexical cause, place⟩) :
    (Reader.ofSource source).run.failure = some ⟨cause, place⟩ := by
  have hends := Builder.ends_feedFrom .initial (.ofSource source)
  rw [← Document.parse, hparse] at hends
  exact hends.failure_of_lexical

/-- Keeping blanks does not change how a run ends. -/
theorem failure_run_keepBlanks (source : String) (keep : Bool) :
    ((Reader.ofSource source).keepBlanks keep).run.failure =
      (Reader.ofSource source).run.failure := by
  have hskipping := Reader.run_skipping (r := (Reader.ofSource source).keepBlanks keep)
    (Reader.settled_ofSource source) none
  exact (congrArg Run.failure hskipping).symm

theorem status_listTokens (keep : Bool) (h : (Reader.ofSource source).run.failure = none) :
    (listTokens keep source).status = 0 := by
  simp only [listTokens, failure_run_keepBlanks, h]

theorem listTokens_of_failure {e : LexicalError} (keep : Bool)
    (h : (Reader.ofSource source).run.failure = some e) :
    (listTokens keep source).status = 1 ∧ (listTokens keep source).stderr = e.message ++ "\n" := by
  simp only [listTokens, failure_run_keepBlanks, h, and_self]

theorem perform_tokens (keep : Bool) (h : disk.HoldsText path source) :
    (Command.tokens keep).perform path disk = (listTokens keep source, disk) :=
  perform_of_report (onInput_of_holdsText _ h)

theorem perform_of_holdsSourceOf (h : disk.HoldsSourceOf path d) :
    Command.check.perform path disk = (⟨0, "", "OK: " ++ path ++ "\n"⟩, disk) ∧
      (Command.format none false).perform path disk = (⟨0, d.source, ""⟩, disk) ∧
      Command.outline.perform path disk = (⟨0, d.outline ++ "\n", ""⟩, disk) := by
  obtain ⟨source, hsource, hparse⟩ := h
  refine ⟨perform_of_report ?_, perform_of_report ?_, perform_of_report ?_⟩
  · rw [onInput_of_holdsText _ hsource, onSource, withDocument, hparse]
  · rw [onInput_of_holdsText _ hsource, onSource, withDocument, hparse]
    rfl
  · rw [onInput_of_holdsText _ hsource, onSource, withDocument, hparse]

/-- Checking, formatting and outlining succeed on the same files, and where they fail they print
the same message and nothing else. What a host program gets as the canonical source is what
formatting prints. The token listing succeeds on all these files; where a lexical error is reported
it fails, with either treatment of blanks, for the same cause at the same place. -/
theorem commands_agree (path : String) (disk : Disk) :
    let report (c : Command) := (c.perform path disk).1
    (∀ c ∈ [Command.check, .format none false, .outline],
      (report c).status = (report .check).status ∧
        ((report c).status ≠ 0 →
          (report c).stderr = (report .check).stderr ∧ (report c).stdout = "")) ∧
    (∀ source d, disk.HoldsText path source → Document.parse source = .ok d →
      canonicalSourceOrMessage source = .ok (report (.format none false)).stdout) ∧
    ((report .check).status = 0 → ∀ keep, (report (.tokens keep)).status = 0) ∧
    ∀ source cause place, disk.HoldsText path source →
      Document.parse source = .error ⟨.lexical cause, place⟩ →
      ((report .check).status ≠ 0 ∧
        (report .check).stderr = "Parse error at line " ++ toString place.line ++ ", column " ++
          toString place.column ++ ": " ++ cause.text ++ "\n") ∧
      ∀ keep, (report (.tokens keep)).status ≠ 0 ∧
        (report (.tokens keep)).stderr = "Lexer error at line " ++ toString place.line ++
          ", column " ++ toString place.column ++ ": " ++ cause.text ++ "\n" := by
  intro report
  refine ⟨?_, ?_, ?_, ?_⟩
  · by_cases hd : ∃ d, disk.HoldsSourceOf path d
    · obtain ⟨d, hd⟩ := hd
      obtain ⟨hcheck, hformat, houtline⟩ := perform_of_holdsSourceOf hd
      simp [report, hcheck, hformat, houtline]
    · obtain ⟨message, hmessage⟩ := exists_failure (not_exists.1 hd)
      have hcheck := hmessage .check (by simp)
      have hformat := hmessage (.format none false) (by simp)
      have houtline := hmessage .outline (by simp)
      simp [report, hcheck, hformat, houtline, Report.failure]
  · intro source d hsource hparse
    have hd : disk.HoldsSourceOf path d := ⟨source, hsource, hparse⟩
    obtain ⟨-, hformat, -⟩ := perform_of_holdsSourceOf hd
    simp only [report, hformat, canonicalSourceOrMessage, canonicalSource, hparse]
    rfl
  · intro hstatus keep
    by_cases hd : ∃ d, disk.HoldsSourceOf path d
    · obtain ⟨d, source, hsource, hparse⟩ := hd
      simp only [report, perform_tokens keep hsource]
      exact status_listTokens keep (failure_run_of_parse hparse)
    · obtain ⟨message, hmessage⟩ := exists_failure (not_exists.1 hd)
      simp [report, hmessage .check (by simp), Report.failure] at hstatus
  · intro source cause place hsource hparse
    have hcheck : Command.check.perform path disk =
        (.failure (ParseError.message ⟨.lexical cause, place⟩), disk) := by
      refine perform_of_report ?_
      rw [onInput_of_holdsText _ hsource, onSource_of_error hparse (by simp), Outcome.failure]
    refine ⟨?_, fun keep => ?_⟩
    · simp only [report, hcheck]
      exact ⟨Nat.one_ne_zero, rfl⟩
    · obtain ⟨hstatus, hstderr⟩ := listTokens_of_failure keep (failure_run_of_lexical hparse)
      simp only [report, perform_tokens keep hsource, hstatus, hstderr]
      exact ⟨Nat.one_ne_zero, rfl⟩

end Command

end Template
