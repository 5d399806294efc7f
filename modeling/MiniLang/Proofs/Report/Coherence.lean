/-
Checks always come to an end: no text halts the resolution of its names. What a check
finds fits together, and with what a listing of the tokens finds.
-/
import MiniLang.Check
import MiniLang.Proofs.Resolution.Discipline
import MiniLang.Proofs.Resolution.Parsed

namespace MiniLang

/-- The names of a parsed program can be resolved. -/
theorem Program.resolvable_of_parse {source : String} {program : Program}
    (h : parseTokens (scan source).tokens = .ok program) :
    ∃ names, program.resolve.outcome = .ok names := by
  have hraw := Program.raw_of_parse h
  have hnamed : Named program.occurrences := fun occurrence hoccurrence id hid =>
    hraw.named id (List.mem_flatMap.mpr ⟨occurrence, hoccurrence, hid⟩)
  obtain ⟨_, _, houtcome⟩ := Program.resolve_walks hraw.plain hnamed
  exact ⟨_, houtcome⟩

section Check

variable {doc : Document}

theorem Document.check_of_syntaxError {error : SyntaxError}
    (h : parseTokens (scan doc.text).tokens = .error error) :
    doc.check = .ok ⟨doc, (scan doc.text).issues, .error error⟩ := by
  simp only [Document.check, h]

theorem Document.check_of_parse {program : Program} {names : Namespace}
    (h : parseTokens (scan doc.text).tokens = .ok program)
    (hnames : program.resolve.outcome = .ok names) :
    doc.check = .ok ⟨doc, (scan doc.text).issues,
      .ok ⟨program.resolve.program, program.resolve.errors, names⟩⟩ := by
  simp only [Document.check, h, hnames]

end Check

section Results

/-- Whether a check found an error: in the text, in its tokens, or in its names. -/
def CheckResult.Fails (result : CheckResult) : Prop :=
  (∃ issue ∈ result.issues, issue.fault.severity = .error) ∨
    result.syntaxError? ≠ none ∨ result.nameErrors ≠ []

theorem ScanIssue.isError_iff {issue : ScanIssue} :
    issue.isError = true ↔ issue.fault.severity = .error := beq_iff_eq

variable {result : CheckResult}

theorem CheckResult.hasErrors_iff : result.hasErrors = true ↔ result.Fails := by
  have hissues : 0 < result.issues.countP ScanIssue.isError ↔
      ∃ issue ∈ result.issues, issue.fault.severity = .error := by
    simp only [List.countP_pos_iff, ScanIssue.isError_iff]
  have hsyntax : 0 < result.syntaxError?.toList.length ↔ result.syntaxError? ≠ none := by
    cases result.syntaxError? <;> simp
  have hnames : 0 < result.nameErrors.length ↔ result.nameErrors ≠ [] :=
    List.length_pos_iff
  rw [CheckResult.Fails, ← hissues, ← hsyntax, ← hnames, CheckResult.hasErrors,
    CheckResult.errorCount, decide_eq_true_eq]
  omega

theorem CheckResult.status_eq_compileErrors_iff :
    result.status = .compileErrors ↔ result.Fails := by
  rw [← CheckResult.hasErrors_iff, CheckResult.status, ExitStatus.ofErrors]
  cases result.hasErrors <;> simp

theorem CheckResult.status_eq_success_iff : result.status = .success ↔ ¬ result.Fails := by
  rw [← CheckResult.hasErrors_iff, CheckResult.status, ExitStatus.ofErrors]
  cases result.hasErrors <;> simp

/-- A check shows one diagnostic for every finding, in the order of the stages. -/
theorem CheckResult.diagnostics_shown (result : CheckResult)
    (show_ : Diagnostic → String) :
    result.diagnostics.map show_ =
      result.issues.map (fun issue => show_ issue.notice.diagnostic)
        ++ result.syntaxError?.toList.map (fun error => show_ error.notice.diagnostic)
        ++ result.nameErrors.map fun error => show_ error.diagnostic := by
  rw [CheckResult.diagnostics, issueDiagnostics, List.map_append, List.map_append,
    List.map_map, List.map_map]
  congr 2
  cases result.syntaxError? <;> rfl

/-- The resolved program is there unless there is a syntax error. -/
theorem CheckResult.isSome_resolved?_iff :
    result.resolved?.isSome = true ↔ result.syntaxError? = none := by
  rw [CheckResult.resolved?, CheckResult.syntaxError?]
  cases result.parsed with
  | error error => exact ⟨nofun, nofun⟩
  | ok resolved => exact ⟨fun _ => rfl, fun _ => rfl⟩

theorem CheckResult.nameErrors_of_syntaxError? (h : result.syntaxError? ≠ none) :
    result.nameErrors = [] := by
  have hnone : result.resolved? = none := by
    rw [← Option.not_isSome_iff_eq_none, CheckResult.isSome_resolved?_iff]
    exact h
  rw [CheckResult.nameErrors, hnone]
  rfl

theorem CheckResult.nameErrors_of_resolved? {resolved : Resolved}
    (h : result.resolved? = some resolved) : result.nameErrors = resolved.errors := by
  rw [CheckResult.nameErrors, h]
  rfl

/-- Whether the result of a check is told as it is. Every finding is shown once, in the
order of the stages; the check succeeds unless a finding is an error; the resolved program
is there unless there is a syntax error, and only with it there are errors of names. -/
structure CheckResult.Reported (result : CheckResult) : Prop where
  shown : ∀ paint doc, result.diagnostics.map (·.renderWith paint doc) =
    result.issues.map (fun issue => issue.notice.diagnostic.renderWith paint doc)
      ++ result.syntaxError?.toList.map (fun error =>
        error.notice.diagnostic.renderWith paint doc)
      ++ result.nameErrors.map fun error => error.diagnostic.renderWith paint doc
  failing : result.status = .compileErrors ↔ result.Fails
  passing : result.status = .success ↔ ¬ result.Fails
  resolved : result.resolved?.isSome = true ↔ result.syntaxError? = none
  unresolved : result.syntaxError? ≠ none → result.nameErrors = []
  nameErrors : ∀ resolved, result.resolved? = some resolved →
    result.nameErrors = resolved.errors

theorem CheckResult.reported (result : CheckResult) : result.Reported where
  shown _ _ := result.diagnostics_shown _
  failing := CheckResult.status_eq_compileErrors_iff
  passing := CheckResult.status_eq_success_iff
  resolved := CheckResult.isSome_resolved?_iff
  unresolved := CheckResult.nameErrors_of_syntaxError?
  nameErrors _ := CheckResult.nameErrors_of_resolved?

end Results

section Listing

variable {result : CheckResult} {doc : Document}
  (h : result.issues = (scan doc.text).issues)

include h

/-- A listing of the tokens shows what a check shows of the scan. -/
theorem Document.dumpTokens_shown (show_ : Diagnostic → String) :
    doc.dumpTokens.diagnostics.map show_ =
      (result.diagnostics.map show_).take result.issues.length := by
  have hissues : doc.dumpTokens.diagnostics.map show_ =
      result.issues.map fun issue => show_ issue.notice.diagnostic := by
    rw [h]
    exact List.map_map
  rw [hissues, CheckResult.diagnostics_shown, List.append_assoc]
  exact (List.take_left' (List.length_map _)).symm

/-- A check fails where a listing of the tokens fails. -/
theorem Document.hasErrors_of_dumpTokens (hdump : doc.dumpTokens.hasErrors = true) :
    result.hasErrors = true := by
  obtain ⟨issue, hissue, herror⟩ := List.any_eq_true.mp hdump
  have hmem : issue ∈ result.issues := by
    rw [h]
    exact hissue
  rw [CheckResult.hasErrors_iff]
  exact .inl ⟨issue, hmem, ScanIssue.isError_iff.mp herror⟩

end Listing

/-- Whether the result of a check comes from its document: from the scan of it, from its
program and from the resolution of that. There are as many errors of names as were counted,
and a listing of the tokens shows what the check shows of the scan. -/
structure CheckResult.Coherent (result : CheckResult) (doc : Document) : Prop where
  document : result.document = doc
  issues : result.issues = (scan doc.text).issues
  syntaxError : ∀ error, result.syntaxError? = some error ↔
    parseTokens (scan doc.text).tokens = .error error
  resolution : ∀ resolved, result.resolved? = some resolved →
    ∃ program, parseTokens (scan doc.text).tokens = .ok program ∧
      program.resolve = ⟨resolved.program, resolved.errors, .ok resolved.names⟩
  counted : ∀ resolved, result.resolved? = some resolved →
    result.nameErrors.length = resolved.names.errorCount
  listed : ∀ paint, doc.dumpTokens.diagnostics.map (·.renderWith paint doc) =
    (result.diagnostics.map (·.renderWith paint doc)).take result.issues.length
  listing : doc.dumpTokens.hasErrors = true → result.hasErrors = true

theorem Document.coherent_of_syntaxError {doc : Document} {error : SyntaxError}
    (h : parseTokens (scan doc.text).tokens = .error error) :
    CheckResult.Coherent ⟨doc, (scan doc.text).issues, .error error⟩ doc where
  document := rfl
  issues := rfl
  syntaxError other := by simp [CheckResult.syntaxError?, h]
  resolution := nofun
  counted := nofun
  listed _ := Document.dumpTokens_shown rfl _
  listing := Document.hasErrors_of_dumpTokens rfl

theorem Document.coherent_of_parse {doc : Document} {program : Program}
    {names : Namespace} (h : parseTokens (scan doc.text).tokens = .ok program)
    (hnames : program.resolve.outcome = .ok names) :
    CheckResult.Coherent ⟨doc, (scan doc.text).issues,
      .ok ⟨program.resolve.program, program.resolve.errors, names⟩⟩ doc where
  document := rfl
  issues := rfl
  syntaxError other := by simp [CheckResult.syntaxError?, h]
  resolution resolved hresolved := by
    obtain rfl := Option.some.inj hresolved
    refine ⟨program, h, ?_⟩
    rw [← hnames]
  counted resolved hresolved := by
    obtain rfl := Option.some.inj hresolved
    exact (Program.errorCount_resolve hnames).symm
  listed _ := Document.dumpTokens_shown rfl _
  listing := Document.hasErrors_of_dumpTokens rfl

/-- Every check comes to an end, and its result fits together, and with the document. -/
theorem Document.check_coherent (doc : Document) :
    ∃ result, doc.check = .ok result ∧ result.Reported ∧ result.Coherent doc := by
  cases hparse : parseTokens (scan doc.text).tokens with
  | error error =>
      exact ⟨_, Document.check_of_syntaxError hparse, CheckResult.reported _,
        Document.coherent_of_syntaxError hparse⟩
  | ok program =>
      obtain ⟨names, hnames⟩ := Program.resolvable_of_parse hparse
      exact ⟨_, Document.check_of_parse hparse hnames, CheckResult.reported _,
        Document.coherent_of_parse hparse hnames⟩

end MiniLang
