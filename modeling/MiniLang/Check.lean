/-
Checking a document: scan it, parse it, resolve its names, and report.
-/
import MiniLang.Grammar.Program
import MiniLang.Report.Diagnostic
import MiniLang.Scope.Resolution
import MiniLang.Token.Scan
import MiniLang.Tree.Printer

namespace MiniLang

/-- How a command ends. -/
inductive ExitStatus where
  | success
  | compileErrors
  | ioError
  | internalError
deriving Repr, DecidableEq

def ExitStatus.code : ExitStatus → Nat
  | .success => 0
  | .compileErrors => 1
  | .ioError => 2
  | .internalError => 3

/-- How a command ends that found errors or none. -/
def ExitStatus.ofErrors (found : Bool) : ExitStatus :=
  if found then .compileErrors else .success

/-- Why a command could not finish. -/
inductive Failure where
  | parse (notice : SyntaxNotice)
  | internal (reason : TableError)
  | io (text : String)
deriving Repr, DecidableEq

def Failure.message : Failure → String
  | .parse notice => notice.render
  | .internal reason => reason.internalMessage
  | .io text => "io error: " ++ text

def Failure.status : Failure → ExitStatus
  | .parse _ => .compileErrors
  | .internal _ => .internalError
  | .io _ => .ioError

/-- A program whose names were resolved, the errors that this brought up, and what
the program declares. -/
structure Resolved where
  program : Program
  errors : List NameError
  names : Namespace

/-- What a check found out about a document. -/
structure CheckResult where
  document : Document
  issues : List ScanIssue
  parsed : Except SyntaxError Resolved

def issueDiagnostics (issues : List ScanIssue) : List Diagnostic :=
  issues.map fun issue => issue.notice.diagnostic

/-- Whether a scan issue makes a check fail. -/
def ScanIssue.isError (issue : ScanIssue) : Bool := issue.notice.isError

/-- Check a document. Only a halted name resolution makes this fail. -/
def Document.check (doc : Document) : Except Failure CheckResult :=
  let scanned := scan doc.text
  match parseTokens scanned.tokens with
  | .error error => .ok ⟨doc, scanned.issues, .error error⟩
  | .ok program =>
      let resolution := program.resolve
      match resolution.outcome with
      | .error reason => .error (.internal reason)
      | .ok names =>
          .ok ⟨doc, scanned.issues,
            .ok ⟨resolution.program, resolution.errors, names⟩⟩

def CheckResult.syntaxError? (result : CheckResult) : Option SyntaxError :=
  match result.parsed with
  | .error error => some error
  | .ok _ => none

def CheckResult.resolved? (result : CheckResult) : Option Resolved :=
  result.parsed.toOption

/-- The errors of names. There are none if the document could not be parsed. -/
def CheckResult.nameErrors (result : CheckResult) : List NameError :=
  (result.resolved?.map Resolved.errors).getD []

/-- Everything to report, in the order it was found. -/
def CheckResult.diagnostics (result : CheckResult) : List Diagnostic :=
  issueDiagnostics result.issues
    ++ (result.syntaxError?.map fun error => error.notice.diagnostic).toList
    ++ result.nameErrors.map NameError.diagnostic

/-- The number of errors. Warnings are not counted. -/
def CheckResult.errorCount (result : CheckResult) : Nat :=
  result.issues.countP ScanIssue.isError + result.syntaxError?.toList.length
    + result.nameErrors.length

def CheckResult.hasErrors (result : CheckResult) : Bool := 0 < result.errorCount

def CheckResult.status (result : CheckResult) : ExitStatus :=
  .ofErrors result.hasErrors

def CheckResult.printed? (result : CheckResult) : Option String :=
  result.resolved?.map fun resolved => resolved.program.print

/-- The tokens of a document, listed one to a line, and what the scanner
remarked. -/
structure TokenDump where
  document : Document
  text : String
  issues : List ScanIssue
deriving Repr, DecidableEq

def Document.dumpTokens (doc : Document) : TokenDump :=
  let scanned := scan doc.text
  ⟨doc, String.join (scanned.tokens.map (·.render ++ "\n")), scanned.issues⟩

/-- Whether the scanner met an error. -/
def TokenDump.hasErrors (dump : TokenDump) : Bool :=
  dump.issues.any ScanIssue.isError

def TokenDump.status (dump : TokenDump) : ExitStatus := .ofErrors dump.hasErrors

def TokenDump.diagnostics (dump : TokenDump) : List Diagnostic :=
  issueDiagnostics dump.issues

end MiniLang
