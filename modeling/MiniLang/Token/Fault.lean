/-
What can be wrong with a stretch of text before any grammar is considered.
-/
import MiniLang.Source.Span

namespace MiniLang

/-- How grave a finding is. A warning does not make a check fail. -/
inductive Severity where
  | error
  | warning
deriving Repr, DecidableEq

def Severity.name : Severity → String
  | .error => "error"
  | .warning => "warning"

/-- The mark of a degree of severity in a line of its own. -/
def Severity.mark : Severity → String
  | .error => "ERROR"
  | .warning => "WARNING"

/-- What the scanner finds wrong with a stretch of text. -/
inductive ScanFault where
  | illegal (c : Char)
  | unterminated (wellEscaped : Bool)
  | badEscape
  | tooLarge
deriving Repr, DecidableEq

/-- Only a literal out of range is still read; everything else is ignored. -/
def ScanFault.severity : ScanFault → Severity
  | .tooLarge => .warning
  | _ => .error

def ScanFault.message : ScanFault → String
  | .illegal c => "illegal character ignored: " ++ String.singleton c
  | .unterminated true => "unterminated string literal ignored"
  | .unterminated false =>
      "unterminated string literal with bad escaped character ignored"
  | .badEscape => "string literal with bad escaped character ignored"
  | .tooLarge => "integer literal too large; using max value"

/-- A remark of the scanner about a stretch of text. -/
structure ScanNotice where
  severity : Severity
  text : String
  span : Span
deriving Repr, DecidableEq

def ScanNotice.isError (notice : ScanNotice) : Bool := notice.severity == .error

def ScanNotice.render (notice : ScanNotice) : String :=
  notice.span.render ++ " ***" ++ notice.severity.mark ++ "*** " ++ notice.text

/-- A fault with the stretch of text that has it. -/
structure ScanIssue where
  fault : ScanFault
  span : Span
deriving Repr, DecidableEq

def ScanIssue.notice (issue : ScanIssue) : ScanNotice :=
  ⟨issue.fault.severity, issue.fault.message, issue.span⟩

end MiniLang
