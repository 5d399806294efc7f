/-
Diagnostics: what a reader is shown about an error or a warning.
-/
import MiniLang.Grammar.SyntaxError
import MiniLang.Scope.NameError
import MiniLang.Scope.Table
import MiniLang.Source.Document
import MiniLang.Token.Fault

namespace MiniLang

/-- An error or a warning about a stretch of text. The label stands below the
excerpt, and the help below the label. -/
structure Diagnostic where
  severity : Severity
  code : String
  headline : String
  span : Span
  label : String
  help : Option String
deriving Repr, DecidableEq

/-- The number of everything that the scanner remarks. -/
def scanCode : String := "E0201"

def ScanNotice.diagnostic (notice : ScanNotice) : Diagnostic :=
  ⟨notice.severity, scanCode, notice.text, notice.span, "here", none⟩

def SyntaxNotice.diagnostic (notice : SyntaxNotice) : Diagnostic :=
  ⟨.error, notice.code, notice.text, notice.span, "syntax error here", none⟩

/-- What stands below the excerpt for a fault of names. -/
def NameFault.label : NameFault → String
  | .duplicateDeclaration => "already declared in this scope"
  | .voidVariable => "declared with type " ++ quoted Keyword.void.spelling
  | .undeclaredIdentifier => "not found in this scope"
  | .invalidStructName => "reserved type name"

/-- What helps against a fault of a name. -/
def NameFault.help (fault : NameFault) (name : String) : String :=
  match fault with
  | .duplicateDeclaration =>
      "note: each name may be declared only once per scope"
  | .voidVariable =>
      "help: only functions may be declared " ++ quoted Keyword.void.spelling
  | .undeclaredIdentifier =>
      "help: consider declaring " ++ quoted name ++ " before using it"
  | .invalidStructName =>
      "help: " ++ quoted Keyword.bool.spelling ++ ", "
        ++ quoted Keyword.int.spelling ++ " and " ++ quoted Keyword.void.spelling
        ++ " cannot name a struct type"

def NameError.diagnostic (error : NameError) : Diagnostic :=
  ⟨.error, error.fault.code, error.fault.message ++ " " ++ quoted error.name,
    error.span, error.fault.label, some (error.fault.help error.name)⟩

/-- How a text is painted that stands for a severity. Nothing here depends on what a
painted text looks like. -/
abbrev Painter := Severity → String → String

/-- A diagnostic about a document, with an excerpt of it. -/
def Diagnostic.renderWith (diagnostic : Diagnostic) (paint : Painter)
    (doc : Document) : String :=
  let tag := diagnostic.severity.name ++ "[" ++ diagnostic.code ++ "]"
  paint diagnostic.severity tag ++ ": " ++ diagnostic.headline ++ "\n"
    ++ "--> " ++ doc.name ++ ":" ++ diagnostic.span.render ++ "\n"
    ++ doc.excerpt diagnostic.span ++ "\n"
    ++ " | " ++ diagnostic.label ++ "\n"
    ++ (diagnostic.help.map ("\n" ++ ·)).getD ""

/-- The reason why name resolution halted, in one line. -/
def TableError.internalMessage (reason : TableError) : String :=
  "internal error during name analysis: " ++ reason.message

/-- What is shown when name resolution halted. It has no place in the text. -/
def TableError.renderWith (reason : TableError) (paint : Painter) : String :=
  paint .error "internal error" ++ ": " ++ reason.internalMessage

end MiniLang
