/-
A text with its name, seen as lines, and the excerpt that a diagnostic shows.
-/
import MiniLang.Source.LineIndex
import MiniLang.Source.Span

namespace MiniLang

/-- A named text. -/
structure Document where
  name : String
  text : String
deriving Repr, DecidableEq

/-- A text that came without a name is called `<input>`. -/
def Document.ofText (text : String) : Document := ⟨"<input>", text⟩

def Document.index (doc : Document) : LineIndex := LineIndex.empty.setText doc.text

/-- The number of lines is one more than the number of newlines. -/
def Document.lineCount (doc : Document) : Nat := doc.index.lineCount

/-- The line with a given number, where the first line has number one, without the
newline behind it and without carriage returns at its end. -/
def Document.line? (doc : Document) (number : Nat) : Option (List Char) :=
  doc.index.line? number

/-- What the caret line of an excerpt underlines: the line where the stretch
starts, trimmed and moved in by four columns, and a caret below each column. -/
def excerptOfLine (line : List Char) (span : Span) : String :=
  let trimmed := trimLeft line
  let indent := line.length - trimmed.length
  let offset := span.start.column - 1 - indent
  String.ofList <|
    "    ".toList ++ trimRight trimmed ++ "\n    ".toList
      ++ List.replicate offset ' ' ++ List.replicate span.width '^'

/-- The excerpt of a document that points at a stretch of it. -/
def Document.excerpt (doc : Document) (span : Span) : String :=
  match doc.line? span.start.line with
  | none => "<invalid line number>"
  | some line => excerptOfLine line span

end MiniLang
