/-
Painting: how a text is coloured for a terminal.

A terminal takes up a style at a code and drops every style at the reset code. A
painted text keeps its style to its end, whatever resets it holds.
-/
import MiniLang.Report.Diagnostic

namespace MiniLang

/-- The code at which a terminal drops every style. -/
def resetCode : List Char := ['\x1b', '[', '0', 'm']

/-- The code of the style of a severity: bold and red for errors, bold and yellow
for warnings. -/
def Severity.styleCode : Severity → List Char
  | .error => ['\x1b', '[', '1', ';', '3', '1', 'm']
  | .warning => ['\x1b', '[', '1', ';', '3', '3', 'm']

/-- A text in which the code of a style follows every reset code. -/
def restyle (style : List Char) : List Char → List Char
  | '\x1b' :: '[' :: '0' :: 'm' :: rest =>
      resetCode ++ style ++ restyle style rest
  | c :: rest => c :: restyle style rest
  | [] => []

/-- The painter of a terminal: it gives a text the style of its severity, if colours are
wanted. -/
def paint (colored : Bool) : Painter := fun severity text =>
  if colored then
    let style := severity.styleCode
    String.ofList (style ++ restyle style text.toList ++ resetCode)
  else text

def Diagnostic.render (diagnostic : Diagnostic) (doc : Document) (colored : Bool) :
    String :=
  diagnostic.renderWith (paint colored) doc

def TableError.render (reason : TableError) (colored : Bool) : String :=
  reason.renderWith (paint colored)

end MiniLang
