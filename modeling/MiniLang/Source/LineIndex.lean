/-
A text with the byte offsets at which its lines start, so that a line is a slice of the
text.
-/
import MiniLang.Text.Blank

namespace MiniLang

/-- The byte offsets behind the newlines of a text whose first character is at
`offset`. -/
def offsetsBehindNewlines (offset : Nat) : List Char → List Nat
  | [] => []
  | c :: rest =>
      let more := offsetsBehindNewlines (offset + c.utf8Size) rest
      if c = '\n' then (offset + 1) :: more else more

/-- A stretch of the bytes of a text. The byte at `stop` is behind it. -/
structure ByteRange where
  start : String.Pos.Raw
  stop : String.Pos.Raw
deriving Repr, DecidableEq

/-- Whether a stretch of bytes is made up of whole characters of a text. -/
def ByteRange.fits (range : ByteRange) (text : String) : Bool :=
  range.start ≤ range.stop && range.start.isValid text && range.stop.isValid text

/-- A text, and the byte offsets where its lines start. -/
structure LineIndex where
  text : String
  starts : List Nat
deriving Repr, DecidableEq

/-- The index of a text that is empty. It has one line. -/
def LineIndex.empty : LineIndex := ⟨"", [0]⟩

/-- Index another text in place of the one before. -/
def LineIndex.setText (index : LineIndex) (text : String) : LineIndex :=
  { index with text := text, starts := 0 :: offsetsBehindNewlines 0 text.toList }

def LineIndex.lineCount (index : LineIndex) : Nat := index.starts.length

/-- Where a line is, where the first one has number one. It reaches to the start of the
next line, and the last one to the end of the text. -/
def LineIndex.range? (index : LineIndex) : Nat → Option ByteRange
  | 0 => none
  | n + 1 => index.starts[n]?.map fun start =>
      ⟨⟨start⟩, ⟨index.starts[n + 1]?.getD index.text.utf8ByteSize⟩⟩

/-- The text in a stretch of bytes. There is none unless the stretch fits. -/
def LineIndex.slice? (index : LineIndex) (range : ByteRange) : Option String :=
  if range.fits index.text then some (range.start.extract index.text range.stop)
  else none

/-- The line with a given number, without the newlines and carriage returns at its
end. -/
def LineIndex.line? (index : LineIndex) (number : Nat) : Option (List Char) := do
  let range ← index.range? number
  let slice ← index.slice? range
  return dropRightWhile (fun c => c == '\n' || c == '\r') slice.toList

end MiniLang
