/-
The division of a text into pieces: blanks, comments, tokens and stretches that
are ignored. Pieces follow each other without a gap, and each one is as long as
its kind allows.
-/
import MiniLang.Token.Basic
import MiniLang.Token.Fault

namespace MiniLang

/-- The largest value of an integer literal. -/
def maxInt : Int := 2147483647

/-- What a piece of a text is. A clamped piece is an integer literal above the
largest value, which stands for that value. -/
inductive PieceKind where
  | blank
  | comment
  | token (kind : TokenKind)
  | clamped
  | rejected (fault : ScanFault)
deriving Repr, DecidableEq

/-- A piece of a text, with its characters. -/
structure Piece where
  kind : PieceKind
  text : List Char
deriving Repr, DecidableEq

/-- The characters that only separate: space, tab, carriage return, newline. -/
def isSeparator (c : Char) : Bool :=
  c == ' ' || c == '\t' || c == '\r' || c == '\n'

/-- The characters that a word starts with. -/
def isWordStart (c : Char) : Bool := c.isAlpha || c == '_'

/-- The characters that a word goes on with. -/
def isWordPart (c : Char) : Bool := c.isAlphanum || c == '_'

/-- The characters that may follow a backslash in a string literal. -/
def isEscape (c : Char) : Bool := "nt'\"?\\".toList.contains c

theorem isEscape_eq (c : Char) :
    isEscape c = decide (c ∈ ['n', 't', '\'', '"', '?', '\\']) := by
  rw [isEscape, List.contains_eq_mem]
  rfl

/-- The value of a run of decimal digits. -/
def decimalValue (digits : List Char) : Nat :=
  digits.foldl (fun value digit => 10 * value + (digit.toNat - '0'.toNat)) 0

/-- What follows the opening quote of a string literal: the number of characters
that belong to it, whether the closing quote is the last one of them, and whether
all its escapes are known. -/
structure LiteralTail where
  length : Nat
  closed : Bool
  wellEscaped : Bool
deriving Repr, DecidableEq

/-- The same tail behind `count` more characters. -/
def LiteralTail.extend (tail : LiteralTail) (count : Nat) (known : Bool) :
    LiteralTail :=
  ⟨tail.length + count, tail.closed, known && tail.wellEscaped⟩

/-- Read a string literal from behind its opening quote. It ends behind the first
quote that no backslash consumes, or else in front of the newline. -/
def literalTail : List Char → LiteralTail
  | [] => ⟨0, false, true⟩
  | c :: rest =>
      if c = '\n' then ⟨0, false, true⟩
      else if c = '"' then ⟨1, true, true⟩
      else if c = '\\' then
        match rest with
        | [] => ⟨1, false, false⟩
        | escaped :: rest =>
            if escaped = '\n' then ⟨1, false, false⟩
            else (literalTail rest).extend 2 (isEscape escaped)
      else (literalTail rest).extend 1 true

def wordKind (word : String) : TokenKind :=
  match Keyword.ofSpelling? word with
  | some keyword => .keyword keyword
  | none => .ident word

def numberKind (digits : List Char) : PieceKind :=
  let value : Int := decimalValue digits
  if value ≤ maxInt then .token (.int value) else .clamped

def literalKind (text : List Char) (tail : LiteralTail) : PieceKind :=
  if tail.closed then
    if tail.wellEscaped then .token (.str (String.ofList text))
    else .rejected .badEscape
  else .rejected (.unterminated tail.wellEscaped)

/-- What the text `c :: rest` starts with, and how many characters of `rest`
belong to it. -/
def firstPiece (c : Char) (rest : List Char) : PieceKind × Nat :=
  if isSeparator c then (.blank, 0)
  else if c = '#' ∨ c = '/' ∧ rest.head? = some '/' then
    (.comment, (rest.takeWhile (· != '\n')).length)
  else if c = '"' then
    let tail := literalTail rest
    (literalKind (c :: rest.take tail.length) tail, tail.length)
  else if c.isDigit then
    let digits := rest.takeWhile Char.isDigit
    (numberKind (c :: digits), digits.length)
  else if isWordStart c then
    let word := rest.takeWhile isWordPart
    (.token (wordKind (String.ofList (c :: word))), word.length)
  else
    match Punct.longest? (c :: rest) with
    | some punct => (.token (.punct punct), punct.spelling.length - 1)
    | none => (.rejected (.illegal c), 0)

def pieces : List Char → List Piece
  | [] => []
  | c :: rest =>
      let first := firstPiece c rest
      ⟨first.1, c :: rest.take first.2⟩ :: pieces (rest.drop first.2)
termination_by text => text.length
decreasing_by
  rw [List.length_drop, List.length_cons]
  omega

/-- The pieces of a text make up the text. -/
theorem pieces_text (text : List Char) :
    (pieces text).flatMap Piece.text = text := by
  induction text using pieces.induct with
  | case1 => simp [pieces]
  | case2 c rest first ih =>
      rw [pieces, List.flatMap_cons, ih]
      simp [first]

/-- No piece is empty. -/
theorem text_ne_nil_of_mem_pieces {text : List Char} :
    ∀ piece ∈ pieces text, piece.text ≠ [] := by
  induction text using pieces.induct with
  | case1 => simp [pieces]
  | case2 c rest first ih =>
      intro piece hpiece
      rw [pieces, List.mem_cons] at hpiece
      rcases hpiece with rfl | hpiece
      · exact List.cons_ne_nil _ _
      · exact ih piece hpiece

def PieceKind.token? : PieceKind → Option TokenKind
  | .token kind => some kind
  | .clamped => some (.int maxInt)
  | _ => none

def PieceKind.fault? : PieceKind → Option ScanFault
  | .clamped => some .tooLarge
  | .rejected fault => some fault
  | _ => none

end MiniLang
