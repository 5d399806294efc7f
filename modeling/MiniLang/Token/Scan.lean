/-
The tokens and the issues of a text: its pieces in their places.
-/
import MiniLang.Token.Piece

namespace MiniLang

/-- A piece with the place of its first character. -/
structure PlacedPiece where
  piece : Piece
  start : Position
deriving Repr, DecidableEq

/-- Put pieces behind each other, the first one at `start`. -/
def placePieces (start : Position) : List Piece → List PlacedPiece
  | [] => []
  | piece :: rest =>
      ⟨piece, start⟩ :: placePieces (start.after piece.text) rest

def PlacedPiece.token? (placed : PlacedPiece) : Option Token :=
  placed.piece.kind.token?.map fun kind =>
    ⟨kind, String.ofList placed.piece.text, placed.start⟩

/-- The issue of a piece, over all its characters. -/
def PlacedPiece.issue? (placed : PlacedPiece) : Option ScanIssue :=
  placed.piece.kind.fault?.map fun fault =>
    ⟨fault, Span.ofLength placed.start placed.piece.text.length⟩

/-- A text that is being scanned: what is left of it, where that starts, and the
issues met so far. -/
structure Scanner where
  rest : List Char
  place : Position
  issues : List ScanIssue
deriving Repr

def Scanner.ofText (text : String) : Scanner :=
  ⟨text.toList, .origin, []⟩

/-- All tokens of what is left, and the end of the file behind them. Nothing is
left afterwards. -/
def Scanner.readAll (scanner : Scanner) : List Token × Scanner :=
  let placed := placePieces scanner.place (pieces scanner.rest)
  let stop := scanner.place.after scanner.rest
  (placed.filterMap PlacedPiece.token? ++ [Token.eofAt stop],
    ⟨[], stop, scanner.issues ++ placed.filterMap PlacedPiece.issue?⟩)

/-- The tokens and the issues of a text. -/
structure Scan where
  tokens : List Token
  issues : List ScanIssue
deriving Repr, DecidableEq

def scan (text : String) : Scan :=
  let outcome := (Scanner.ofText text).readAll
  ⟨outcome.1, outcome.2.issues⟩

end MiniLang
