/-
The words of the language: reserved words, operators and punctuation, names and
literals, and the tokens that carry them.
-/
import MiniLang.Source.Span

namespace MiniLang

inductive Keyword where
  | bool
  | int
  | void
  | true_
  | false_
  | struct
  | cin
  | cout
  | if_
  | else_
  | while_
  | return_
deriving Repr, DecidableEq

def Keyword.all : List Keyword :=
  [.bool, .int, .void, .true_, .false_, .struct, .cin, .cout, .if_, .else_,
    .while_, .return_]

def Keyword.spelling : Keyword → String
  | .bool => "bool"
  | .int => "int"
  | .void => "void"
  | .true_ => "true"
  | .false_ => "false"
  | .struct => "struct"
  | .cin => "cin"
  | .cout => "cout"
  | .if_ => "if"
  | .else_ => "else"
  | .while_ => "while"
  | .return_ => "return"

def Keyword.ofSpelling? (word : String) : Option Keyword :=
  Keyword.all.find? (·.spelling == word)

theorem Keyword.ofSpelling?_spelling (keyword : Keyword) :
    Keyword.ofSpelling? keyword.spelling = some keyword := by
  cases keyword <;> rfl

/-- Operators and punctuation. -/
inductive Punct where
  | leftBrace
  | rightBrace
  | leftParen
  | rightParen
  | semicolon
  | comma
  | dot
  | plus
  | minus
  | star
  | slash
  | bang
  | less
  | greater
  | equal
  | writeOp
  | readOp
  | plusPlus
  | minusMinus
  | andAnd
  | orOr
  | equalEqual
  | bangEqual
  | lessEqual
  | greaterEqual
deriving Repr, DecidableEq

/-- The operators and punctuation of two characters. -/
def Punct.doubles : List Punct :=
  [.writeOp, .readOp, .plusPlus, .minusMinus, .andAnd, .orOr, .equalEqual,
    .bangEqual, .lessEqual, .greaterEqual]

/-- The operators and punctuation of one character. -/
def Punct.singles : List Punct :=
  [.leftBrace, .rightBrace, .leftParen, .rightParen, .semicolon, .comma, .dot,
    .plus, .minus, .star, .slash, .bang, .less, .greater, .equal]

def Punct.spelling : Punct → String
  | .leftBrace => "\x7b"
  | .rightBrace => "\x7d"
  | .leftParen => "("
  | .rightParen => ")"
  | .semicolon => ";"
  | .comma => ","
  | .dot => "."
  | .plus => "+"
  | .minus => "-"
  | .star => "*"
  | .slash => "/"
  | .bang => "!"
  | .less => "<"
  | .greater => ">"
  | .equal => "="
  | .writeOp => "<<"
  | .readOp => ">>"
  | .plusPlus => "++"
  | .minusMinus => "--"
  | .andAnd => "&&"
  | .orOr => "||"
  | .equalEqual => "=="
  | .bangEqual => "!="
  | .lessEqual => "<="
  | .greaterEqual => ">="

/-- The longest operator or punctuation mark that a text starts with. -/
def Punct.longest? (text : List Char) : Option Punct :=
  (Punct.doubles ++ Punct.singles).find? fun punct =>
    punct.spelling.toList.isPrefixOf text

theorem Punct.isPrefixOf_of_longest? {text : List Char} {punct : Punct}
    (h : Punct.longest? text = some punct) :
    punct.spelling.toList.isPrefixOf text = true :=
  List.find?_some (p := fun punct : Punct =>
    punct.spelling.toList.isPrefixOf text) h

/-- What a token says. -/
inductive TokenKind where
  | keyword (word : Keyword)
  | punct (mark : Punct)
  | ident (name : String)
  | int (value : Int)
  | str (text : String)
  | eof
deriving Repr, DecidableEq

/-- How a token of this kind is written. The end of the file is written `EOF`. -/
def TokenKind.spelling : TokenKind → String
  | .keyword word => word.spelling
  | .punct mark => mark.spelling
  | .ident name => name
  | .int value => toString value
  | .str text => text
  | .eof => "EOF"

/-- A text between backquotes. -/
def quoted (text : String) : String := "\x60" ++ text ++ "\x60"

/-- What a message calls a token of this kind. -/
def TokenKind.describe : TokenKind → String
  | .ident name => "identifier " ++ quoted name
  | .int value => "integer literal " ++ quoted (toString value)
  | .str text => "string literal " ++ text
  | .eof => "end of file"
  | kind => quoted kind.spelling

/-- A word of a text, with the characters it is written with and the place of the
first one. -/
structure Token where
  kind : TokenKind
  lexeme : String
  start : Position
deriving Repr, DecidableEq

/-- The number of characters a token is written with. -/
def Token.length (token : Token) : Nat := token.lexeme.length

def Token.span (token : Token) : Span :=
  Span.ofLength token.start token.length

/-- The token behind all others, at a given place. -/
def Token.eofAt (place : Position) : Token := ⟨.eof, "", place⟩

def Token.isEof (token : Token) : Bool := token.kind == .eof

/-- A token is listed as its spelling, line and column. -/
def Token.render (token : Token) : String :=
  token.kind.spelling ++ " : " ++ toString token.start.line ++ " : "
    ++ toString token.start.column

end MiniLang
