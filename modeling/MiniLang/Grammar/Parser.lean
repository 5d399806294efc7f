/-
Parsers: steps over the remaining tokens that either answer or fail, and that stop
somewhere in either case.

Repetition and nesting both go through one fixed point, which is the parser that
its body describes as long as the body makes progress before it comes back to
itself.
-/
import MiniLang.Grammar.SyntaxError

namespace MiniLang

/-- A parser takes tokens from the front of a list. When it fails, the list is left
as it stood at that moment. -/
abbrev Parser := EStateM SyntaxError (List Token)

variable {α β : Type}

/-- The next token. Behind the last one there is only the end of the file. -/
def nextToken (tokens : List Token) : Token :=
  tokens.headD (Token.eofAt .origin)

/-- The tokens behind the next one. The end of the file is never passed. -/
def afterNext : List Token → List Token
  | [] => []
  | token :: rest => if token.isEof then token :: rest else rest

def Parser.peek : Parser Token := return nextToken (← get)

/-- The kind of the token that stands `offset` places behind the next one. -/
def Parser.peekAt (offset : Nat) : Parser TokenKind :=
  return (nextToken ((← get).drop offset)).kind

def Parser.advance : Parser Unit := modify afterNext

def Parser.failHere (fault : SyntaxFault) : Parser α := do
  throw ⟨fault, (← Parser.peek).span⟩

def Parser.unexpected (wanted : Wanted) : Parser α := do
  Parser.failHere (.expected wanted (← Parser.peek).kind)

def Parser.sees (mark : Punct) : Parser Bool :=
  return (← Parser.peek).kind == .punct mark

/-- Take a certain mark if it comes next, and say whether it did. -/
def Parser.accept (mark : Punct) : Parser Bool := do
  if ← Parser.sees mark then
    Parser.advance
    return true
  else return false

def Parser.expect (mark : Punct) (context : String) : Parser Unit := do
  if ← Parser.sees mark then Parser.advance
  else Parser.unexpected (.mark mark context)

/-- The parser that `body` describes in terms of itself, up to a number of uses of
itself inside each other. -/
def Parser.nested (body : Parser α → Parser α) :
    Nat → List Token → EStateM.Result SyntaxError (List Token) α
  | 0, tokens => body (throw ⟨.tooDeep, .point .origin⟩) tokens
  | depth + 1, tokens => body (Parser.nested body depth) tokens

/-- The parser that `body` describes in terms of itself. Uses inside each other
that all make progress are never more than there are tokens. -/
def Parser.fix (body : Parser α → Parser α) : Parser α := fun tokens =>
  Parser.nested body tokens.length tokens

/-- One round of a repetition: a step, and the rounds behind it unless the step
answers that there is nothing more. -/
def Parser.round (step : Parser (Option α)) (more : Parser (List α)) :
    Parser (List α) := do
  match ← step with
  | none => return []
  | some item => return item :: (← more)

/-- Repeat a step until it answers that there is nothing more. -/
def Parser.collect (step : Parser (Option α)) : Parser (List α) :=
  Parser.fix (Parser.round step)

/-- If the next token is chosen, take it and go on with what it was chosen for. -/
def Parser.after? (choose : TokenKind → Option β) (item : β → Parser α) :
    Parser (Option α) := do
  match choose (← Parser.peek).kind with
  | none => return none
  | some choice =>
      Parser.advance
      return some (← item choice)

def chooseMark (mark : Punct) (kind : TokenKind) : Option Unit :=
  if kind = .punct mark then some () else none

/-- One item or more, with a comma between two of them. -/
def Parser.commaSeparated (item : Parser α) : Parser (List α) := do
  let first ← item
  let others ← Parser.collect (Parser.after? (chooseMark .comma) fun _ => item)
  return first :: others

/-- Any number of items between parentheses, with a comma between two of them. -/
def Parser.parenthesized (opening closing : String) (item : Parser α) :
    Parser (List α) := do
  Parser.expect .leftParen opening
  let items ← if ← Parser.sees .rightParen then pure []
    else Parser.commaSeparated item
  Parser.expect .rightParen closing
  return items

end MiniLang
