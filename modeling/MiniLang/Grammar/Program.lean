/-
The grammar of types, declarations, statements and programs.
-/
import MiniLang.Grammar.Expr

namespace MiniLang

def startsType : TokenKind → Bool
  | .keyword .int => true
  | .keyword .bool => true
  | .keyword .void => true
  | .keyword .struct => true
  | _ => false

def Parser.type : Parser TypeNode := do
  match (← Parser.peek).kind with
  | .keyword .int =>
      Parser.advance
      return .int
  | .keyword .bool =>
      Parser.advance
      return .bool
  | .keyword .void =>
      Parser.advance
      return .void
  | .keyword .struct =>
      Parser.advance
      return .struct (← Parser.ident)
  | _ => Parser.unexpected .type

def Parser.endOfVariable : Parser Unit :=
  Parser.expect .semicolon "after variable declaration"

def Parser.varDecl : Parser Decl := do
  let type ← Parser.type
  let id ← Parser.ident
  Parser.endOfVariable
  return .var type id

def Parser.formal : Parser Formal := do
  let type ← Parser.type
  return ⟨type, ← Parser.ident⟩

/-- A field of a struct, unless its body ends here. -/
def Parser.field? : Parser (Option Decl) := do
  let kind := (← Parser.peek).kind
  if kind = .punct .rightBrace then return none
  else if startsType kind then return some (← Parser.varDecl)
  else Parser.unexpected .fieldDeclaration

/-- The fields of a struct, of which there is one at least. -/
def Parser.fields (name : String) : Parser (List Decl) := do
  let fields ← Parser.collect Parser.field?
  if fields.isEmpty then Parser.failHere (.emptyStruct name) else return fields

def Parser.structDecl : Parser Decl := do
  Parser.advance
  let id ← Parser.ident
  Parser.expect .leftBrace "after struct name"
  let fields ← Parser.fields id.name
  Parser.expect .rightBrace "to close struct body"
  Parser.expect .semicolon "after struct declaration"
  return .struct id fields

def Parser.condition : Parser Expr := do
  Parser.expect .leftParen "before condition"
  let cond ← Parser.expr
  Parser.expect .rightParen "after condition"
  return cond

/-- What makes a statement of an expression that starts at `start`: nothing more
behind an assignment or a call, and a step up or down behind a location. -/
def Parser.storeStep (start : Span) : Expr → Parser Stmt
  | .assign lhs rhs => return .assign (.assign lhs rhs)
  | .call callee args => return .call callee args
  | expr =>
      if expr.isLocation then do
        if ← Parser.accept .plusPlus then return .inc expr
        else if ← Parser.accept .minusMinus then return .dec expr
        else Parser.unexpected .storeOperator
      else throw ⟨.notStatement, start⟩

def Parser.exprStmt : Parser Stmt := do
  let token ← Parser.peek
  let expr ← Parser.expr
  let stmt ← Parser.storeStep token.span expr
  Parser.expect .semicolon "after statement"
  return stmt

def Parser.returnValue? : Parser (Option Expr) := do
  if ← Parser.sees .semicolon then return none else return some (← Parser.expr)

/-- A statement in terms of the blocks inside it. -/
def Parser.stmt (block : Parser Block) : Parser Stmt := do
  match (← Parser.peek).kind with
  | .keyword .cin =>
      Parser.advance
      Parser.expect .readOp ("after " ++ quoted Keyword.cin.spelling)
      let loc ← Parser.loc
      Parser.expect .semicolon "after read statement"
      return .read loc
  | .keyword .cout =>
      Parser.advance
      Parser.expect .writeOp ("after " ++ quoted Keyword.cout.spelling)
      let expr ← Parser.expr
      Parser.expect .semicolon "after write statement"
      return .write expr
  | .keyword .if_ =>
      Parser.advance
      let cond ← Parser.condition
      let thenBody ← block
      if (← Parser.peek).kind = .keyword .else_ then
        Parser.advance
        return .ifElse cond thenBody (← block)
      else return .ifThen cond thenBody
  | .keyword .while_ =>
      Parser.advance
      let cond ← Parser.condition
      return .while_ cond (← block)
  | .keyword .return_ =>
      Parser.advance
      let value ← Parser.returnValue?
      Parser.expect .semicolon "after return statement"
      return .ret value
  | _ => Parser.exprStmt

/-- A variable declaration of a block, if one comes next. -/
def Parser.blockVariable? : Parser (Option Decl) := do
  if startsType (← Parser.peek).kind then return some (← Parser.varDecl)
  else return none

def Parser.blockStmt? (block : Parser Block) : Parser (Option Stmt) := do
  let kind := (← Parser.peek).kind
  if kind = .punct .rightBrace then return none
  else if kind = .eof then Parser.unexpected .closingBrace
  else return some (← Parser.stmt block)

/-- A block in terms of the blocks inside it: variables, and statements behind
them. -/
def Parser.blockBody (block : Parser Block) : Parser Block := do
  Parser.expect .leftBrace "to open a block"
  let decls ← Parser.collect Parser.blockVariable?
  let stmts ← Parser.collect (Parser.blockStmt? block)
  Parser.expect .rightBrace "to close a block"
  return .mk decls stmts

def Parser.block : Parser Block := Parser.fix Parser.blockBody

/-- Parameters and body, behind the type and the name of a function. -/
def Parser.functionRest (result : TypeNode) (id : Ident) : Parser Decl := do
  let formals ← Parser.parenthesized "after function name"
    "after formal parameters" Parser.formal
  return .func result id formals (← Parser.block)

/-- Whether a struct type is declared here, and not only used. -/
def Parser.atStructDecl : Parser Bool := do
  match ← Parser.peekAt 1 with
  | .ident _ => return (← Parser.peekAt 2) = .punct .leftBrace
  | _ => return false

/-- A declaration of a program. What starts with a struct type is never a
function. -/
def Parser.decl : Parser Decl := do
  if (← Parser.peek).kind = .keyword .struct then
    if ← Parser.atStructDecl then Parser.structDecl else Parser.varDecl
  else
    let type ← Parser.type
    let id ← Parser.ident
    if ← Parser.sees .leftParen then Parser.functionRest type id
    else
      Parser.endOfVariable
      return .var type id

def Parser.decl? : Parser (Option Decl) := do
  if (← Parser.peek).isEof then return none else return some (← Parser.decl)

def Parser.program : Parser Program :=
  return ⟨← Parser.collect Parser.decl?⟩

/-- Tokens with the end of the file behind them. It is added if it is missing, in
the place behind the last token. -/
def closeTokens (tokens : List Token) : List Token :=
  match tokens.getLast? with
  | none => [Token.eofAt .origin]
  | some last =>
      if last.isEof then tokens
      else tokens ++
        [Token.eofAt ⟨last.start.line, last.start.column + last.length⟩]

def Parser.answer {α : Type} (parser : Parser α) (tokens : List Token) :
    Except SyntaxError α :=
  match parser.run tokens with
  | .ok answer _ => .ok answer
  | .error error _ => .error error

/-- The program that tokens make up. -/
def parseTokens (tokens : List Token) : Except SyntaxError Program :=
  Parser.program.answer (closeTokens tokens)

end MiniLang
