/-
The grammar of expressions.
-/
import MiniLang.Grammar.Parser
import MiniLang.Tree.Basic

namespace MiniLang

def Parser.ident : Parser Ident := do
  let token ← Parser.peek
  match token.kind with
  | .ident name =>
      Parser.advance
      return ⟨name, token.span, none⟩
  | _ => Parser.unexpected .identifier

/-- A name, or a field of a location. -/
def Parser.loc : Parser Expr := do
  let id ← Parser.ident
  let fields ← Parser.collect
    (Parser.after? (chooseMark .dot) fun _ => Parser.ident)
  return fields.foldl .dot (.name id)

def Parser.call (expr : Parser Expr) : Parser Expr := do
  let callee ← Parser.ident
  let args ← Parser.parenthesized "after function name" "after call arguments" expr
  return .call callee args

/-- A literal, a call, a location, or an expression in parentheses. -/
def Parser.term (expr : Parser Expr) : Parser Expr := do
  let token ← Parser.peek
  match token.kind with
  | .int value =>
      Parser.advance
      return .int token.span value
  | .str text =>
      Parser.advance
      return .str token.span text
  | .keyword .true_ =>
      Parser.advance
      return .bool token.span true
  | .keyword .false_ =>
      Parser.advance
      return .bool token.span false
  | .punct .leftParen =>
      Parser.advance
      let inner ← expr
      Parser.expect .rightParen "after parenthesized expression"
      return inner
  | .ident _ =>
      if (← Parser.peekAt 1) = .punct .leftParen then Parser.call expr
      else Parser.loc
  | found => Parser.failHere (.expectedExpression found)

def chooseUnary : TokenKind → Option UnaryOp
  | .punct .bang => some .not
  | .punct .minus => some .neg
  | _ => none

theorem chooseUnary_eq_some_iff {kind : TokenKind} {op : UnaryOp} :
    chooseUnary kind = some op ↔
      kind = .punct .bang ∧ op = .not ∨ kind = .punct .minus ∧ op = .neg := by
  rw [chooseUnary.eq_def]
  split <;> simp_all [eq_comm]

theorem punct_of_chooseUnary {kind : TokenKind} {op : UnaryOp}
    (h : chooseUnary kind = some op) : kind = .punct op.punct := by
  rcases chooseUnary_eq_some_iff.mp h with ⟨rfl, rfl⟩ | ⟨rfl, rfl⟩ <;> rfl

/-- The operators that bind closest. -/
def chooseMultiplicative : TokenKind → Option BinaryOp
  | .punct .star => some .times
  | .punct .slash => some .divide
  | _ => none

theorem chooseMultiplicative_eq_some_iff {kind : TokenKind} {op : BinaryOp} :
    chooseMultiplicative kind = some op ↔
      kind = .punct .star ∧ op = .times ∨
      kind = .punct .slash ∧ op = .divide := by
  rw [chooseMultiplicative.eq_def]
  split <;> simp_all [eq_comm]

/-- The operators that bind next to closest. -/
def chooseAdditive : TokenKind → Option BinaryOp
  | .punct .plus => some .plus
  | .punct .minus => some .minus
  | _ => none

theorem chooseAdditive_eq_some_iff {kind : TokenKind} {op : BinaryOp} :
    chooseAdditive kind = some op ↔
      kind = .punct .plus ∧ op = .plus ∨
      kind = .punct .minus ∧ op = .minus := by
  rw [chooseAdditive.eq_def]
  split <;> simp_all [eq_comm]

def chooseRelational : TokenKind → Option BinaryOp
  | .punct .equalEqual => some .equals
  | .punct .bangEqual => some .notEquals
  | .punct .less => some .less
  | .punct .greater => some .greater
  | .punct .lessEqual => some .lessEq
  | .punct .greaterEqual => some .greaterEq
  | _ => none

theorem chooseRelational_eq_some_iff {kind : TokenKind} {op : BinaryOp} :
    chooseRelational kind = some op ↔
      kind = .punct .equalEqual ∧ op = .equals ∨
      kind = .punct .bangEqual ∧ op = .notEquals ∨
      kind = .punct .less ∧ op = .less ∨
      kind = .punct .greater ∧ op = .greater ∨
      kind = .punct .lessEqual ∧ op = .lessEq ∨
      kind = .punct .greaterEqual ∧ op = .greaterEq := by
  rw [chooseRelational.eq_def]
  split <;> simp_all [eq_comm]

theorem punct_of_chooseRelational {kind : TokenKind} {op : BinaryOp}
    (h : chooseRelational kind = some op) : kind = .punct op.punct := by
  rcases chooseRelational_eq_some_iff.mp h with
    ⟨rfl, rfl⟩ | ⟨rfl, rfl⟩ | ⟨rfl, rfl⟩ | ⟨rfl, rfl⟩ | ⟨rfl, rfl⟩ | ⟨rfl, rfl⟩ <;> rfl

def chooseAnd : TokenKind → Option BinaryOp
  | .punct .andAnd => some .and
  | _ => none

theorem chooseAnd_eq_some_iff {kind : TokenKind} {op : BinaryOp} :
    chooseAnd kind = some op ↔
      kind = .punct .andAnd ∧ op = .and := by
  rw [chooseAnd.eq_def]
  split <;> simp_all [eq_comm]

def chooseOr : TokenKind → Option BinaryOp
  | .punct .orOr => some .or
  | _ => none

theorem chooseOr_eq_some_iff {kind : TokenKind} {op : BinaryOp} :
    chooseOr kind = some op ↔
      kind = .punct .orOr ∧ op = .or := by
  rw [chooseOr.eq_def]
  split <;> simp_all [eq_comm]

/-- Operands with operators of one rank between them, grouped from the left. -/
def Parser.chain (choose : TokenKind → Option BinaryOp) (operand : Parser Expr) :
    Parser Expr := do
  let first ← operand
  let others ← Parser.collect
    (Parser.after? choose fun op => return (op, ← operand))
  return others.foldl (fun lhs other => .binary other.1 lhs other.2) first

def Parser.unary (expr : Parser Expr) : Parser Expr := do
  let ops ← Parser.collect (Parser.after? chooseUnary pure)
  return ops.foldr .unary (← Parser.term expr)

def Parser.multiplicative (expr : Parser Expr) : Parser Expr :=
  Parser.chain chooseMultiplicative (Parser.unary expr)

def Parser.additive (expr : Parser Expr) : Parser Expr :=
  Parser.chain chooseAdditive (Parser.multiplicative expr)

/-- One comparison at most: the operators that compare do not chain. -/
def Parser.relational (expr : Parser Expr) : Parser Expr := do
  let lhs ← Parser.additive expr
  match ← Parser.after? chooseRelational fun op =>
      return (op, ← Parser.additive expr) with
  | none => return lhs
  | some (op, rhs) =>
      if (chooseRelational (← Parser.peek).kind).isSome then
        Parser.failHere .chainedComparison
      else return .binary op lhs rhs

def Parser.conjunction (expr : Parser Expr) : Parser Expr :=
  Parser.chain chooseAnd (Parser.relational expr)

def Parser.disjunction (expr : Parser Expr) : Parser Expr :=
  Parser.chain chooseOr (Parser.conjunction expr)

/-- An expression in terms of the expressions inside it. Assignments group from the
right, and only a location can be assigned to. -/
def Parser.assignment (expr : Parser Expr) : Parser Expr := do
  let lhs ← Parser.disjunction expr
  let token ← Parser.peek
  if token.kind = .punct .equal then
    Parser.advance
    if lhs.isLocation then return .assign lhs (← expr)
    else throw ⟨.notAssignable, token.span⟩
  else return lhs

def Parser.expr : Parser Expr := Parser.fix Parser.assignment

end MiniLang
