/-
The tree of a program: declarations, statements and expressions.
-/
import MiniLang.Symbol

namespace MiniLang

/-- A name in a program, and the symbol that it was found to stand for. -/
structure Ident where
  name : String
  span : Span
  symbol : Option Symbol
deriving Repr, DecidableEq

/-- A type as it is written. -/
inductive TypeNode where
  | int
  | bool
  | void
  | struct (id : Ident)
deriving Repr, DecidableEq

def TypeNode.type : TypeNode → Ty
  | .int => .int
  | .bool => .bool
  | .void => .void
  | .struct id => .struct id.name

/-- The operators in front of one operand. -/
inductive UnaryOp where
  | neg
  | not
deriving Repr, DecidableEq

def UnaryOp.punct : UnaryOp → Punct
  | .neg => .minus
  | .not => .bang

theorem UnaryOp.punct_ne_dot (op : UnaryOp) : op.punct ≠ .dot := by
  cases op <;> decide

/-- The operators between two operands. -/
inductive BinaryOp where
  | plus
  | minus
  | times
  | divide
  | and
  | or
  | equals
  | notEquals
  | less
  | greater
  | lessEq
  | greaterEq
deriving Repr, DecidableEq

def BinaryOp.punct : BinaryOp → Punct
  | .plus => .plus
  | .minus => .minus
  | .times => .star
  | .divide => .slash
  | .and => .andAnd
  | .or => .orOr
  | .equals => .equalEqual
  | .notEquals => .bangEqual
  | .less => .less
  | .greater => .greater
  | .lessEq => .lessEqual
  | .greaterEq => .greaterEqual

theorem BinaryOp.punct_ne_dot (op : BinaryOp) : op.punct ≠ .dot := by
  cases op <;> decide

inductive Expr where
  | int (span : Span) (value : Int)
  | str (span : Span) (text : String)
  | bool (span : Span) (value : Bool)
  | name (id : Ident)
  | dot (loc : Expr) (field : Ident)
  | assign (lhs rhs : Expr)
  | call (callee : Ident) (args : List Expr)
  | unary (op : UnaryOp) (operand : Expr)
  | binary (op : BinaryOp) (lhs rhs : Expr)

/-- Where an expression is said to be: at the name or literal it is built around,
which is the field of an access, the callee of a call, the operand of a unary
operator and the left operand of any other. -/
def Expr.span : Expr → Span
  | .int span _ => span
  | .str span _ => span
  | .bool span _ => span
  | .name id => id.span
  | .dot _ field => field.span
  | .assign lhs _ => lhs.span
  | .call callee _ => callee.span
  | .unary _ operand => operand.span
  | .binary _ lhs _ => lhs.span

/-- Whether an expression names a place to store into: a name or a field. -/
def Expr.isLocation : Expr → Bool
  | .name _ => true
  | .dot _ _ => true
  | _ => false

/-- A parameter of a function. -/
structure Formal where
  type : TypeNode
  id : Ident
deriving Repr, DecidableEq

mutual

inductive Decl where
  | var (type : TypeNode) (id : Ident)
  | func (result : TypeNode) (id : Ident) (formals : List Formal) (body : Block)
  | struct (id : Ident) (fields : List Decl)

/-- Declarations and the statements behind them. -/
inductive Block where
  | mk (decls : List Decl) (stmts : List Stmt)

inductive Stmt where
  | assign (expr : Expr)
  | inc (loc : Expr)
  | dec (loc : Expr)
  | read (loc : Expr)
  | write (expr : Expr)
  | ifThen (cond : Expr) (body : Block)
  | ifElse (cond : Expr) (thenBody elseBody : Block)
  | while_ (cond : Expr) (body : Block)
  | call (callee : Ident) (args : List Expr)
  | ret (value : Option Expr)

end

def Decl.id : Decl → Ident
  | .var _ id => id
  | .func _ id _ _ => id
  | .struct id _ => id

structure Program where
  decls : List Decl

end MiniLang
