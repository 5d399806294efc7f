/-
The leaves of a tree: its names and literals, from the left to the right. A tree can
be given other names and spans, leaf by leaf.
-/
import MiniLang.Tree.Basic

namespace MiniLang

/-- A name or a literal of a tree. -/
inductive Leaf where
  | name (id : Ident)
  | int (span : Span) (value : Int)
  | str (span : Span) (text : String)
  | bool (span : Span) (value : Bool)
deriving Repr, DecidableEq

def Leaf.span : Leaf → Span
  | .name id => id.span
  | .int span _ => span
  | .str span _ => span
  | .bool span _ => span

def Leaf.kind : Leaf → TokenKind
  | .name id => .ident id.name
  | .int _ value => .int value
  | .str _ text => .str text
  | .bool _ value => .keyword (if value then .true_ else .false_)

mutual

def Expr.leaves : Expr → List Leaf
  | .int span value => [.int span value]
  | .str span text => [.str span text]
  | .bool span value => [.bool span value]
  | .name id => [.name id]
  | .dot loc field => loc.leaves ++ [.name field]
  | .assign lhs rhs => lhs.leaves ++ rhs.leaves
  | .call callee args => .name callee :: Expr.leavesOfList args
  | .unary _ operand => operand.leaves
  | .binary _ lhs rhs => lhs.leaves ++ rhs.leaves

def Expr.leavesOfList : List Expr → List Leaf
  | [] => []
  | expr :: rest => expr.leaves ++ Expr.leavesOfList rest

end

@[simp] theorem Expr.leavesOfList_eq (exprs : List Expr) :
    Expr.leavesOfList exprs = exprs.flatMap Expr.leaves := by
  induction exprs with
  | nil => rfl
  | cons expr rest ih => rw [Expr.leavesOfList, ih, List.flatMap_cons]

def TypeNode.leaves : TypeNode → List Leaf
  | .struct id => [.name id]
  | _ => []

def Formal.leaves (formal : Formal) : List Leaf :=
  formal.type.leaves ++ [.name formal.id]

mutual

def Decl.leaves : Decl → List Leaf
  | .var type id => type.leaves ++ [.name id]
  | .func result id formals body =>
      result.leaves ++ .name id :: formals.flatMap Formal.leaves ++ body.leaves
  | .struct id fields => .name id :: Decl.leavesOfList fields

def Decl.leavesOfList : List Decl → List Leaf
  | [] => []
  | decl :: rest => decl.leaves ++ Decl.leavesOfList rest

def Block.leaves : Block → List Leaf
  | .mk decls stmts => Decl.leavesOfList decls ++ Stmt.leavesOfList stmts

def Stmt.leaves : Stmt → List Leaf
  | .assign expr => expr.leaves
  | .inc loc => loc.leaves
  | .dec loc => loc.leaves
  | .read loc => loc.leaves
  | .write expr => expr.leaves
  | .ifThen cond body => cond.leaves ++ body.leaves
  | .ifElse cond thenBody elseBody =>
      cond.leaves ++ thenBody.leaves ++ elseBody.leaves
  | .while_ cond body => cond.leaves ++ body.leaves
  | .call callee args => .name callee :: args.flatMap Expr.leaves
  | .ret none => []
  | .ret (some value) => value.leaves

def Stmt.leavesOfList : List Stmt → List Leaf
  | [] => []
  | stmt :: rest => stmt.leaves ++ Stmt.leavesOfList rest

end

@[simp] theorem Decl.leavesOfList_eq (decls : List Decl) :
    Decl.leavesOfList decls = decls.flatMap Decl.leaves := by
  induction decls with
  | nil => rfl
  | cons decl rest ih => rw [Decl.leavesOfList, ih, List.flatMap_cons]

@[simp] theorem Stmt.leavesOfList_eq (stmts : List Stmt) :
    Stmt.leavesOfList stmts = stmts.flatMap Stmt.leaves := by
  induction stmts with
  | nil => rfl
  | cons stmt rest ih => rw [Stmt.leavesOfList, ih, List.flatMap_cons]

/-- The leaves of a program. -/
def Program.leaves (program : Program) : List Leaf :=
  program.decls.flatMap Decl.leaves

end MiniLang
