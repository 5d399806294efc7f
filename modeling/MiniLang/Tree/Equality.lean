/-
Equality of trees, spans and linked symbols included, as a computation.
-/
import MiniLang.Tree.Basic

namespace MiniLang

mutual

/-- Whether two expressions are the same tree. -/
def Expr.same : Expr → Expr → Bool
  | .int span value, .int span' value' => span == span' && value == value'
  | .str span text, .str span' text' => span == span' && text == text'
  | .bool span value, .bool span' value' => span == span' && value == value'
  | .name id, .name id' => id == id'
  | .dot loc field, .dot loc' field' => loc.same loc' && field == field'
  | .assign lhs rhs, .assign lhs' rhs' => lhs.same lhs' && rhs.same rhs'
  | .call callee args, .call callee' args' =>
      callee == callee' && Expr.sameList args args'
  | .unary op operand, .unary op' operand' => op == op' && operand.same operand'
  | .binary op lhs rhs, .binary op' lhs' rhs' =>
      op == op' && lhs.same lhs' && rhs.same rhs'
  | _, _ => false

def Expr.sameList : List Expr → List Expr → Bool
  | [], [] => true
  | expr :: rest, expr' :: rest' => expr.same expr' && Expr.sameList rest rest'
  | _, _ => false

end

mutual

theorem Expr.same_iff (left right : Expr) :
    left.same right = true ↔ left = right := by
  cases left with
  | dot loc field =>
      cases right <;> simp [Expr.same, Expr.same_iff loc]
  | assign lhs rhs =>
      cases right <;> simp [Expr.same, Expr.same_iff lhs, Expr.same_iff rhs]
  | call callee args =>
      cases right <;> simp [Expr.same, Expr.sameList_iff args]
  | unary op operand =>
      cases right <;> simp [Expr.same, Expr.same_iff operand]
  | binary op lhs rhs =>
      cases right <;>
        simp [Expr.same, Expr.same_iff lhs, Expr.same_iff rhs, and_assoc]
  | _ => cases right <;> simp [Expr.same]

theorem Expr.sameList_iff (left right : List Expr) :
    Expr.sameList left right = true ↔ left = right := by
  cases left with
  | nil => cases right <;> simp [Expr.sameList]
  | cons expr rest =>
      cases right <;>
        simp [Expr.sameList, Expr.same_iff expr, Expr.sameList_iff rest]

end

instance : DecidableEq Expr := fun left right =>
  decidable_of_iff _ (Expr.same_iff left right)

mutual

def Decl.same : Decl → Decl → Bool
  | .var type id, .var type' id' => type == type' && id == id'
  | .func result id formals body, .func result' id' formals' body' =>
      result == result' && id == id' && formals == formals' && body.same body'
  | .struct id fields, .struct id' fields' =>
      id == id' && Decl.sameList fields fields'
  | _, _ => false

def Decl.sameList : List Decl → List Decl → Bool
  | [], [] => true
  | decl :: rest, decl' :: rest' => decl.same decl' && Decl.sameList rest rest'
  | _, _ => false

def Block.same : Block → Block → Bool
  | .mk decls stmts, .mk decls' stmts' =>
      Decl.sameList decls decls' && Stmt.sameList stmts stmts'

def Stmt.same : Stmt → Stmt → Bool
  | .assign expr, .assign expr' => expr == expr'
  | .inc loc, .inc loc' => loc == loc'
  | .dec loc, .dec loc' => loc == loc'
  | .read loc, .read loc' => loc == loc'
  | .write expr, .write expr' => expr == expr'
  | .ifThen cond body, .ifThen cond' body' => cond == cond' && body.same body'
  | .ifElse cond body other, .ifElse cond' body' other' =>
      cond == cond' && body.same body' && other.same other'
  | .while_ cond body, .while_ cond' body' => cond == cond' && body.same body'
  | .call callee args, .call callee' args' => callee == callee' && args == args'
  | .ret value, .ret value' => value == value'
  | _, _ => false

def Stmt.sameList : List Stmt → List Stmt → Bool
  | [], [] => true
  | stmt :: rest, stmt' :: rest' => stmt.same stmt' && Stmt.sameList rest rest'
  | _, _ => false

end

mutual

theorem Decl.same_iff (left right : Decl) :
    left.same right = true ↔ left = right := by
  cases left with
  | var type id => cases right <;> simp [Decl.same]
  | func result id formals body =>
      cases right <;> simp [Decl.same, Block.same_iff body, and_assoc]
  | struct id fields =>
      cases right <;> simp [Decl.same, Decl.sameList_iff fields]

theorem Decl.sameList_iff (left right : List Decl) :
    Decl.sameList left right = true ↔ left = right := by
  cases left with
  | nil => cases right <;> simp [Decl.sameList]
  | cons decl rest =>
      cases right <;>
        simp [Decl.sameList, Decl.same_iff decl, Decl.sameList_iff rest]

theorem Block.same_iff (left right : Block) :
    left.same right = true ↔ left = right := by
  cases left with
  | mk decls stmts =>
      cases right
      simp [Block.same, Decl.sameList_iff decls, Stmt.sameList_iff stmts]

theorem Stmt.same_iff (left right : Stmt) :
    left.same right = true ↔ left = right := by
  cases left with
  | ifThen cond body =>
      cases right <;> simp [Stmt.same, Block.same_iff body]
  | ifElse cond body other =>
      cases right <;>
        simp [Stmt.same, Block.same_iff body, Block.same_iff other, and_assoc]
  | while_ cond body =>
      cases right <;> simp [Stmt.same, Block.same_iff body]
  | _ => cases right <;> simp [Stmt.same]

theorem Stmt.sameList_iff (left right : List Stmt) :
    Stmt.sameList left right = true ↔ left = right := by
  cases left with
  | nil => cases right <;> simp [Stmt.sameList]
  | cons stmt rest =>
      cases right <;>
        simp [Stmt.sameList, Stmt.same_iff stmt, Stmt.sameList_iff rest]

end

instance : DecidableEq Decl := fun left right =>
  decidable_of_iff _ (Decl.same_iff left right)

instance : DecidableEq Block := fun left right =>
  decidable_of_iff _ (Block.same_iff left right)

instance : DecidableEq Stmt := fun left right =>
  decidable_of_iff _ (Stmt.same_iff left right)

deriving instance DecidableEq for Program

end MiniLang
