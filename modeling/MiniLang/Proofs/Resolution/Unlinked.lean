/-
Trees without their links. Nothing but the links of names is taken away: the names of a
tree are those of the tree without its links, one after the other.
-/
import MiniLang.Proofs.Resolution.Visits
import MiniLang.Tree.Relabel

namespace MiniLang

/-- A name without its link. -/
def Ident.unlinked (id : Ident) : Ident := ⟨id.name, id.span, none⟩

def Expr.unlinked : Expr → Expr := Expr.relabel Ident.unlinked fun span => span

def TypeNode.unlinked : TypeNode → TypeNode := TypeNode.relabel Ident.unlinked

def Formal.unlinked : Formal → Formal := Formal.relabel Ident.unlinked

def Decl.unlinked : Decl → Decl := Decl.relabel Ident.unlinked fun span => span

def Stmt.unlinked : Stmt → Stmt := Stmt.relabel Ident.unlinked fun span => span

def Block.unlinked : Block → Block := Block.relabel Ident.unlinked fun span => span

def Program.unlinked : Program → Program :=
  Program.relabel Ident.unlinked fun span => span

section Shapes

theorem Expr.unlinked_dot (loc : Expr) (field : Ident) :
    (Expr.dot loc field).unlinked = .dot loc.unlinked field.unlinked := rfl

theorem Expr.unlinked_assign (lhs rhs : Expr) :
    (Expr.assign lhs rhs).unlinked = .assign lhs.unlinked rhs.unlinked := rfl

theorem Expr.unlinked_binary (op : BinaryOp) (lhs rhs : Expr) :
    (Expr.binary op lhs rhs).unlinked = .binary op lhs.unlinked rhs.unlinked := rfl

theorem Decl.unlinked_var (type : TypeNode) (id : Ident) :
    (Decl.var type id).unlinked = .var type.unlinked id.unlinked := rfl

theorem Decl.unlinked_func (result : TypeNode) (id : Ident) (formals : List Formal)
    (body : Block) : (Decl.func result id formals body).unlinked =
      .func result.unlinked id.unlinked (formals.map Formal.unlinked) body.unlinked := rfl

theorem Stmt.unlinked_ifThen (cond : Expr) (body : Block) :
    (Stmt.ifThen cond body).unlinked = .ifThen cond.unlinked body.unlinked := rfl

theorem Stmt.unlinked_ifElse (cond : Expr) (thenBody elseBody : Block) :
    (Stmt.ifElse cond thenBody elseBody).unlinked =
      .ifElse cond.unlinked thenBody.unlinked elseBody.unlinked := rfl

theorem Stmt.unlinked_while (cond : Expr) (body : Block) :
    (Stmt.while_ cond body).unlinked = .while_ cond.unlinked body.unlinked := rfl

theorem Stmt.unlinked_call (callee : Ident) (args : List Expr) :
    (Stmt.call callee args).unlinked = .call callee.unlinked (args.map Expr.unlinked) := rfl

theorem Expr.unlinked_call (callee : Ident) (args : List Expr) :
    (Expr.call callee args).unlinked = .call callee.unlinked (args.map Expr.unlinked) := by
  rw [Expr.unlinked, Expr.relabel, Expr.relabelList_eq]

theorem Decl.unlinked_struct (id : Ident) (fields : List Decl) :
    (Decl.struct id fields).unlinked = .struct id.unlinked (fields.map Decl.unlinked) := by
  rw [Decl.unlinked, Decl.relabel, Decl.relabelList_eq]

theorem Block.unlinked_mk (decls : List Decl) (stmts : List Stmt) :
    (Block.mk decls stmts).unlinked =
      .mk (decls.map Decl.unlinked) (stmts.map Stmt.unlinked) := by
  rw [Block.unlinked, Block.relabel, Decl.relabelList_eq, Stmt.relabelList_eq]
  rfl

theorem TypeNode.type_unlinked (type : TypeNode) : type.unlinked.type = type.type := by
  cases type <;> rfl

end Shapes

section Ids

theorem TypeNode.ids_unlinked (type : TypeNode) :
    idsOf type.unlinked.leaves = (idsOf type.leaves).map Ident.unlinked := by
  cases type <;> rfl

theorem ids_unlinked_flatMap {tree : Type} {leavesOf : tree → List Leaf}
    {unlinked : tree → tree} {trees : List tree}
    (h : ∀ one ∈ trees,
      idsOf (leavesOf (unlinked one)) = (idsOf (leavesOf one)).map Ident.unlinked) :
    idsOf ((trees.map unlinked).flatMap leavesOf) =
      (idsOf (trees.flatMap leavesOf)).map Ident.unlinked := by
  induction trees with
  | nil => rfl
  | cons one rest ih =>
      obtain ⟨hone, hrest⟩ := List.forall_mem_cons.mp h
      rw [List.map_cons, List.flatMap_cons, List.flatMap_cons, idsOf_append, idsOf_append,
        List.map_append, hone, ih hrest]

theorem Expr.ids_unlinked (expr : Expr) :
    idsOf expr.unlinked.leaves = (idsOf expr.leaves).map Ident.unlinked := by
  induction expr using Expr.induct with
  | int span value => rfl
  | str span text => rfl
  | bool span value => rfl
  | name id => rfl
  | dot loc field ih =>
      rw [Expr.unlinked_dot, Expr.leaves, Expr.leaves, idsOf_append, idsOf_append, ih,
        List.map_append]
      rfl
  | assign lhs rhs ihlhs ihrhs =>
      rw [Expr.unlinked_assign, Expr.leaves, Expr.leaves, idsOf_append, idsOf_append, ihlhs,
        ihrhs, List.map_append]
  | call callee args ih =>
      rw [Expr.unlinked_call, Expr.leaves, Expr.leaves, Expr.leavesOfList_eq,
        Expr.leavesOfList_eq, idsOf_name, idsOf_name, ids_unlinked_flatMap ih, List.map_cons]
  | unary op operand ih => exact ih
  | binary op lhs rhs ihlhs ihrhs =>
      rw [Expr.unlinked_binary, Expr.leaves, Expr.leaves, idsOf_append, idsOf_append, ihlhs,
        ihrhs, List.map_append]

theorem Formal.ids_unlinked (formal : Formal) :
    idsOf formal.unlinked.leaves = (idsOf formal.leaves).map Ident.unlinked := by
  rw [Formal.unlinked, Formal.relabel, Formal.leaves, Formal.leaves, idsOf_append,
    idsOf_append, List.map_append]
  exact congrArg (· ++ _) formal.type.ids_unlinked

theorem Block.ids_unlinked {decls : List Decl} {stmts : List Stmt}
    (hdecls : ∀ decl ∈ decls,
      idsOf decl.unlinked.leaves = (idsOf decl.leaves).map Ident.unlinked)
    (hstmts : ∀ stmt ∈ stmts,
      idsOf stmt.unlinked.leaves = (idsOf stmt.leaves).map Ident.unlinked) :
    idsOf (Block.mk decls stmts).unlinked.leaves =
      (idsOf (Block.mk decls stmts).leaves).map Ident.unlinked := by
  rw [Block.unlinked_mk, Block.leaves, Block.leaves, Decl.leavesOfList_eq,
    Decl.leavesOfList_eq, Stmt.leavesOfList_eq, Stmt.leavesOfList_eq, idsOf_append,
    idsOf_append, List.map_append, ids_unlinked_flatMap hdecls, ids_unlinked_flatMap hstmts]

/-- The names of a tree without its links are its names without their links. -/
theorem ids_unlinked_both :
    (∀ decl : Decl, idsOf decl.unlinked.leaves = (idsOf decl.leaves).map Ident.unlinked) ∧
    ∀ stmt : Stmt, idsOf stmt.unlinked.leaves = (idsOf stmt.leaves).map Ident.unlinked := by
  apply Stmt.inductBoth
  case var =>
    intro type id
    rw [Decl.unlinked_var, Decl.leaves, Decl.leaves, idsOf_append, idsOf_append,
      List.map_append, TypeNode.ids_unlinked]
    rfl
  case func =>
    intro result id formals decls stmts ihdecls ihstmts
    have hformals := ids_unlinked_flatMap fun formal (_ : formal ∈ formals) =>
      formal.ids_unlinked
    simp only [Decl.unlinked_func, Decl.leaves, idsOf_append, idsOf_name, List.map_append,
      List.map_cons, TypeNode.ids_unlinked, hformals, Block.ids_unlinked ihdecls ihstmts]
  case struct =>
    intro id fields ih
    rw [Decl.unlinked_struct, Decl.leaves, Decl.leaves, Decl.leavesOfList_eq,
      Decl.leavesOfList_eq, idsOf_name, idsOf_name, ids_unlinked_flatMap ih, List.map_cons]
  case assign => exact fun expr => expr.ids_unlinked
  case inc => exact fun loc => loc.ids_unlinked
  case dec => exact fun loc => loc.ids_unlinked
  case read => exact fun loc => loc.ids_unlinked
  case write => exact fun expr => expr.ids_unlinked
  case ifThen =>
    intro cond decls stmts ihdecls ihstmts
    simp only [Stmt.unlinked_ifThen, Stmt.leaves, idsOf_append, List.map_append,
      Expr.ids_unlinked, Block.ids_unlinked ihdecls ihstmts]
  case ifElse =>
    intro cond decls stmts decls' stmts' ihdecls ihstmts ihdecls' ihstmts'
    simp only [Stmt.unlinked_ifElse, Stmt.leaves, idsOf_append, List.map_append,
      Expr.ids_unlinked, Block.ids_unlinked ihdecls ihstmts,
      Block.ids_unlinked ihdecls' ihstmts']
  case while_ =>
    intro cond decls stmts ihdecls ihstmts
    simp only [Stmt.unlinked_while, Stmt.leaves, idsOf_append, List.map_append,
      Expr.ids_unlinked, Block.ids_unlinked ihdecls ihstmts]
  case call =>
    intro callee args
    rw [Stmt.unlinked_call, Stmt.leaves, Stmt.leaves, idsOf_name, idsOf_name,
      ids_unlinked_flatMap fun arg _ => arg.ids_unlinked, List.map_cons]
  case ret =>
    intro value
    cases value with
    | none => rfl
    | some value => exact value.ids_unlinked

theorem Program.ids_unlinked (program : Program) :
    idsOf program.unlinked.leaves = (idsOf program.leaves).map Ident.unlinked :=
  ids_unlinked_flatMap fun decl _ => ids_unlinked_both.1 decl

end Ids

end MiniLang
