/-
Other names and spans for a tree. A tree is compared without its spans by giving both
sides the same ones.
-/
import MiniLang.Tree.Induction
import MiniLang.Tree.Printer

namespace MiniLang

section Relabel

variable (ids : Ident → Ident) (spans : Span → Span)

mutual

/-- An expression with other names and spans. -/
def Expr.relabel : Expr → Expr
  | .int span value => .int (spans span) value
  | .str span text => .str (spans span) text
  | .bool span value => .bool (spans span) value
  | .name id => .name (ids id)
  | .dot loc field => .dot loc.relabel (ids field)
  | .assign lhs rhs => .assign lhs.relabel rhs.relabel
  | .call callee args => .call (ids callee) (Expr.relabelList args)
  | .unary op operand => .unary op operand.relabel
  | .binary op lhs rhs => .binary op lhs.relabel rhs.relabel

def Expr.relabelList : List Expr → List Expr
  | [] => []
  | expr :: rest => expr.relabel :: Expr.relabelList rest

end

@[simp] theorem Expr.relabelList_eq (exprs : List Expr) :
    Expr.relabelList ids spans exprs = exprs.map (Expr.relabel ids spans) := by
  induction exprs with
  | nil => rfl
  | cons expr rest ih => rw [Expr.relabelList, ih, List.map_cons]

def TypeNode.relabel : TypeNode → TypeNode
  | .struct id => .struct (ids id)
  | type => type

def Formal.relabel (formal : Formal) : Formal :=
  ⟨formal.type.relabel ids, ids formal.id⟩

mutual

def Decl.relabel : Decl → Decl
  | .var type id => .var (type.relabel ids) (ids id)
  | .func result id formals body =>
      .func (result.relabel ids) (ids id) (formals.map (Formal.relabel ids))
        body.relabel
  | .struct id fields => .struct (ids id) (Decl.relabelList fields)

def Decl.relabelList : List Decl → List Decl
  | [] => []
  | decl :: rest => decl.relabel :: Decl.relabelList rest

def Block.relabel : Block → Block
  | .mk decls stmts => .mk (Decl.relabelList decls) (Stmt.relabelList stmts)

def Stmt.relabel : Stmt → Stmt
  | .assign expr => .assign (expr.relabel ids spans)
  | .inc loc => .inc (loc.relabel ids spans)
  | .dec loc => .dec (loc.relabel ids spans)
  | .read loc => .read (loc.relabel ids spans)
  | .write expr => .write (expr.relabel ids spans)
  | .ifThen cond body => .ifThen (cond.relabel ids spans) body.relabel
  | .ifElse cond thenBody elseBody =>
      .ifElse (cond.relabel ids spans) thenBody.relabel elseBody.relabel
  | .while_ cond body => .while_ (cond.relabel ids spans) body.relabel
  | .call callee args => .call (ids callee) (args.map (Expr.relabel ids spans))
  | .ret value => .ret (value.map (Expr.relabel ids spans))

def Stmt.relabelList : List Stmt → List Stmt
  | [] => []
  | stmt :: rest => stmt.relabel :: Stmt.relabelList rest

end

@[simp] theorem Decl.relabelList_eq (decls : List Decl) :
    Decl.relabelList ids spans decls = decls.map (Decl.relabel ids spans) := by
  induction decls with
  | nil => rfl
  | cons decl rest ih => rw [Decl.relabelList, ih, List.map_cons]

@[simp] theorem Stmt.relabelList_eq (stmts : List Stmt) :
    Stmt.relabelList ids spans stmts = stmts.map (Stmt.relabel ids spans) := by
  induction stmts with
  | nil => rfl
  | cons stmt rest ih => rw [Stmt.relabelList, ih, List.map_cons]

def Program.relabel (program : Program) : Program :=
  ⟨program.decls.map (Decl.relabel ids spans)⟩

variable {ids} (hids : ∀ id, (ids id).items = id.items)

include hids

/-- Names that are printed alike make no difference to a printed expression. -/
theorem Expr.items_relabel (expr : Expr) (nested : Bool) :
    (expr.relabel ids spans).items nested = expr.items nested := by
  induction expr using Expr.induct generalizing nested with
  | int span value => rfl
  | str span text => rfl
  | bool span value => rfl
  | name id => exact hids id
  | dot loc field ih => simp only [Expr.relabel, Expr.items, ih, hids]
  | assign lhs rhs ihlhs ihrhs => simp only [Expr.relabel, Expr.items, ihlhs, ihrhs]
  | call callee args ih =>
      have hargs : args.map (Expr.items true ∘ Expr.relabel ids spans) =
          args.map (Expr.items true) :=
        List.map_congr_left fun arg harg => ih arg harg true
      simp only [Expr.relabel, Expr.relabelList_eq, Expr.items, Expr.itemsOfArgs_eq,
        List.map_map, hids, hargs]
  | unary op operand ih => simp only [Expr.relabel, Expr.items, ih]
  | binary op lhs rhs ihlhs ihrhs =>
      simp only [Expr.relabel, Expr.items, ihlhs, ihrhs]

theorem TypeNode.items_relabel (type : TypeNode) :
    (type.relabel ids).items = type.items := by
  cases type with
  | struct id => simp only [TypeNode.relabel, TypeNode.items, hids]
  | _ => rfl

theorem printTyped_relabel (type : TypeNode) (id : Ident) :
    printTyped (type.relabel ids) (ids id) = printTyped type id := by
  rw [printTyped, TypeNode.items_relabel hids, hids, printTyped]

omit hids in
theorem Block.items_relabel {decls : List Decl} {stmts : List Stmt}
    (hdecls : ∀ decl ∈ decls, ∀ level,
      (decl.relabel ids spans).items level = decl.items level)
    (hstmts : ∀ stmt ∈ stmts, ∀ level,
      (stmt.relabel ids spans).items level = stmt.items level) (level : Nat) :
    ((Block.mk decls stmts).relabel ids spans).items level =
      (Block.mk decls stmts).items level := by
  have hdeclItems := List.map_congr_left fun decl hdecl => hdecls decl hdecl level
  have hstmtItems := List.map_congr_left fun stmt hstmt => hstmts stmt hstmt level
  simp only [Block.relabel, Decl.relabelList_eq, Stmt.relabelList_eq, Block.items,
    Decl.itemsOfList_eq, Stmt.itemsOfList_eq, List.flatMap_map]
  rw [List.flatMap_def, List.flatMap_def, hdeclItems, hstmtItems, ← List.flatMap_def,
    ← List.flatMap_def]

theorem Stmt.items_relabel_both :
    (∀ decl : Decl, ∀ level, (decl.relabel ids spans).items level = decl.items level) ∧
    ∀ stmt : Stmt, ∀ level, (stmt.relabel ids spans).items level = stmt.items level := by
  have hexpr := Expr.items_relabel spans hids
  apply Stmt.inductBoth
  case var =>
    intro type id level
    simp only [Decl.relabel, Decl.items, printTyped_relabel hids]
  case func =>
    intro result id formals decls stmts ihdecls ihstmts level
    have hparams : formals.map ((fun formal => printTyped formal.type formal.id) ∘
        Formal.relabel ids) =
          formals.map fun formal => printTyped formal.type formal.id :=
      List.map_congr_left fun formal _ => printTyped_relabel hids formal.type formal.id
    simp only [Decl.relabel, Decl.items, printTyped_relabel hids,
      Block.items_relabel spans ihdecls ihstmts, List.map_map, hparams]
  case struct =>
    intro id fields ih level
    have hfields := List.map_congr_left fun field hfield =>
      ih field hfield (level + indentWidth)
    simp only [Decl.relabel, Decl.relabelList_eq, Decl.items, Decl.itemsOfList_eq, hids,
      List.flatMap_map]
    rw [List.flatMap_def, hfields, ← List.flatMap_def]
  case assign =>
    exact fun expr level => by simp only [Stmt.relabel, Stmt.items, hexpr]
  case inc =>
    exact fun loc level => by simp only [Stmt.relabel, Stmt.items, hexpr]
  case dec =>
    exact fun loc level => by simp only [Stmt.relabel, Stmt.items, hexpr]
  case read =>
    exact fun loc level => by simp only [Stmt.relabel, Stmt.items, hexpr]
  case write =>
    exact fun expr level => by simp only [Stmt.relabel, Stmt.items, hexpr]
  case ifThen =>
    intro cond decls stmts ihdecls ihstmts level
    simp only [Stmt.relabel, Stmt.items, printHead, hexpr,
      Block.items_relabel spans ihdecls ihstmts]
  case ifElse =>
    intro cond decls stmts decls' stmts' ihdecls ihstmts ihdecls' ihstmts' level
    simp only [Stmt.relabel, Stmt.items, printHead, hexpr,
      Block.items_relabel spans ihdecls ihstmts,
      Block.items_relabel spans ihdecls' ihstmts']
  case while_ =>
    intro cond decls stmts ihdecls ihstmts level
    simp only [Stmt.relabel, Stmt.items, printHead, hexpr,
      Block.items_relabel spans ihdecls ihstmts]
  case call =>
    intro callee args level
    have hcall := hexpr (.call callee args) true
    simp only [Expr.relabel, Expr.relabelList_eq] at hcall
    simp only [Stmt.relabel, Stmt.items, hcall]
  case ret =>
    intro value level
    cases value with
    | none => rfl
    | some value => simp only [Stmt.relabel, Option.map_some, Stmt.items, hexpr]

theorem Program.print_relabel (program : Program) :
    (program.relabel ids spans).print = program.print := by
  have hdecls := List.map_congr_left fun decl (_ : decl ∈ program.decls) =>
    (Stmt.items_relabel_both spans hids).1 decl 0
  rw [Program.print, Program.print, Decl.itemsOfList_eq, Decl.itemsOfList_eq,
    Program.relabel, List.flatMap_map, List.flatMap_def, hdecls, ← List.flatMap_def]

end Relabel

/-- A name without its place. -/
def Ident.unplaced (id : Ident) : Ident := ⟨id.name, .point .origin, id.symbol⟩

def Expr.unplaced : Expr → Expr := Expr.relabel Ident.unplaced fun _ => .point .origin

def TypeNode.unplaced : TypeNode → TypeNode := TypeNode.relabel Ident.unplaced

def Formal.unplaced : Formal → Formal := Formal.relabel Ident.unplaced

def Decl.unplaced : Decl → Decl := Decl.relabel Ident.unplaced fun _ => .point .origin

def Stmt.unplaced : Stmt → Stmt := Stmt.relabel Ident.unplaced fun _ => .point .origin

def Block.unplaced : Block → Block :=
  Block.relabel Ident.unplaced fun _ => .point .origin

def Program.unplaced : Program → Program :=
  Program.relabel Ident.unplaced fun _ => .point .origin

theorem Expr.isLocation_unplaced (expr : Expr) :
    expr.unplaced.isLocation = expr.isLocation := by
  cases expr <;> rfl

theorem Expr.unplaced_call (callee : Ident) (args : List Expr) :
    (Expr.call callee args).unplaced =
      .call callee.unplaced (args.map Expr.unplaced) :=
  congrArg (Expr.call _) (Expr.relabelList_eq _ _ args)

theorem Decl.unplaced_struct (id : Ident) (fields : List Decl) :
    (Decl.struct id fields).unplaced = .struct id.unplaced (fields.map Decl.unplaced) :=
  congrArg (Decl.struct _) (Decl.relabelList_eq _ _ fields)

theorem Block.unplaced_mk (decls : List Decl) (stmts : List Stmt) :
    (Block.mk decls stmts).unplaced =
      .mk (decls.map Decl.unplaced) (stmts.map Stmt.unplaced) := by
  rw [Block.unplaced, Block.relabel, Decl.relabelList_eq, Stmt.relabelList_eq]
  rfl

/-- Places do not show in a printed program. -/
theorem Program.print_unplaced (program : Program) :
    program.unplaced.print = program.print := by
  have hids : ∀ id : Ident, id.unplaced.items = id.items := fun _ => rfl
  exact Program.print_relabel _ hids program

end MiniLang
