/-
Trees with other names are resolved as those names have it. Where the tables match, the walk
over a tree and the walk over the renamed tree go the same way, and what the latter answers
and reports is what the former does, with other names.
-/
import MiniLang.Proofs.Resolution.Following

namespace MiniLang

mutual

/-- The names that are used in a declaration. -/
def Decl.uses : Decl → List Ident
  | .var _ _ => []
  | .func _ _ _ body => body.uses
  | .struct _ fields => Decl.usesOfList fields

def Decl.usesOfList : List Decl → List Ident
  | [] => []
  | decl :: rest => decl.uses ++ Decl.usesOfList rest

def Block.uses : Block → List Ident
  | .mk decls stmts => Decl.usesOfList decls ++ Stmt.usesOfList stmts

def Stmt.uses : Stmt → List Ident
  | .assign expr => expr.uses
  | .inc loc => loc.uses
  | .dec loc => loc.uses
  | .read loc => loc.uses
  | .write expr => expr.uses
  | .ifThen cond body => cond.uses ++ body.uses
  | .ifElse cond thenBody elseBody => cond.uses ++ thenBody.uses ++ elseBody.uses
  | .while_ cond body => cond.uses ++ body.uses
  | .call callee args => callee :: args.flatMap Expr.uses
  | .ret none => []
  | .ret (some value) => value.uses

def Stmt.usesOfList : List Stmt → List Ident
  | [] => []
  | stmt :: rest => stmt.uses ++ Stmt.usesOfList rest

end

@[simp] theorem Decl.usesOfList_eq (decls : List Decl) :
    Decl.usesOfList decls = decls.flatMap Decl.uses := by
  induction decls with
  | nil => rfl
  | cons decl rest ih => rw [Decl.usesOfList, ih, List.flatMap_cons]

@[simp] theorem Stmt.usesOfList_eq (stmts : List Stmt) :
    Stmt.usesOfList stmts = stmts.flatMap Stmt.uses := by
  induction stmts with
  | nil => rfl
  | cons stmt rest ih => rw [Stmt.usesOfList, ih, List.flatMap_cons]

/-- Whether all names in a list are among some names. -/
def AllNamed (used : String → Prop) (ids : List Ident) : Prop := ∀ id ∈ ids, used id.name

variable {anew : Renaming} {used : String → Prop}
  {relate : SymbolTable → SymbolTable → Prop}

theorem AllNamed.append {front back : List Ident} (h : AllNamed used (front ++ back)) :
    AllNamed used front ∧ AllNamed used back := List.forall_mem_append.mp h

theorem AllNamed.of_flatMap {α : Type} {usesOf : α → List Ident} {trees : List α}
    (h : AllNamed used (trees.flatMap usesOf)) {tree : α} (htree : tree ∈ trees) :
    AllNamed used (usesOf tree) :=
  fun id hid => h id (List.mem_flatMap.mpr ⟨tree, htree, hid⟩)

section Names

/-- A name that is used is linked to the symbol under its other name. -/
theorem Ident.follows (hmatching : SymbolTable.Matching anew used relate) {id : Ident}
    (hused : used id.name) :
    Resolver.Follows anew relate id.resolve (id.rename anew).resolve
      (Ident.rename anew) := by
  apply Resolver.Follows.unlessHalted _ rfl
  apply Resolver.Follows.get
  intro ahead ahead' walk other halike
  have hlookup : other.table.lookup (id.rename anew).name =
      (walk.table.lookup id.name).map (Symbol.rename anew) :=
    hmatching.lookup halike.table hused
  rw [hlookup]
  cases walk.table.lookup id.name with
  | some symbol => exact .pure (id.rename_linkTo anew (some symbol)).symm
  | none => exact (Resolver.follows_report _ _ _).bind fun _ => .pure rfl

theorem SymbolTable.Matching.follows_declare
    (hmatching : SymbolTable.Matching anew used relate) (symbol : Symbol) :
    Resolver.Follows anew relate (Resolver.declare symbol)
      (Resolver.declare (symbol.rename anew)) (Option.map (Symbol.rename anew)) :=
  Resolver.follows_declare (fun h => hmatching.innermost h symbol.name)
    fun h => hmatching.add h

/-- A name with a type is declared under its other name. -/
theorem Resolver.follows_declareVariable
    (hmatching : SymbolTable.Matching anew used relate) (binding : Binding)
    (type : TypeNode) (id : Ident) :
    Resolver.Follows anew relate (Resolver.declareVariable binding.kind type id)
      (Resolver.declareVariable binding.kind (type.rename anew) (id.rename anew))
      (Prod.map (Ident.rename anew) (Option.map (Symbol.rename anew))) := by
  refine Resolver.Follows.unlessHalted ?_ rfl
  rw [TypeNode.type_rename]
  by_cases hvoid : type.type = .void
  · rw [if_pos hvoid, if_pos ((Ty.rename_eq_void anew).mpr hvoid)]
    exact (Resolver.follows_report _ _ _).bind fun _ => .pure rfl
  · rw [if_neg hvoid, if_neg (mt (Ty.rename_eq_void anew).mp hvoid)]
    let symbol : Symbol := ⟨id.name, binding.kind type.type, id.span⟩
    have hsymbol : symbol.rename anew =
        ⟨(id.rename anew).name, binding.kind (type.type.rename anew),
          (id.rename anew).span⟩ := by
      cases binding <;> rfl
    rw [← hsymbol]
    apply (hmatching.follows_declare symbol).last
    intro declared
    exact Prod.ext (id.rename_linkTo anew declared).symm rfl

theorem Resolver.follows_declareFormals
    (hmatching : SymbolTable.Matching anew used relate) (formals : List Formal) :
    Resolver.Follows anew relate (Resolver.declareFormals formals)
      (Resolver.declareFormals (formals.map (Formal.rename anew)))
      (List.map (Formal.rename anew)) := by
  induction formals with
  | nil => exact .pure rfl
  | cons formal rest ih =>
      rw [List.map_cons, Resolver.declareFormals, Resolver.declareFormals]
      have hfirst := Resolver.follows_declareVariable hmatching .parameter formal.type
        formal.id
      exact hfirst.pair ih fun _ _ => rfl

/-- A function is declared under its other name, with the renamed signature. -/
theorem Resolver.follows_declareFunction (result : TypeNode) (id : Ident)
    (formals : List Formal)
    (hdeclare : Resolver.Follows anew relate
      (Resolver.declare ⟨id.name, .function (headingSignature result formals), id.span⟩)
      (Resolver.declare (Symbol.rename anew
        ⟨id.name, .function (headingSignature result formals), id.span⟩))
      (Option.map (Symbol.rename anew))) :
    Resolver.Follows anew relate (Resolver.declareFunction result id formals)
      (Resolver.declareFunction (result.rename anew) (id.rename anew)
        (formals.map (Formal.rename anew))) (Ident.rename anew) := by
  apply Resolver.Follows.unlessHalted _ rfl
  have hsignature := headingSignature_rename anew result formals
  have hsymbol : Symbol.rename anew
      ⟨id.name, .function (headingSignature result formals), id.span⟩ =
        ⟨(id.rename anew).name, .function (headingSignature (result.rename anew)
          (formals.map (Formal.rename anew))), (id.rename anew).span⟩ := by
    rw [hsignature]
    rfl
  rw [hsymbol] at hdeclare
  apply hdeclare.last
  intro declared
  exact (id.rename_linkTo anew declared).symm

end Names

section Structs

theorem Resolver.follows_registerStruct (symbol : Symbol) :
    Resolver.Follows anew relate (Resolver.registerStruct symbol)
      (Resolver.registerStruct (symbol.rename anew)) id := by
  intro ahead ahead' walk other halike
  have hregister := walk.structs.register_rename anew ⟨symbol, .new⟩
  have hinfo : StructInfo.rename anew ⟨symbol, .new⟩ = ⟨symbol.rename anew, .new⟩ := rfl
  rw [hinfo, ← halike.structs] at hregister
  rw [Resolver.registerStruct, Resolver.registerStruct, Resolver.run_get,
    Resolver.run_get, hregister]
  cases walk.structs.register ⟨symbol, .new⟩ with
  | ok structs => exact ⟨{ halike with structs := rfl }, rfl⟩
  | error reason => exact Resolver.follows_halt reason halike

theorem Resolver.follows_exposeFields
    (hmatching : SymbolTable.Matching anew used relate) (fields : List Symbol) :
    Resolver.Follows anew relate (Resolver.exposeFields fields)
      (Resolver.exposeFields (fields.map (Symbol.rename anew))) id := by
  induction fields with
  | nil => exact .pure rfl
  | cons field rest ih =>
      rw [List.map_cons, Resolver.exposeFields, Resolver.exposeFields]
      have hfirst : Resolver.Follows anew relate (do let _ ← Resolver.declare field)
          (do let _ ← Resolver.declare (field.rename anew)) id :=
        (hmatching.follows_declare field).bind fun _ => .pure rfl
      exact (hfirst.unlessHalted rfl).bind fun _ => ih

theorem Resolver.follows_completeStruct
    (hmatching : SymbolTable.Matching anew used relate) (name : String)
    (fields : SymbolTable) (declared : List Symbol) :
    Resolver.Follows anew relate (Resolver.completeStruct name fields declared)
      (Resolver.completeStruct (anew.name name) (fields.rename anew)
        (declared.map (Symbol.rename anew))) id := by
  refine Resolver.Follows.unlessHalted ?_ rfl
  have hset : Resolver.Follows anew relate
      (modify fun walk =>
        { walk with structs := walk.structs.setFields name fields } : Resolver Unit)
      (modify fun walk => { walk with
        structs := walk.structs.setFields (anew.name name) (fields.rename anew) })
      id := by
    intro ahead ahead' walk other halike
    refine ⟨{ halike with structs := ?_ }, rfl⟩
    have hfields := walk.structs.setFields_rename anew name fields
    rwa [← halike.structs] at hfields
  exact hset.bind fun _ => Resolver.follows_exposeFields hmatching declared

end Structs

section Expressions

theorem Expr.follows_list {exprs : List Expr}
    (h : ∀ expr ∈ exprs, Resolver.Follows anew relate expr.resolve
      (expr.rename anew).resolve (Expr.rename anew)) :
    Resolver.Follows anew relate (Expr.resolveList exprs)
      (Expr.resolveList (exprs.map (Expr.rename anew))) (List.map (Expr.rename anew)) :=
  Resolver.Follows.list Expr.resolve Expr.resolveList rfl (fun _ _ => rfl) h

theorem Expr.follows (hmatching : SymbolTable.Matching anew used relate) (expr : Expr)
    (hused : AllNamed used expr.uses) :
    Resolver.Follows anew relate expr.resolve (expr.rename anew).resolve
      (Expr.rename anew) := by
  induction expr using Expr.induct with
  | int span value => exact .pure rfl
  | str span text => exact .pure rfl
  | bool span value => exact .pure rfl
  | name id =>
      have hid := Ident.follows hmatching (hused id List.mem_cons_self)
      exact hid.last fun _ => rfl
  | dot loc field ih =>
      obtain ⟨hloc, hfield⟩ := hused.append
      have hid := Ident.follows hmatching (hfield field List.mem_cons_self)
      exact (ih hloc).pair hid fun _ _ => rfl
  | assign lhs rhs ihlhs ihrhs =>
      obtain ⟨hlhs, hrhs⟩ := hused.append
      exact (ihlhs hlhs).pair (ihrhs hrhs) fun _ _ => rfl
  | call callee args ih =>
      rw [Expr.uses, Expr.usesOfList_eq] at hused
      obtain ⟨hcallee, hargs⟩ := List.forall_mem_cons.mp hused
      have hid := Ident.follows hmatching hcallee
      have hlist := Expr.follows_list fun arg harg =>
        ih arg harg (AllNamed.of_flatMap hargs harg)
      rw [Expr.rename_call, Expr.resolve, Expr.resolve]
      exact hid.pair hlist fun _ _ => (Expr.rename_call anew _ _).symm
  | unary op operand ih => exact (ih hused).last fun _ => rfl
  | binary op lhs rhs ihlhs ihrhs =>
      obtain ⟨hlhs, hrhs⟩ := hused.append
      exact (ihlhs hlhs).pair (ihrhs hrhs) fun _ _ => rfl

end Expressions

/-- Whether a declaration is resolved as its other names have it, wherever the tables match
for the names that are used in it. -/
def Decl.Simulated (anew : Renaming) (decl : Decl) : Prop :=
  ∀ ⦃used relate⦄, SymbolTable.Matching anew used relate → AllNamed used decl.uses →
    Resolver.Follows anew relate decl.resolve (decl.rename anew).resolve
      (Prod.map (Decl.rename anew) (Option.map (Symbol.rename anew)))

def Stmt.Simulated (anew : Renaming) (stmt : Stmt) : Prop :=
  ∀ ⦃used relate⦄, SymbolTable.Matching anew used relate → AllNamed used stmt.uses →
    Resolver.Follows anew relate stmt.resolve (stmt.rename anew).resolve
      (Stmt.rename anew)

section Trees

theorem Decl.follows_list (hmatching : SymbolTable.Matching anew used relate)
    {decls : List Decl} (h : ∀ decl ∈ decls, decl.Simulated anew)
    (hused : AllNamed used (decls.flatMap Decl.uses)) :
    Resolver.Follows anew relate (Decl.resolveList decls)
      (Decl.resolveList (decls.map (Decl.rename anew)))
      (Prod.map (List.map (Decl.rename anew)) (List.map (Symbol.rename anew))) := by
  induction decls with
  | nil => exact .pure rfl
  | cons decl rest ih =>
      obtain ⟨hdecl, hrest⟩ := List.forall_mem_cons.mp h
      obtain ⟨hfirst, hmore⟩ := hused.append
      rw [List.map_cons, Decl.resolveList, Decl.resolveList]
      apply (hdecl hmatching hfirst).pair (ih hrest hmore)
      rintro ⟨first, symbol⟩ ⟨others, symbols⟩
      cases symbol <;> rfl

theorem Stmt.follows_list (hmatching : SymbolTable.Matching anew used relate)
    {stmts : List Stmt} (h : ∀ stmt ∈ stmts, stmt.Simulated anew)
    (hused : AllNamed used (stmts.flatMap Stmt.uses)) :
    Resolver.Follows anew relate (Stmt.resolveList stmts)
      (Stmt.resolveList (stmts.map (Stmt.rename anew))) (List.map (Stmt.rename anew)) :=
  Resolver.Follows.list Stmt.resolve Stmt.resolveList rfl (fun _ _ => rfl)
    fun stmt hstmt => h stmt hstmt hmatching (AllNamed.of_flatMap hused hstmt)

theorem Block.follows (hmatching : SymbolTable.Matching anew used relate)
    {decls : List Decl} {stmts : List Stmt} (hdecls : ∀ decl ∈ decls, decl.Simulated anew)
    (hstmts : ∀ stmt ∈ stmts, stmt.Simulated anew)
    (hused : AllNamed used (Block.mk decls stmts).uses) :
    Resolver.Follows anew relate (Block.mk decls stmts).resolve
      ((Block.mk decls stmts).rename anew).resolve (Block.rename anew) := by
  rw [Block.uses, Decl.usesOfList_eq, Stmt.usesOfList_eq] at hused
  obtain ⟨hfirst, hmore⟩ := hused.append
  rw [Block.rename_mk, Block.resolve, Block.resolve]
  have hlist := Decl.follows_list hmatching hdecls hfirst
  exact hlist.pair (Stmt.follows_list hmatching hstmts hmore)
    fun _ _ => (Block.rename_mk anew _ _).symm

/-- A block in a scope of its own. -/
theorem Block.follows_scoped (hmatching : SymbolTable.Matching anew used relate)
    {decls : List Decl} {stmts : List Stmt} (hdecls : ∀ decl ∈ decls, decl.Simulated anew)
    (hstmts : ∀ stmt ∈ stmts, stmt.Simulated anew)
    (hused : AllNamed used (Block.mk decls stmts).uses) :
    Resolver.Follows anew relate (Resolver.scoped (Block.mk decls stmts).resolve)
      (Resolver.scoped ((Block.mk decls stmts).rename anew).resolve)
      (Block.rename anew) := by
  apply Resolver.Follows.scoped hmatching.push
  · exact Block.follows hmatching hdecls hstmts hused
  · exact Block.keeps_resolve _
  · exact Block.keeps_resolve _

/-- A function is followed if its heading is, and if its parameters and its body are in
the scope of the function. -/
theorem Decl.follows_func {inner : SymbolTable → SymbolTable → Prop} {result : TypeNode}
    {id : Ident} {formals : List Formal} {body : Block}
    (hheading : Resolver.Follows anew relate (Resolver.declareFunction result id formals)
      (Resolver.declareFunction (result.rename anew) (id.rename anew)
        (formals.map (Formal.rename anew))) (Ident.rename anew))
    (hopen : ∀ {table other}, relate table other → inner table.push other.push)
    (hmatching : SymbolTable.Matching anew used inner)
    (hbody : Resolver.Follows anew inner body.resolve (body.rename anew).resolve
      (Block.rename anew)) :
    Resolver.Follows anew relate (Decl.func result id formals body).resolve
      ((Decl.func result id formals body).rename anew).resolve
      (Prod.map (Decl.rename anew) (Option.map (Symbol.rename anew))) := by
  have hinner : Resolver.Follows anew inner
      (do
        let formals ← Resolver.declareFormals formals
        return (formals, ← body.resolve))
      (do
        let formals ← Resolver.declareFormals (formals.map (Formal.rename anew))
        return (formals, ← (body.rename anew).resolve))
      (Prod.map (List.map (Formal.rename anew)) (Block.rename anew)) :=
    (Resolver.follows_declareFormals hmatching formals).pair hbody fun _ _ => rfl
  have hscoped := hinner.scoped hopen (Resolver.keeps_inner _ _) (Resolver.keeps_inner _ _)
  rw [Decl.rename_func, Decl.resolve, Decl.resolve]
  exact hheading.pair hscoped fun _ _ => rfl

theorem Decl.simulated_struct (id : Ident) {fields : List Decl}
    (hfields : ∀ field ∈ fields, field.Simulated anew) :
    (Decl.struct id fields).Simulated anew := by
  intro used relate hmatching hused
  have hkept := Decl.rename_struct anew id fields
  rw [Decl.uses, Decl.usesOfList_eq] at hused
  rw [hkept, Decl.resolve, Decl.resolve]
  refine Resolver.Follows.unlessHalted ?_ (Prod.ext hkept.symm rfl)
  apply Resolver.Follows.get
  intro ahead ahead' walk other halike
  have hrefusal : other.structs.refusal? (id.rename anew).name =
      walk.structs.refusal? id.name := by
    rw [halike.structs]
    exact walk.structs.refusal?_rename anew id.name
  rw [hrefusal]
  cases walk.structs.refusal? id.name with
  | some fault =>
      apply (Resolver.follows_report fault id.name id.span).bind
      exact fun _ => .pure (Prod.ext hkept.symm rfl)
  | none =>
      apply (Resolver.follows_registerStruct ⟨id.name, .struct, id.span⟩).bind
      intro _
      -- The table of the fields is a new one, so it is renamed whatever the ones around are.
      have hlist := Decl.follows_list (SymbolTable.matching_renamed anew used) hfields hused
      apply hlist.withTable.bind
      rintro ⟨table, answer, declared⟩
      have hanswer := Decl.rename_struct anew
        (id.linkTo (some ⟨id.name, .struct, id.span⟩)) answer
      apply (Resolver.follows_completeStruct hmatching id.name table declared).bind
      exact fun _ => .pure (Prod.ext hanswer.symm rfl)

/-- Every tree is resolved as its other names have it. -/
theorem simulated_both (anew : Renaming) :
    (∀ decl : Decl, decl.Simulated anew) ∧ ∀ stmt : Stmt, stmt.Simulated anew := by
  apply Stmt.inductBoth
  case var =>
    intro type id used relate hmatching _
    have hdeclare := Resolver.follows_declareVariable hmatching .variable type id
    exact hdeclare.last fun _ => rfl
  case func =>
    intro result id formals decls stmts ihdecls ihstmts used relate hmatching hused
    apply Decl.follows_func _ hmatching.push hmatching
    · exact Block.follows hmatching ihdecls ihstmts hused
    · exact Resolver.follows_declareFunction result id formals (hmatching.follows_declare _)
  case struct =>
    intro id fields ihfields
    exact Decl.simulated_struct id ihfields
  case assign =>
    exact fun expr _ _ hmatching hused => (expr.follows hmatching hused).last fun _ => rfl
  case inc =>
    exact fun loc _ _ hmatching hused => (loc.follows hmatching hused).last fun _ => rfl
  case dec =>
    exact fun loc _ _ hmatching hused => (loc.follows hmatching hused).last fun _ => rfl
  case read =>
    exact fun loc _ _ hmatching hused => (loc.follows hmatching hused).last fun _ => rfl
  case write =>
    exact fun expr _ _ hmatching hused => (expr.follows hmatching hused).last fun _ => rfl
  case ifThen =>
    intro cond decls stmts ihdecls ihstmts used relate hmatching hused
    obtain ⟨hcond, hbody⟩ := hused.append
    have hscoped := Block.follows_scoped hmatching ihdecls ihstmts hbody
    exact (cond.follows hmatching hcond).pair hscoped fun _ _ => rfl
  case ifElse =>
    intro cond decls stmts decls' stmts' ihdecls ihstmts ihdecls' ihstmts' used relate
      hmatching hused
    obtain ⟨hfront, helse⟩ := hused.append
    obtain ⟨hcond, hthen⟩ := hfront.append
    have hthenScoped := Block.follows_scoped hmatching ihdecls ihstmts hthen
    have helseScoped := Block.follows_scoped hmatching ihdecls' ihstmts' helse
    rw [Stmt.rename_ifElse, Stmt.resolve, Stmt.resolve]
    exact (cond.follows hmatching hcond).bind fun _ =>
      hthenScoped.pair helseScoped fun _ _ => rfl
  case while_ =>
    intro cond decls stmts ihdecls ihstmts used relate hmatching hused
    obtain ⟨hcond, hbody⟩ := hused.append
    have hscoped := Block.follows_scoped hmatching ihdecls ihstmts hbody
    exact (cond.follows hmatching hcond).pair hscoped fun _ _ => rfl
  case call =>
    intro callee args used relate hmatching hused
    obtain ⟨hcallee, hargs⟩ := List.forall_mem_cons.mp hused
    have hid := Ident.follows hmatching hcallee
    have hlist := Expr.follows_list fun arg harg =>
      arg.follows hmatching (AllNamed.of_flatMap hargs harg)
    exact hid.pair hlist fun _ _ => rfl
  case ret =>
    intro value used relate hmatching hused
    cases value with
    | none => exact .pure rfl
    | some value => exact (value.follows hmatching hused).last fun _ => rfl

theorem Block.follows_of_matching (hmatching : SymbolTable.Matching anew used relate)
    (block : Block) (hused : AllNamed used block.uses) :
    Resolver.Follows anew relate block.resolve (block.rename anew).resolve
      (Block.rename anew) := by
  obtain ⟨decls, stmts⟩ := block
  exact Block.follows hmatching (fun decl _ => (simulated_both anew).1 decl)
    (fun stmt _ => (simulated_both anew).2 stmt) hused

end Trees

end MiniLang
