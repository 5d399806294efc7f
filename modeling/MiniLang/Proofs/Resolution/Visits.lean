/-
The names of a program in the order in which a walk comes to them, and what it does at
each one. All names of a tree are visited; those inside a struct that is rejected are
passed over. Unlike occurrences, visits make no assumption about the fields of structs.
-/
import MiniLang.Proofs.Resolution.Occurrence
import MiniLang.Tree.Induction

namespace MiniLang

/-- What a walk does at a name: it declares the name or looks it up, or it leaves the name
alone, because that stands in a type or inside the fields of a struct that is rejected. -/
inductive Visit where
  | declared (id : Ident) (kind : SymbolKind)
  | used (id : Ident)
  | typed (id : Ident)
  | skipped (id : Ident)
deriving Repr, DecidableEq

def Visit.id : Visit → Ident
  | .declared id _ => id
  | .used id => id
  | .typed id => id
  | .skipped id => id

def Visit.symbol? : Visit → Option Symbol
  | .declared id kind => some ⟨id.name, kind, id.span⟩
  | _ => none

/-- Whether a symbol would be a variable or a parameter of type `void`. Such a name is not
declared. -/
def SymbolKind.isVoid : SymbolKind → Bool
  | .var type => type == .void
  | .param type => type == .void
  | _ => false

/-- Whether a walk cannot go on at a name: it is empty, and it would have to be declared. -/
def Visit.halts : Visit → Bool
  | .declared id kind => id.name == "" && !kind.isVoid
  | _ => false

def Visit.isStructNamed (name : String) : Visit → Bool
  | .declared id .struct => id.name == name
  | _ => false

/-- Whether a struct is rejected: its name is reserved, or a struct that was visited before
has it. -/
def rejectsStruct (before : List Visit) (name : String) : Bool :=
  isReservedTypeName name || before.any (Visit.isStructNamed name)

def Leaf.id? : Leaf → Option Ident
  | .name id => some id
  | _ => none

def idsOf (leaves : List Leaf) : List Ident := leaves.filterMap Leaf.id?

@[simp] theorem idsOf_name (id : Ident) (rest : List Leaf) :
    idsOf (.name id :: rest) = id :: idsOf rest := rfl

@[simp] theorem idsOf_append (front back : List Leaf) :
    idsOf (front ++ back) = idsOf front ++ idsOf back := List.filterMap_append

theorem mem_idsOf {leaves : List Leaf} {id : Ident} :
    id ∈ idsOf leaves ↔ Leaf.name id ∈ leaves := by
  rw [idsOf, List.mem_filterMap]
  constructor
  · rintro ⟨leaf, hleaf, hid⟩
    cases leaf with
    | name own =>
        obtain rfl := Option.some.inj hid
        exact hleaf
    | _ => cases hid
  · exact fun h => ⟨_, h, rfl⟩

def TypeNode.visits (type : TypeNode) : List Visit := (idsOf type.leaves).map .typed

def Formal.visits (formal : Formal) : List Visit :=
  formal.type.visits ++ [.declared formal.id (.param formal.type.type)]

def Expr.visits (expr : Expr) : List Visit := expr.uses.map .used

/-- The visits of the heading of a function and of its parameters. -/
def headingVisits (result : TypeNode) (id : Ident) (formals : List Formal) :
    List Visit :=
  result.visits ++ .declared id (.function (headingSignature result formals))
    :: formals.flatMap Formal.visits

mutual

/-- The visits of a declaration, behind some others. -/
def Decl.visits (before : List Visit) : Decl → List Visit
  | .var type id => type.visits ++ [.declared id (.var type.type)]
  | .func result id formals body =>
      headingVisits result id formals
        ++ body.visits (before ++ headingVisits result id formals)
  | .struct id fields =>
      .declared id .struct ::
        if rejectsStruct before id.name then
          (idsOf (Decl.leavesOfList fields)).map .skipped
        else Decl.visitsOfList (before ++ [.declared id .struct]) fields

def Decl.visitsOfList (before : List Visit) : List Decl → List Visit
  | [] => []
  | decl :: rest =>
      decl.visits before ++ Decl.visitsOfList (before ++ decl.visits before) rest

def Block.visits (before : List Visit) : Block → List Visit
  | .mk decls stmts =>
      Decl.visitsOfList before decls
        ++ Stmt.visitsOfList (before ++ Decl.visitsOfList before decls) stmts

def Stmt.visits (before : List Visit) : Stmt → List Visit
  | .assign expr => expr.visits
  | .inc loc => loc.visits
  | .dec loc => loc.visits
  | .read loc => loc.visits
  | .write expr => expr.visits
  | .ifThen cond body => cond.visits ++ body.visits (before ++ cond.visits)
  | .ifElse cond thenBody elseBody =>
      let front := cond.visits ++ thenBody.visits (before ++ cond.visits)
      front ++ elseBody.visits (before ++ front)
  | .while_ cond body => cond.visits ++ body.visits (before ++ cond.visits)
  | .call callee args => (callee :: args.flatMap Expr.uses).map .used
  | .ret none => []
  | .ret (some value) => value.visits

def Stmt.visitsOfList (before : List Visit) : List Stmt → List Visit
  | [] => []
  | stmt :: rest =>
      stmt.visits before ++ Stmt.visitsOfList (before ++ stmt.visits before) rest

end

/-- The visits of a program. -/
def Program.visits (program : Program) : List Visit :=
  Decl.visitsOfList [] program.decls

/-- Whether nothing is declared at some visits. -/
def Passive (visits : List Visit) : Prop := ∀ visit ∈ visits, visit.symbol? = none

section Passive

theorem passive_typed (ids : List Ident) : Passive (ids.map .typed) :=
  List.forall_mem_map.mpr fun _ _ => rfl

theorem passive_used (ids : List Ident) : Passive (ids.map .used) :=
  List.forall_mem_map.mpr fun _ _ => rfl

theorem passive_skipped (ids : List Ident) : Passive (ids.map .skipped) :=
  List.forall_mem_map.mpr fun _ _ => rfl

variable {visits : List Visit}

theorem Passive.not_halts (h : Passive visits) {visit : Visit} (hvisit : visit ∈ visits) :
    ¬ visit.halts = true := by
  have hnone := h visit hvisit
  cases visit with
  | declared id kind => cases hnone
  | _ => exact Bool.false_ne_true

theorem Passive.halts (h : Passive visits) : visits.any Visit.halts = false :=
  List.any_eq_false.mpr fun _ hvisit => h.not_halts hvisit

theorem Passive.rejects (h : Passive visits) (before : List Visit) (name : String) :
    rejectsStruct (before ++ visits) name = rejectsStruct before name := by
  have hnone : visits.any (Visit.isStructNamed name) = false := by
    refine List.any_eq_false.mpr fun visit hvisit => ?_
    have hnone := h visit hvisit
    cases visit with
    | declared id kind => cases hnone
    | _ => exact Bool.false_ne_true
  rw [rejectsStruct, List.any_append, hnone, Bool.or_false, rejectsStruct]

end Passive

section Ids

theorem map_id_typed (ids : List Ident) : (ids.map Visit.typed).map Visit.id = ids := by
  rw [List.map_map]
  exact List.map_id ids

theorem map_id_used (ids : List Ident) : (ids.map Visit.used).map Visit.id = ids := by
  rw [List.map_map]
  exact List.map_id ids

theorem map_id_skipped (ids : List Ident) :
    (ids.map Visit.skipped).map Visit.id = ids := by
  rw [List.map_map]
  exact List.map_id ids

theorem Expr.idsOf_leavesOfList {exprs : List Expr}
    (h : ∀ expr ∈ exprs, idsOf expr.leaves = expr.uses) :
    idsOf (exprs.flatMap Expr.leaves) = exprs.flatMap Expr.uses := by
  induction exprs with
  | nil => rfl
  | cons expr rest ih =>
      obtain ⟨hexpr, hrest⟩ := List.forall_mem_cons.mp h
      rw [List.flatMap_cons, List.flatMap_cons, idsOf_append, hexpr, ih hrest]

/-- All names in an expression are used. -/
theorem Expr.idsOf_leaves (expr : Expr) : idsOf expr.leaves = expr.uses := by
  induction expr using Expr.induct with
  | int span value => rfl
  | str span text => rfl
  | bool span value => rfl
  | name id => rfl
  | dot loc field ih => rw [Expr.leaves, idsOf_append, ih, Expr.uses]; rfl
  | assign lhs rhs ihlhs ihrhs =>
      rw [Expr.leaves, idsOf_append, ihlhs, ihrhs, Expr.uses]
  | call callee args ih =>
      rw [Expr.leaves, Expr.leavesOfList_eq, idsOf_name, Expr.idsOf_leavesOfList ih,
        Expr.uses, Expr.usesOfList_eq]
  | unary op operand ih => rw [Expr.leaves, ih, Expr.uses]
  | binary op lhs rhs ihlhs ihrhs =>
      rw [Expr.leaves, idsOf_append, ihlhs, ihrhs, Expr.uses]

theorem Expr.ids_visits (expr : Expr) : expr.visits.map Visit.id = idsOf expr.leaves := by
  rw [Expr.visits, map_id_used, Expr.idsOf_leaves]

theorem TypeNode.ids_visits (type : TypeNode) :
    type.visits.map Visit.id = idsOf type.leaves := map_id_typed _

theorem Formal.ids_visits (formals : List Formal) :
    (formals.flatMap Formal.visits).map Visit.id =
      idsOf (formals.flatMap Formal.leaves) := by
  induction formals with
  | nil => rfl
  | cons formal rest ih =>
      rw [List.flatMap_cons, List.flatMap_cons, List.map_append, idsOf_append, ih,
        Formal.visits, Formal.leaves, List.map_append, idsOf_append, TypeNode.ids_visits]
      rfl

theorem ids_headingVisits (result : TypeNode) (id : Ident) (formals : List Formal) :
    (headingVisits result id formals).map Visit.id =
      idsOf (result.leaves ++ .name id :: formals.flatMap Formal.leaves) := by
  rw [headingVisits, List.map_append, List.map_cons, TypeNode.ids_visits,
    Formal.ids_visits, idsOf_append, idsOf_name]
  rfl

theorem Decl.ids_visitsOfList {decls : List Decl}
    (h : ∀ decl ∈ decls, ∀ before,
      (decl.visits before).map Visit.id = idsOf decl.leaves) (before : List Visit) :
    (Decl.visitsOfList before decls).map Visit.id = idsOf (Decl.leavesOfList decls) := by
  induction decls generalizing before with
  | nil => rfl
  | cons decl rest ih =>
      obtain ⟨hdecl, hrest⟩ := List.forall_mem_cons.mp h
      rw [Decl.visitsOfList, Decl.leavesOfList, List.map_append, idsOf_append, hdecl,
        ih hrest]

theorem Stmt.ids_visitsOfList {stmts : List Stmt}
    (h : ∀ stmt ∈ stmts, ∀ before,
      (stmt.visits before).map Visit.id = idsOf stmt.leaves) (before : List Visit) :
    (Stmt.visitsOfList before stmts).map Visit.id = idsOf (Stmt.leavesOfList stmts) := by
  induction stmts generalizing before with
  | nil => rfl
  | cons stmt rest ih =>
      obtain ⟨hstmt, hrest⟩ := List.forall_mem_cons.mp h
      rw [Stmt.visitsOfList, Stmt.leavesOfList, List.map_append, idsOf_append, hstmt,
        ih hrest]

theorem Block.ids_visits_mk {decls : List Decl} {stmts : List Stmt}
    (hdecls : ∀ decl ∈ decls, ∀ before,
      (decl.visits before).map Visit.id = idsOf decl.leaves)
    (hstmts : ∀ stmt ∈ stmts, ∀ before,
      (stmt.visits before).map Visit.id = idsOf stmt.leaves) (before : List Visit) :
    ((Block.mk decls stmts).visits before).map Visit.id =
      idsOf (Block.mk decls stmts).leaves := by
  rw [Block.visits, Block.leaves, List.map_append, idsOf_append,
    Decl.ids_visitsOfList hdecls, Stmt.ids_visitsOfList hstmts]

/-- The visits of a tree are those of its names, in their order. -/
theorem ids_visits_both :
    (∀ decl : Decl, ∀ before,
      (decl.visits before).map Visit.id = idsOf decl.leaves) ∧
    ∀ stmt : Stmt, ∀ before,
      (stmt.visits before).map Visit.id = idsOf stmt.leaves := by
  apply Stmt.inductBoth
  case var =>
    intro type id before
    rw [Decl.visits, Decl.leaves, List.map_append, idsOf_append, TypeNode.ids_visits]
    rfl
  case func =>
    intro result id formals decls stmts ihdecls ihstmts before
    rw [Decl.visits, Decl.leaves, List.map_append, idsOf_append, ids_headingVisits,
      Block.ids_visits_mk ihdecls ihstmts]
  case struct =>
    intro id fields ih before
    rw [Decl.visits, Decl.leaves, List.map_cons, idsOf_name]
    split
    · rw [map_id_skipped]
      rfl
    · rw [Decl.ids_visitsOfList ih]
      rfl
  case assign => exact fun expr _ => expr.ids_visits
  case inc => exact fun loc _ => loc.ids_visits
  case dec => exact fun loc _ => loc.ids_visits
  case read => exact fun loc _ => loc.ids_visits
  case write => exact fun expr _ => expr.ids_visits
  case ifThen =>
    intro cond decls stmts ihdecls ihstmts before
    rw [Stmt.visits, Stmt.leaves, List.map_append, idsOf_append, Expr.ids_visits,
      Block.ids_visits_mk ihdecls ihstmts]
  case ifElse =>
    intro cond decls stmts decls' stmts' ihdecls ihstmts ihdecls' ihstmts' before
    rw [Stmt.visits, Stmt.leaves, List.map_append, List.map_append, idsOf_append,
      idsOf_append, Expr.ids_visits, Block.ids_visits_mk ihdecls ihstmts,
      Block.ids_visits_mk ihdecls' ihstmts']
  case while_ =>
    intro cond decls stmts ihdecls ihstmts before
    rw [Stmt.visits, Stmt.leaves, List.map_append, idsOf_append, Expr.ids_visits,
      Block.ids_visits_mk ihdecls ihstmts]
  case call =>
    intro callee args _
    rw [Stmt.visits, map_id_used, Stmt.leaves, idsOf_name,
      Expr.idsOf_leavesOfList fun arg _ => arg.idsOf_leaves]
  case ret =>
    intro value _
    cases value with
    | none => rfl
    | some value => exact value.ids_visits

/-- The visits of a program are those of its names, in their order. -/
theorem Program.ids_visits (program : Program) :
    program.visits.map Visit.id = idsOf program.leaves := by
  rw [Program.visits, Decl.ids_visitsOfList fun decl _ => ids_visits_both.1 decl,
    Decl.leavesOfList_eq, Program.leaves]

end Ids

end MiniLang
