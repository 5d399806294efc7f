/-
Scope discipline: what a step of a walk leaves of the scopes that it finds. A
declaration may add names to the innermost scope; statements and expressions leave every
scope as they find it. Whether the walk halts on the way makes no difference.
-/
import MiniLang.Proofs.Resolution.Declarations
import MiniLang.Proofs.Scope.Structs
import Mathlib.Order.Defs.Unbundled

namespace MiniLang

variable {α β : Type}

/-- Whether a frame grew out of another one: nothing was taken away, and what a name
stood for it still stands for. -/
structure Frame.Extends (before after : Frame) : Prop where
  suffix : before <:+ after
  kept : ∀ name symbol, before.lookup name = some symbol →
    after.lookup name = some symbol

theorem Frame.Extends.refl (frame : Frame) : Frame.Extends frame frame :=
  ⟨List.suffix_rfl, fun _ _ h => h⟩

theorem Frame.Extends.trans {before middle after : Frame}
    (h : Frame.Extends before middle) (hmore : Frame.Extends middle after) :
    Frame.Extends before after :=
  ⟨h.suffix.trans hmore.suffix,
    fun name symbol hlookup => hmore.kept name symbol (h.kept name symbol hlookup)⟩

theorem Frame.extends_cons {frame : Frame} {name : String}
    (h : frame.lookup name = none) (symbol : Symbol) :
    Frame.Extends frame ((name, symbol) :: frame) := by
  refine ⟨List.suffix_cons _ _, fun other found hfound => ?_⟩
  have hne : (other == name) = false := by
    rw [beq_eq_false_iff_ne]
    rintro rfl
    rw [hfound] at h
    exact absurd h nofun
  rw [List.lookup_cons, hne]
  exact hfound

/-- Whether a table grew out of another one in its innermost scope alone. -/
structure SymbolTable.Extends (before after : SymbolTable) : Prop where
  depth : after.depth = before.depth
  outer : after.frames.tail = before.frames.tail
  innermost : Frame.Extends (before.frames.headD []) (after.frames.headD [])

instance : IsPreorder SymbolTable SymbolTable.Extends where
  refl _ := ⟨rfl, rfl, .refl _⟩
  trans _ _ _ h hmore := ⟨hmore.depth.trans h.depth, hmore.outer.trans h.outer,
    h.innermost.trans hmore.innermost⟩

/-- A declaration that is not refused only adds to the innermost scope. -/
theorem SymbolTable.extends_declare {table after : SymbolTable} {name : String}
    {symbol : Symbol} (h : table.declare name symbol = .ok after) :
    table.Extends after := by
  obtain ⟨frames⟩ := table
  cases frames with
  | nil => cases h
  | cons frame outer =>
      simp only [SymbolTable.declare] at h
      split at h
      · cases h
      · split at h
        · cases h
        · next hnew =>
            obtain rfl := Except.ok.inj h
            have hfree := Option.not_isSome_iff_eq_none.mp hnew
            exact ⟨rfl, rfl, Frame.extends_cons hfree symbol⟩

/-- A scope that was opened can be closed, and closing it brings the scopes around it
back. -/
theorem SymbolTable.Extends.pop {table after : SymbolTable}
    (h : table.push.Extends after) : after.pop = .ok table := by
  obtain ⟨frames⟩ := after
  cases frames with
  | nil => exact absurd h.depth (by simp [SymbolTable.depth, SymbolTable.push])
  | cons frame outer =>
      have houter : outer = table.frames := h.outer
      rw [houter]
      rfl

theorem StructRegistry.lookup_append {registry : StructRegistry} {name : String}
    {symbol : Symbol} (h : registry.lookup name = some symbol)
    (more : List StructInfo) :
    StructRegistry.lookup ⟨registry.entries ++ more⟩ name = some symbol := by
  obtain ⟨info, hinfo, rfl⟩ := Option.map_eq_some_iff.mp h
  rw [StructRegistry.get?] at hinfo
  rw [StructRegistry.lookup, StructRegistry.get?, List.find?_append, hinfo]
  rfl

/-- Whether a walk went on from another one and kept to a relation between the scopes.
Struct types stay registered, and every error that is reported is counted. -/
structure Walk.Keeps (scopes : SymbolTable → SymbolTable → Prop) (before after : Walk) :
    Prop where
  scopes : scopes before.table after.table
  structs : ∀ name symbol, before.structs.lookup name = some symbol →
    after.structs.lookup name = some symbol
  reports : ∃ errors, after.errors = before.errors ++ errors ∧
    after.reported = before.reported + errors.length

variable {scopes : SymbolTable → SymbolTable → Prop}

theorem Walk.Keeps.refl [IsPreorder SymbolTable scopes] (walk : Walk) :
    Walk.Keeps scopes walk walk :=
  ⟨refl_of scopes walk.table, fun _ _ h => h, [], (List.append_nil _).symm, rfl⟩

theorem Walk.Keeps.trans [IsPreorder SymbolTable scopes] {before middle after : Walk}
    (h : Walk.Keeps scopes before middle) (hmore : Walk.Keeps scopes middle after) :
    Walk.Keeps scopes before after := by
  obtain ⟨errors, herrors, hreported⟩ := h.reports
  obtain ⟨errors', herrors', hreported'⟩ := hmore.reports
  refine ⟨trans_of scopes h.scopes hmore.scopes, ?_, errors ++ errors', ?_, ?_⟩
  · intro name symbol hlookup
    exact hmore.structs name symbol (h.structs name symbol hlookup)
  · rw [herrors', herrors, List.append_assoc]
  · rw [hreported', hreported, List.length_append, Nat.add_assoc]

/-- A relation between walks that differ in their scopes only. -/
theorem Walk.keeps_table {walk : Walk} {table : SymbolTable}
    (h : scopes walk.table table) : Walk.Keeps scopes walk { walk with table := table } :=
  ⟨h, fun _ _ hlookup => hlookup, [], (List.append_nil _).symm, rfl⟩

/-- Whether a step keeps to a relation between the scopes, in whatever walk it is
taken. -/
def Resolver.Keeps (scopes : SymbolTable → SymbolTable → Prop) (step : Resolver α) :
    Prop :=
  ∀ walk, Walk.Keeps scopes walk (step.run walk).2

/-- A step that leaves the scopes as they are keeps to every relation. -/
theorem Resolver.Keeps.of_eq [IsPreorder SymbolTable scopes] {step : Resolver α}
    (h : Resolver.Keeps Eq step) : Resolver.Keeps scopes step := by
  intro walk
  refine ⟨?_, (h walk).structs, (h walk).reports⟩
  rw [← (h walk).scopes]
  exact refl_of scopes walk.table

section Steps

variable [IsPreorder SymbolTable scopes] {step : Resolver α}

theorem Resolver.Keeps.pure (answer : α) :
    Resolver.Keeps scopes (Pure.pure answer : Resolver α) := Walk.Keeps.refl

theorem Resolver.Keeps.bind {next : α → Resolver β} (h : Resolver.Keeps scopes step)
    (hnext : ∀ answer, Resolver.Keeps scopes (next answer)) :
    Resolver.Keeps scopes (step >>= next) :=
  fun walk => (h walk).trans (hnext (step.run walk).1 (step.run walk).2)

theorem Resolver.Keeps.unlessHalted (h : Resolver.Keeps scopes step) (idle : α) :
    Resolver.Keeps scopes (Resolver.unlessHalted idle step) := by
  intro walk
  rw [Resolver.unlessHalted, Resolver.run_get]
  split
  · exact .refl walk
  · exact h walk

theorem Resolver.keeps_report (fault : NameFault) (name : String) (span : Span) :
    Resolver.Keeps scopes (Resolver.report fault name span) :=
  fun walk => ⟨refl_of scopes walk.table, fun _ _ h => h, [⟨fault, name, span⟩], rfl, rfl⟩

theorem Resolver.keeps_halt (reason : TableError) :
    Resolver.Keeps scopes (Resolver.halt reason) :=
  fun walk => ⟨refl_of scopes walk.table, fun _ _ h => h, [], (List.append_nil _).symm, rfl⟩

theorem Resolver.keeps_registerStruct (symbol : Symbol) :
    Resolver.Keeps scopes (Resolver.registerStruct symbol) := by
  intro walk
  rw [Resolver.registerStruct, Resolver.run_get]
  split
  · next structs hregister =>
      rw [StructRegistry.register] at hregister
      split at hregister
      · cases hregister
      · split at hregister
        · cases hregister
        · obtain rfl := Except.ok.inj hregister
          exact ⟨refl_of scopes walk.table,
            fun _ _ hlookup => StructRegistry.lookup_append hlookup _, [],
            (List.append_nil _).symm, rfl⟩
  · exact Resolver.keeps_halt _ walk

end Steps

/-- A walk that has halted takes no step, and answers what was given for that case. -/
theorem Resolver.run_idle (idle : α) (step : Resolver α) {walk : Walk}
    (h : walk.halted.isSome = true) :
    (Resolver.unlessHalted idle step).run walk = (idle, walk) := by
  rw [Resolver.unlessHalted, Resolver.run_get, if_pos h]
  rfl

/-- A walk with a new scope inside those that are open. -/
def Walk.opened (walk : Walk) : Walk := { walk with table := walk.table.push }

/-- Behind a step in a scope of its own, the scopes that were open before are open
again. -/
theorem Resolver.run_scoped {step : Resolver α}
    (h : Resolver.Keeps SymbolTable.Extends step) (walk : Walk) :
    (Resolver.scoped step).run walk =
      ((step.run walk.opened).1, { (step.run walk.opened).2 with table := walk.table }) := by
  have hopen : (modify fun walk => { walk with table := walk.table.push } :
      Resolver Unit).run walk = ((), walk.opened) := rfl
  rw [Resolver.scoped, Resolver.run_bind hopen, Resolver.run_bind (Prod.eta _).symm,
    Resolver.run_get, SymbolTable.Extends.pop (h walk.opened).scopes]
  rfl

/-- A step in a scope of its own leaves the scopes as they are. -/
theorem Resolver.Keeps.scoped {step : Resolver α}
    (h : Resolver.Keeps SymbolTable.Extends step) :
    Resolver.Keeps Eq (Resolver.scoped step) := by
  intro walk
  have hinner := h walk.opened
  rw [Resolver.run_scoped h]
  exact ⟨rfl, hinner.structs, hinner.reports⟩

/-- A step in another table leaves the scopes as they are. -/
theorem Resolver.Keeps.withTable {step : Resolver α} (h : Resolver.Keeps scopes step)
    (table : SymbolTable) : Resolver.Keeps Eq (Resolver.withTable table step) := by
  intro walk
  have hinner := h { walk with table := table }
  rw [Resolver.run_withTable walk (Prod.eta _).symm]
  exact ⟨rfl, hinner.structs, hinner.reports⟩

section Declarations

theorem Resolver.keeps_declare (symbol : Symbol) :
    Resolver.Keeps SymbolTable.Extends (Resolver.declare symbol) := by
  intro walk
  rw [Resolver.declare, Resolver.run_get]
  split
  · exact Resolver.keeps_halt _ walk
  · exact Resolver.keeps_report _ _ _ walk
  · split
    · exact Resolver.keeps_halt _ walk
    · next hdeclare =>
        exact Walk.keeps_table (SymbolTable.extends_declare hdeclare)

theorem Resolver.keeps_declareVariable (kind : Ty → SymbolKind) (type : TypeNode)
    (id : Ident) :
    Resolver.Keeps SymbolTable.Extends (Resolver.declareVariable kind type id) := by
  apply Resolver.Keeps.unlessHalted
  split
  · exact (Resolver.keeps_report _ _ _).bind fun _ => .pure _
  · exact (Resolver.keeps_declare _).bind fun _ => .pure _

theorem Resolver.keeps_declareFormals (formals : List Formal) :
    Resolver.Keeps SymbolTable.Extends (Resolver.declareFormals formals) := by
  induction formals with
  | nil => exact .pure _
  | cons formal rest ih =>
      rw [Resolver.declareFormals]
      exact (Resolver.keeps_declareVariable _ _ _).bind fun _ => ih.bind fun _ => .pure _

theorem Resolver.keeps_declareFunction (result : TypeNode) (id : Ident)
    (formals : List Formal) :
    Resolver.Keeps SymbolTable.Extends (Resolver.declareFunction result id formals) :=
  ((Resolver.keeps_declare _).bind fun _ => .pure _).unlessHalted _

theorem Resolver.keeps_exposeFields (fields : List Symbol) :
    Resolver.Keeps SymbolTable.Extends (Resolver.exposeFields fields) := by
  induction fields with
  | nil => exact .pure _
  | cons field rest ih =>
      rw [Resolver.exposeFields]
      exact (((Resolver.keeps_declare field).bind fun _ => .pure _).unlessHalted _).bind
        fun _ => ih

theorem Resolver.keeps_completeStruct (name : String) (fields : SymbolTable)
    (declared : List Symbol) :
    Resolver.Keeps SymbolTable.Extends
      (Resolver.completeStruct name fields declared) := by
  have hset : Resolver.Keeps SymbolTable.Extends (modify fun walk =>
      { walk with structs := walk.structs.setFields name fields } : Resolver Unit) := by
    intro walk
    refine ⟨refl_of _ walk.table, fun other symbol hlookup => ?_, [],
      (List.append_nil _).symm, rfl⟩
    exact (StructRegistry.lookup_setFields walk.structs name other fields).trans hlookup
  exact (hset.bind fun _ => Resolver.keeps_exposeFields declared).unlessHalted _

end Declarations

section Expressions

theorem Ident.keeps_resolve (id : Ident) : Resolver.Keeps Eq id.resolve := by
  apply Resolver.Keeps.unlessHalted
  intro walk
  rw [Resolver.run_get]
  split
  · exact .refl walk
  · exact (Resolver.keeps_report _ _ _).bind (fun _ => .pure _) walk

theorem Expr.keeps_resolveList {exprs : List Expr}
    (h : ∀ expr ∈ exprs, Resolver.Keeps Eq expr.resolve) :
    Resolver.Keeps Eq (Expr.resolveList exprs) := by
  induction exprs with
  | nil => exact .pure _
  | cons expr rest ih =>
      obtain ⟨hexpr, hrest⟩ := List.forall_mem_cons.mp h
      rw [Expr.resolveList]
      exact hexpr.bind fun _ => (ih hrest).bind fun _ => .pure _

theorem Expr.keeps_resolve (expr : Expr) : Resolver.Keeps Eq expr.resolve := by
  induction expr using Expr.induct with
  | int span value => exact .pure _
  | str span text => exact .pure _
  | bool span value => exact .pure _
  | name id =>
      rw [Expr.resolve]
      exact id.keeps_resolve.bind fun _ => .pure _
  | dot loc field ih =>
      rw [Expr.resolve]
      exact ih.bind fun _ => field.keeps_resolve.bind fun _ => .pure _
  | assign lhs rhs ihlhs ihrhs =>
      rw [Expr.resolve]
      exact ihlhs.bind fun _ => ihrhs.bind fun _ => .pure _
  | call callee args ih =>
      rw [Expr.resolve]
      exact callee.keeps_resolve.bind fun _ =>
        (Expr.keeps_resolveList ih).bind fun _ => .pure _
  | unary op operand ih =>
      rw [Expr.resolve]
      exact ih.bind fun _ => .pure _
  | binary op lhs rhs ihlhs ihrhs =>
      rw [Expr.resolve]
      exact ihlhs.bind fun _ => ihrhs.bind fun _ => .pure _

end Expressions

section Trees

theorem Decl.keeps_resolveList {decls : List Decl}
    (h : ∀ decl ∈ decls, Resolver.Keeps SymbolTable.Extends decl.resolve) :
    Resolver.Keeps SymbolTable.Extends (Decl.resolveList decls) := by
  induction decls with
  | nil => exact .pure _
  | cons decl rest ih =>
      obtain ⟨hdecl, hrest⟩ := List.forall_mem_cons.mp h
      rw [Decl.resolveList]
      exact hdecl.bind fun _ => (ih hrest).bind fun _ => .pure _

theorem Stmt.keeps_resolveList {stmts : List Stmt}
    (h : ∀ stmt ∈ stmts, Resolver.Keeps Eq stmt.resolve) :
    Resolver.Keeps Eq (Stmt.resolveList stmts) := by
  induction stmts with
  | nil => exact .pure _
  | cons stmt rest ih =>
      obtain ⟨hstmt, hrest⟩ := List.forall_mem_cons.mp h
      rw [Stmt.resolveList]
      exact hstmt.bind fun _ => (ih hrest).bind fun _ => .pure _

theorem Block.keeps_of_trees {decls : List Decl} {stmts : List Stmt}
    (hdecls : ∀ decl ∈ decls, Resolver.Keeps SymbolTable.Extends decl.resolve)
    (hstmts : ∀ stmt ∈ stmts, Resolver.Keeps Eq stmt.resolve) :
    Resolver.Keeps SymbolTable.Extends (Block.mk decls stmts).resolve := by
  rw [Block.resolve]
  exact (Decl.keeps_resolveList hdecls).bind fun _ =>
    (Stmt.keeps_resolveList hstmts).of_eq.bind fun _ => .pure _

theorem Decl.keeps_resolve_func (result : TypeNode) (id : Ident) (formals : List Formal)
    {body : Block} (h : Resolver.Keeps SymbolTable.Extends body.resolve) :
    Resolver.Keeps SymbolTable.Extends (Decl.func result id formals body).resolve := by
  have hinner : Resolver.Keeps SymbolTable.Extends (do
      let formals ← Resolver.declareFormals formals
      return (formals, ← body.resolve)) :=
    (Resolver.keeps_declareFormals formals).bind fun _ => h.bind fun _ => .pure _
  rw [Decl.resolve]
  exact (Resolver.keeps_declareFunction result id formals).bind fun _ =>
    hinner.scoped.of_eq.bind fun _ => .pure _

theorem Decl.keeps_resolve_struct (id : Ident) {fields : List Decl}
    (h : ∀ field ∈ fields, Resolver.Keeps SymbolTable.Extends field.resolve) :
    Resolver.Keeps SymbolTable.Extends (Decl.struct id fields).resolve := by
  have hfields := (Decl.keeps_resolveList h).withTable .new
  rw [Decl.resolve]
  apply Resolver.Keeps.unlessHalted
  intro walk
  rw [Resolver.run_get]
  split
  · exact (Resolver.keeps_report _ _ _).bind (fun _ => .pure _) walk
  · refine (Resolver.keeps_registerStruct _).bind (fun _ => ?_) walk
    exact hfields.of_eq.bind fun _ =>
      (Resolver.keeps_completeStruct _ _ _).bind fun _ => .pure _

/-- Declarations extend the innermost scope, and statements leave the scopes as they
are. -/
theorem keeps_resolve_both :
    (∀ decl : Decl, Resolver.Keeps SymbolTable.Extends decl.resolve) ∧
    ∀ stmt : Stmt, Resolver.Keeps Eq stmt.resolve := by
  apply Stmt.inductBoth
  case var =>
    intro type id
    rw [Decl.resolve]
    exact (Resolver.keeps_declareVariable _ _ _).bind fun _ => .pure _
  case func =>
    intro result id formals decls stmts ihdecls ihstmts
    exact Decl.keeps_resolve_func result id formals (Block.keeps_of_trees ihdecls ihstmts)
  case struct =>
    intro id fields ihfields
    exact Decl.keeps_resolve_struct id ihfields
  case assign =>
    intro expr
    rw [Stmt.resolve]
    exact expr.keeps_resolve.bind fun _ => .pure _
  case inc =>
    intro loc
    rw [Stmt.resolve]
    exact loc.keeps_resolve.bind fun _ => .pure _
  case dec =>
    intro loc
    rw [Stmt.resolve]
    exact loc.keeps_resolve.bind fun _ => .pure _
  case read =>
    intro loc
    rw [Stmt.resolve]
    exact loc.keeps_resolve.bind fun _ => .pure _
  case write =>
    intro expr
    rw [Stmt.resolve]
    exact expr.keeps_resolve.bind fun _ => .pure _
  case ifThen =>
    intro cond decls stmts ihdecls ihstmts
    rw [Stmt.resolve]
    exact cond.keeps_resolve.bind fun _ =>
      (Block.keeps_of_trees ihdecls ihstmts).scoped.bind fun _ => .pure _
  case ifElse =>
    intro cond decls stmts decls' stmts' ihdecls ihstmts ihdecls' ihstmts'
    rw [Stmt.resolve]
    exact cond.keeps_resolve.bind fun _ =>
      (Block.keeps_of_trees ihdecls ihstmts).scoped.bind fun _ =>
        (Block.keeps_of_trees ihdecls' ihstmts').scoped.bind fun _ => .pure _
  case while_ =>
    intro cond decls stmts ihdecls ihstmts
    rw [Stmt.resolve]
    exact cond.keeps_resolve.bind fun _ =>
      (Block.keeps_of_trees ihdecls ihstmts).scoped.bind fun _ => .pure _
  case call =>
    intro callee args
    rw [Stmt.resolve]
    exact callee.keeps_resolve.bind fun _ =>
      (Expr.keeps_resolveList fun arg _ => arg.keeps_resolve).bind fun _ => .pure _
  case ret =>
    intro value
    cases value with
    | none => exact .pure _
    | some value =>
        rw [Stmt.resolve]
        exact value.keeps_resolve.bind fun _ => .pure _

theorem Block.keeps_resolve (block : Block) :
    Resolver.Keeps SymbolTable.Extends block.resolve := by
  obtain ⟨decls, stmts⟩ := block
  exact Block.keeps_of_trees (fun decl _ => keeps_resolve_both.1 decl)
    fun stmt _ => keeps_resolve_both.2 stmt

/-- The parameters of a function and its body extend the scope of the function. -/
theorem Resolver.keeps_inner (formals : List Formal) (body : Block) :
    Resolver.Keeps SymbolTable.Extends (do
      let formals ← Resolver.declareFormals formals
      return (formals, ← body.resolve)) :=
  (Resolver.keeps_declareFormals formals).bind fun _ => body.keeps_resolve.bind fun _ => .pure _

end Trees

/-- Scope discipline. From every walk, a declaration, the parameters of a function and a
block extend the innermost scope and leave the scopes around it as they are; a statement
and an expression leave all scopes as they are. Struct types stay registered with the
symbols that they have. All of this holds whether the walk halts or not. -/
theorem Walk.keeps_scopes (walk : Walk) :
    (∀ decl : Decl, walk.Keeps SymbolTable.Extends (decl.resolve.run walk).2) ∧
    (∀ formals : List Formal,
      walk.Keeps SymbolTable.Extends ((Resolver.declareFormals formals).run walk).2) ∧
    (∀ block : Block, walk.Keeps SymbolTable.Extends (block.resolve.run walk).2) ∧
    (∀ stmt : Stmt, walk.Keeps Eq (stmt.resolve.run walk).2) ∧
    ∀ expr : Expr, walk.Keeps Eq (expr.resolve.run walk).2 :=
  ⟨fun decl => keeps_resolve_both.1 decl walk,
    fun formals => Resolver.keeps_declareFormals formals walk,
    fun block => block.keeps_resolve walk,
    fun stmt => keeps_resolve_both.2 stmt walk,
    fun expr => expr.keeps_resolve walk⟩

/-- The number of errors that the phases behind are told is that of the errors. -/
theorem Program.errorCount_resolve {program : Program} {names : Namespace}
    (h : program.resolve.outcome = .ok names) :
    names.errorCount = program.resolve.errors.length := by
  have hkeeps := Decl.keeps_resolveList
    (fun decl (_ : decl ∈ program.decls) => keeps_resolve_both.1 decl) .start
  obtain ⟨errors, herrors, hreported⟩ := hkeeps.reports
  rw [Program.resolve] at h ⊢
  cases hrun : (Decl.resolveList program.decls).run .start with
  | mk decls last =>
      rw [hrun] at h herrors hreported
      cases hhalted : last.halted with
      | some reason => exact absurd h (by simp [hhalted])
      | none =>
          simp only [hhalted] at h
          obtain rfl := Except.ok.inj h
          calc last.reported = 0 + errors.length := hreported
            _ = errors.length := Nat.zero_add _
            _ = last.errors.length := congrArg List.length herrors.symm

end MiniLang
