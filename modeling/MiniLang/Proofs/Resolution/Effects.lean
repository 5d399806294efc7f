/-
What the steps of a walk do to it, also where it has halted. A declaration enters its symbol
or leaves the scopes as they are, an expression never halts the walk, and a struct halts it
only where it is registered or inside.
-/
import MiniLang.Proofs.Resolution.Following
import Mathlib

namespace MiniLang

variable {α β : Type}

/-- A step is taken unless the walk has halted. -/
theorem Resolver.run_unlessHalted_eq (idle : α) (step : Resolver α) (walk : Walk) :
    (Resolver.unlessHalted idle step).run walk =
      if walk.halted.isSome = true then (idle, walk) else step.run walk := by
  rw [Resolver.unlessHalted, Resolver.run_get]
  split
  · rfl
  · rfl

theorem Walk.Keeps.frames_ne_nil {before after : Walk}
    (h : Walk.Keeps SymbolTable.Extends before after) (hne : before.table.frames ≠ []) :
    after.table.frames ≠ [] := by
  have hdepth : after.table.frames.length = before.table.frames.length := h.scopes.depth
  rw [← List.length_pos_iff, hdepth, List.length_pos_iff]
  exact hne

section Declarations

/-- What declaring a symbol comes to: it is entered in the innermost scope, or all scopes
and struct types stay as they are. -/
inductive Walk.Declares (symbol : Symbol) (before : Walk) : Option Symbol → Walk → Prop where
  | entered {table : SymbolTable}
      (h : before.table.declare symbol.name symbol = .ok table) :
      Declares symbol before (some symbol) { before with table := table }
  | refused {after : Walk} (htable : after.table = before.table)
      (hstructs : after.structs = before.structs) : Declares symbol before none after

theorem Resolver.declares (symbol : Symbol) (walk : Walk) :
    walk.Declares symbol ((Resolver.declare symbol).run walk).1
      ((Resolver.declare symbol).run walk).2 := by
  rw [Resolver.declare, Resolver.run_get]
  split
  · exact .refused rfl rfl
  · exact .refused rfl rfl
  · split
    · exact .refused rfl rfl
    · next hdeclare => exact .entered hdeclare

/-- Only a name that is not empty is entered. -/
theorem Walk.Declares.name_ne {symbol found : Symbol} {before after : Walk}
    (h : before.Declares symbol (some found) after) : found.name ≠ "" := by
  cases h with
  | entered hdeclare =>
      intro hname
      rw [SymbolTable.declare] at hdeclare
      split at hdeclare
      · cases hdeclare
      · rw [if_pos (.inl hname)] at hdeclare
        cases hdeclare

theorem Resolver.declareVariable_declares (kind : Ty → SymbolKind) (type : TypeNode)
    (id : Ident) (walk : Walk) : ∃ link,
    ((Resolver.declareVariable kind type id).run walk).1 = (id.linkTo link, link) ∧
      walk.Declares ⟨id.name, kind type.type, id.span⟩ link
        ((Resolver.declareVariable kind type id).run walk).2 := by
  rw [Resolver.declareVariable, Resolver.run_unlessHalted_eq]
  split
  · exact ⟨none, rfl, .refused rfl rfl⟩
  · by_cases hvoid : type.type = .void
    · rw [if_pos hvoid]
      exact ⟨none, rfl, .refused rfl rfl⟩
    · rw [if_neg hvoid]
      exact ⟨_, rfl, Resolver.declares _ walk⟩

theorem Resolver.declareFunction_declares (result : TypeNode) (id : Ident)
    (formals : List Formal) (walk : Walk) : ∃ link,
    ((Resolver.declareFunction result id formals).run walk).1 = id.linkTo link ∧
      walk.Declares ⟨id.name, .function (headingSignature result formals), id.span⟩ link
        ((Resolver.declareFunction result id formals).run walk).2 := by
  rw [Resolver.declareFunction, Resolver.run_unlessHalted_eq]
  split
  · exact ⟨none, rfl, .refused rfl rfl⟩
  · exact ⟨_, rfl, Resolver.declares _ walk⟩

/-- The symbol that a declaration answers has a name. -/
theorem Decl.name_ne_of_answer (decl : Decl) (walk : Walk) :
    ∀ symbol ∈ (decl.resolve.run walk).1.2, symbol.name ≠ "" := by
  intro symbol hsymbol
  cases decl with
  | var type id =>
      obtain ⟨link, hanswer, hdeclares⟩ :=
        Resolver.declareVariable_declares .var type id walk
      have hlink : link = some symbol := by
        rw [Decl.resolve, Resolver.run_bind (Prod.eta _).symm, hanswer] at hsymbol
        exact hsymbol
      rw [hlink] at hdeclares
      exact hdeclares.name_ne
  | func result id formals body =>
      rw [Decl.resolve] at hsymbol
      cases hsymbol
  | struct id fields =>
      rw [Decl.resolve, Resolver.run_unlessHalted_eq] at hsymbol
      split at hsymbol
      · cases hsymbol
      · rw [Resolver.run_get] at hsymbol
        split at hsymbol
        · cases hsymbol
        · cases hsymbol

theorem Decl.name_ne_of_answers (decls : List Decl) (walk : Walk) :
    ∀ symbol ∈ ((Decl.resolveList decls).run walk).1.2, symbol.name ≠ "" := by
  induction decls generalizing walk with
  | nil => exact List.forall_mem_nil _
  | cons decl rest ih =>
      rw [Decl.resolveList, Resolver.run_bind (Prod.eta (decl.resolve.run walk)).symm,
        Resolver.run_bind (Prod.eta _).symm]
      refine List.forall_mem_append.mpr ⟨fun symbol hsymbol => ?_, ih _⟩
      exact decl.name_ne_of_answer walk symbol (Option.mem_toList.mp hsymbol)

end Declarations

/-- Whether a step never halts a walk. -/
def Resolver.Quiet (step : Resolver α) : Prop :=
  ∀ walk, (step.run walk).2.halted = walk.halted

section Expressions

theorem Resolver.Quiet.pure (answer : α) : (Pure.pure answer : Resolver α).Quiet :=
  fun _ => rfl

theorem Resolver.Quiet.bind {step : Resolver α} {next : α → Resolver β} (h : step.Quiet)
    (hnext : ∀ answer, (next answer).Quiet) : (step >>= next).Quiet :=
  fun walk => (hnext (step.run walk).1 (step.run walk).2).trans (h walk)

theorem Ident.quiet_resolve (id : Ident) : id.resolve.Quiet := by
  intro walk
  rw [Ident.resolve, Resolver.run_unlessHalted_eq]
  split
  · rfl
  · rw [Resolver.run_get]
    split
    · rfl
    · rfl

theorem Expr.quiet_resolveList {exprs : List Expr}
    (h : ∀ expr ∈ exprs, expr.resolve.Quiet) : (Expr.resolveList exprs).Quiet := by
  induction exprs with
  | nil => exact .pure _
  | cons expr rest ih =>
      obtain ⟨hexpr, hrest⟩ := List.forall_mem_cons.mp h
      rw [Expr.resolveList]
      exact hexpr.bind fun _ => (ih hrest).bind fun _ => .pure _

/-- An expression never halts a walk. -/
theorem Expr.quiet_resolve (expr : Expr) : expr.resolve.Quiet := by
  induction expr using Expr.induct with
  | int span value => exact .pure _
  | str span text => exact .pure _
  | bool span value => exact .pure _
  | name id =>
      rw [Expr.resolve]
      exact id.quiet_resolve.bind fun _ => .pure _
  | dot loc field ih =>
      rw [Expr.resolve]
      exact ih.bind fun _ => field.quiet_resolve.bind fun _ => .pure _
  | assign lhs rhs ihlhs ihrhs =>
      rw [Expr.resolve]
      exact ihlhs.bind fun _ => ihrhs.bind fun _ => .pure _
  | call callee args ih =>
      rw [Expr.resolve]
      exact callee.quiet_resolve.bind fun _ =>
        (Expr.quiet_resolveList ih).bind fun _ => .pure _
  | unary op operand ih =>
      rw [Expr.resolve]
      exact ih.bind fun _ => .pure _
  | binary op lhs rhs ihlhs ihrhs =>
      rw [Expr.resolve]
      exact ihlhs.bind fun _ => ihrhs.bind fun _ => .pure _

end Expressions

section Structs

variable {id : Ident} {fields : List Decl} {walk : Walk}

theorem Resolver.halted_declare {symbol : Symbol} (hname : symbol.name ≠ "")
    (hne : walk.table.frames ≠ []) :
    ((Resolver.declare symbol).run walk).2.halted = walk.halted := by
  obtain ⟨frame, outer, hframes⟩ := List.exists_cons_of_ne_nil hne
  have hlookup :
      walk.table.lookupInnermost symbol.name = .ok (frame.lookup symbol.name) := by
    rw [SymbolTable.lookupInnermost, hframes]
  rw [Resolver.run_declare, hlookup]
  cases frame.lookup symbol.name with
  | some found => rfl
  | none =>
      dsimp only
      rw [if_neg hname]

/-- Fields that have names are exposed without a halt. -/
theorem Resolver.halted_exposeFields {declared : List Symbol}
    (hnames : ∀ field ∈ declared, field.name ≠ "") (hne : walk.table.frames ≠ []) :
    ((Resolver.exposeFields declared).run walk).2.halted = walk.halted := by
  induction declared generalizing walk with
  | nil => rfl
  | cons field rest ih =>
      obtain ⟨hname, hrest⟩ := List.forall_mem_cons.mp hnames
      let step : Resolver Unit := Resolver.unlessHalted () do
        let _ ← Resolver.declare field
      have hkeeps : step.Keeps SymbolTable.Extends :=
        ((Resolver.keeps_declare field).bind fun _ => .pure _).unlessHalted _
      have hfirst : (step.run walk).2.halted = walk.halted := by
        rw [Resolver.run_unlessHalted_eq]
        split
        · rfl
        · exact Resolver.halted_declare hname hne
      rw [Resolver.exposeFields, Resolver.run_bind (Prod.eta (step.run walk)).symm]
      exact (ih hrest ((hkeeps walk).frames_ne_nil hne)).trans hfirst

theorem Resolver.halted_completeStruct {name : String} {table : SymbolTable}
    {declared : List Symbol} (hnames : ∀ symbol ∈ declared, symbol.name ≠ "")
    (hne : walk.table.frames ≠ []) :
    ((Resolver.completeStruct name table declared).run walk).2.halted = walk.halted := by
  rw [Resolver.completeStruct, Resolver.run_unlessHalted_eq]
  split
  · rfl
  · rw [Resolver.run_bind (by rfl)]
    exact Resolver.halted_exposeFields hnames hne

/-- Whether a walk passes a struct without a step: it has halted, or the name of the struct
is refused. -/
def Walk.passes (walk : Walk) (name : String) : Bool :=
  walk.halted.isSome || (walk.structs.refusal? name).isSome

/-- The walk behind the registration of a struct. -/
def Walk.registered (walk : Walk) (id : Ident) : Walk :=
  ((Resolver.registerStruct ⟨id.name, .struct, id.span⟩).run walk).2

/-- The walk that comes to the fields of a struct. -/
def Walk.inside (walk : Walk) (id : Ident) : Walk :=
  { walk.registered id with table := .new }

theorem Walk.passes_eq_false : walk.passes id.name = false ↔
    walk.halted = none ∧ walk.structs.refusal? id.name = none := by
  rw [Walk.passes, Bool.or_eq_false_iff, Option.isSome_eq_false_iff,
    Option.isSome_eq_false_iff, Option.isNone_iff_eq_none, Option.isNone_iff_eq_none]

/-- A struct that is passed stays as it is. -/
theorem Decl.run_struct_passed (h : walk.passes id.name = true) :
    ((Decl.struct id fields).resolve.run walk).1 = (.struct id fields, none) ∧
      ((Decl.struct id fields).resolve.run walk).2.halted = walk.halted := by
  rw [Decl.resolve, Resolver.run_unlessHalted_eq]
  split
  · exact ⟨rfl, rfl⟩
  · next hgoing =>
      have hrefused := (Bool.or_eq_true_iff.mp h).resolve_left hgoing
      obtain ⟨fault, hrefusal⟩ := Option.isSome_iff_exists.mp hrefused
      rw [Resolver.run_get, hrefusal]
      exact ⟨rfl, rfl⟩

theorem Walk.table_registered : (walk.registered id).table = walk.table := by
  have hkeeps : Resolver.Keeps Eq (Resolver.registerStruct ⟨id.name, .struct, id.span⟩) :=
    Resolver.keeps_registerStruct _
  exact (hkeeps walk).scopes.symm

/-- A struct that is not passed is linked, and its fields are walked over in a table of
their own. -/
theorem Decl.run_struct (h : walk.passes id.name = false) {inner : Walk}
    {answer : List Decl × List Symbol}
    (hfields : (Decl.resolveList fields).run (walk.inside id) = (answer, inner)) :
    (Decl.struct id fields).resolve.run walk =
      ((.struct (id.linkTo (some ⟨id.name, .struct, id.span⟩)) answer.1, none),
        ((Resolver.completeStruct id.name inner.table answer.2).run
          { inner with table := walk.table }).2) := by
  obtain ⟨hgoing, hrefusal⟩ := Walk.passes_eq_false.mp h
  have hregister : (Resolver.registerStruct ⟨id.name, .struct, id.span⟩).run walk =
      ((), walk.registered id) := rfl
  have hinside := Resolver.run_withTable (walk.registered id) hfields
  rw [Walk.table_registered] at hinside
  rw [Decl.resolve, Resolver.run_unlessHalted _ _ hgoing, Resolver.run_get, hrefusal]
  dsimp only
  rw [Resolver.run_bind hregister, Resolver.run_bind hinside]
  rfl

/-- Behind a struct that is not passed, the walk goes on if it went on behind the fields. -/
theorem Decl.halted_struct (h : walk.passes id.name = false)
    (hne : walk.table.frames ≠ []) :
    ((Decl.struct id fields).resolve.run walk).2.halted =
      ((Decl.resolveList fields).run (walk.inside id)).2.halted := by
  rw [Decl.run_struct h (Prod.eta _).symm]
  exact Resolver.halted_completeStruct (Decl.name_ne_of_answers fields _) hne

/-- Only a name that is refused or empty cannot be registered. -/
theorem StructRegistry.name_eq_of_register {registry : StructRegistry} {info : StructInfo}
    {reason : TableError} (hrefusal : registry.refusal? info.symbol.name = none)
    (h : registry.register info = .error reason) : info.symbol.name = "" := by
  by_contra hname
  rw [StructRegistry.register, if_neg hname] at h
  rw [StructRegistry.refusal?] at hrefusal
  cases hcontains : registry.contains info.symbol.name with
  | false =>
      rw [hcontains] at h
      cases h
  | true =>
      rw [hcontains] at hrefusal
      split at hrefusal
      · cases hrefusal
      · cases hrefusal

end Structs

end MiniLang
