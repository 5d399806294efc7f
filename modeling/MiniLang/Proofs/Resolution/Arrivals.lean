/-
The names that a program declares, and how a walk comes to them. An arrival is a declared
name with the walk in front of the step that declares it and the walk behind that step. It
tells whether the step entered the symbol of the name, and whether it halted the walk.
-/
import MiniLang.Proofs.Resolution.Effects

namespace MiniLang

/-- A name with what it is declared to be. -/
structure Declared where
  id : Ident
  kind : SymbolKind
deriving Repr, DecidableEq

def Declared.symbol (declared : Declared) : Symbol :=
  ⟨declared.id.name, declared.kind, declared.id.span⟩

def Formal.declared (formal : Formal) : Declared := ⟨formal.id, .param formal.type.type⟩

mutual

/-- The names that are declared by a declaration and inside it, in the order of the text. -/
def Decl.declared : Decl → List Declared
  | .var type id => [⟨id, .var type.type⟩]
  | .func result id formals body =>
      ⟨id, .function (headingSignature result formals)⟩ ::
        (formals.map Formal.declared ++ body.declared)
  | .struct id fields => ⟨id, .struct⟩ :: Decl.declaredOfList fields

def Decl.declaredOfList : List Decl → List Declared
  | [] => []
  | decl :: rest => decl.declared ++ Decl.declaredOfList rest

def Block.declared : Block → List Declared
  | .mk decls stmts => Decl.declaredOfList decls ++ Stmt.declaredOfList stmts

def Stmt.declared : Stmt → List Declared
  | .ifThen _ body => body.declared
  | .ifElse _ thenBody elseBody => thenBody.declared ++ elseBody.declared
  | .while_ _ body => body.declared
  | _ => []

def Stmt.declaredOfList : List Stmt → List Declared
  | [] => []
  | stmt :: rest => stmt.declared ++ Stmt.declaredOfList rest

end

/-- The names that are declared in a program. -/
def Program.declared (program : Program) : List Declared := Decl.declaredOfList program.decls

/-- A declared name, where a walk stands when it comes to the name, and where it stands
behind the step that declares the name. -/
structure Arrival extends Declared where
  before : Walk
  after : Walk

/-- How a walk comes to a name that is declared in a step. -/
def Arrival.of {α : Type} (declared : Declared) (step : Resolver α) (walk : Walk) :
    Arrival :=
  ⟨declared, walk, (step.run walk).2⟩

/-- How a walk passes a name without a step. -/
def Arrival.passed (walk : Walk) (declared : Declared) : Arrival := ⟨declared, walk, walk⟩

/-- Whether the step at a name entered its symbol: a struct into the registry, and
anything else into the innermost scope. Nothing else is changed then. -/
def Arrival.Entered (arrival : Arrival) : Prop :=
  if arrival.kind = .struct then
    ∃ structs, arrival.before.structs.register ⟨arrival.symbol, .new⟩ = .ok structs ∧
      arrival.after = { arrival.before with structs := structs }
  else
    ∃ table, arrival.before.table.declare arrival.id.name arrival.symbol = .ok table ∧
      arrival.after = { arrival.before with table := table }

def Arrival.Halts (arrival : Arrival) : Prop :=
  arrival.before.halted = none ∧ arrival.after.halted ≠ none

def Formal.arrivals (walk : Walk) : List Formal → List Arrival
  | [] => []
  | formal :: rest =>
      let step := Resolver.declareVariable .param formal.type formal.id
      .of formal.declared step walk :: Formal.arrivals (step.run walk).2 rest

mutual

/-- How a walk comes to the names that are declared by a declaration and inside it. The
fields of a struct are declared in a table of their own, unless the struct is passed. -/
def Decl.arrivals (walk : Walk) : Decl → List Arrival
  | .var type id =>
      [.of ⟨id, .var type.type⟩ (Resolver.declareVariable .var type id) walk]
  | .func result id formals body =>
      let heading := Resolver.declareFunction result id formals
      let inside := (heading.run walk).2.opened
      .of ⟨id, .function (headingSignature result formals)⟩ heading walk ::
        (Formal.arrivals inside formals
          ++ body.arrivals ((Resolver.declareFormals formals).run inside).2)
  | .struct id fields =>
      if walk.passes id.name = true then
        .passed walk ⟨id, .struct⟩ :: (Decl.declaredOfList fields).map (.passed walk)
      else
        .of ⟨id, .struct⟩ (Resolver.registerStruct ⟨id.name, .struct, id.span⟩) walk ::
          Decl.arrivalsOfList (walk.inside id) fields

def Decl.arrivalsOfList (walk : Walk) : List Decl → List Arrival
  | [] => []
  | decl :: rest =>
      decl.arrivals walk ++ Decl.arrivalsOfList (decl.resolve.run walk).2 rest

def Block.arrivals (walk : Walk) : Block → List Arrival
  | .mk decls stmts =>
      Decl.arrivalsOfList walk decls
        ++ Stmt.arrivalsOfList ((Decl.resolveList decls).run walk).2 stmts

/-- How a walk comes to the names that are declared inside a statement. Every block inside
it is a scope. -/
def Stmt.arrivals (walk : Walk) : Stmt → List Arrival
  | .ifThen cond body => body.arrivals (cond.resolve.run walk).2.opened
  | .ifElse cond thenBody elseBody =>
      let middle := (cond.resolve.run walk).2
      thenBody.arrivals middle.opened
        ++ elseBody.arrivals ((Resolver.scoped thenBody.resolve).run middle).2.opened
  | .while_ cond body => body.arrivals (cond.resolve.run walk).2.opened
  | _ => []

def Stmt.arrivalsOfList (walk : Walk) : List Stmt → List Arrival
  | [] => []
  | stmt :: rest =>
      stmt.arrivals walk ++ Stmt.arrivalsOfList (stmt.resolve.run walk).2 rest

end

/-- How the resolution of a program comes to the names that are declared in it. -/
def Program.arrivals (program : Program) : List Arrival :=
  Decl.arrivalsOfList .start program.decls

section Arrival

variable {arrival : Arrival}

theorem Arrival.entered_of_struct (h : arrival.kind = .struct) : arrival.Entered ↔
    ∃ structs, arrival.before.structs.register ⟨arrival.symbol, .new⟩ = .ok structs ∧
      arrival.after = { arrival.before with structs := structs } := by
  rw [Arrival.Entered, if_pos h]

theorem Arrival.entered_of_scope (h : arrival.kind ≠ .struct) : arrival.Entered ↔
    ∃ table, arrival.before.table.declare arrival.id.name arrival.symbol = .ok table ∧
      arrival.after = { arrival.before with table := table } := by
  rw [Arrival.Entered, if_neg h]

/-- A declaration adds to the innermost scope. -/
theorem SymbolTable.declare_ne_self (table : SymbolTable) (name : String) (symbol : Symbol) :
    table.declare name symbol ≠ .ok table := by
  obtain ⟨frames⟩ := table
  cases frames with
  | nil => rintro ⟨⟩
  | cons frame outer =>
      simp only [SymbolTable.declare]
      split
      · rintro ⟨⟩
      · split
        · rintro ⟨⟩
        · intro hsame
          have hframes := congrArg SymbolTable.frames (Except.ok.inj hsame)
          exact List.cons_ne_self _ _ (List.cons.inj hframes).1

/-- A registration adds to the registry. -/
theorem StructRegistry.register_ne_self (registry : StructRegistry) (info : StructInfo) :
    registry.register info ≠ .ok registry := by
  rw [StructRegistry.register]
  split
  · rintro ⟨⟩
  · split
    · rintro ⟨⟩
    · intro hsame
      have hentries := congrArg StructRegistry.entries (Except.ok.inj hsame)
      exact List.cons_ne_nil _ _ (List.append_right_eq_self.mp hentries)

/-- Nothing was entered where all scopes and struct types are the same as before. -/
theorem Arrival.not_entered_of_same (htable : arrival.after.table = arrival.before.table)
    (hstructs : arrival.after.structs = arrival.before.structs) : ¬ arrival.Entered := by
  by_cases hkind : arrival.kind = .struct
  · rw [Arrival.entered_of_struct hkind]
    rintro ⟨structs, hregister, hafter⟩
    rw [hafter] at hstructs
    obtain rfl : structs = arrival.before.structs := hstructs
    exact StructRegistry.register_ne_self _ _ hregister
  · rw [Arrival.entered_of_scope hkind]
    rintro ⟨table, hdeclare, hafter⟩
    rw [hafter] at htable
    obtain rfl : table = arrival.before.table := htable
    exact SymbolTable.declare_ne_self _ _ _ hdeclare

/-- Where a symbol was entered, the walk goes on. -/
theorem Arrival.Entered.not_halts (h : arrival.Entered) : ¬ arrival.Halts := by
  rintro ⟨hgoing, hhalted⟩
  refine hhalted (Eq.trans ?_ hgoing)
  by_cases hkind : arrival.kind = .struct
  · obtain ⟨_, _, hafter⟩ := (Arrival.entered_of_struct hkind).mp h
    rw [hafter]
  · obtain ⟨_, _, hafter⟩ := (Arrival.entered_of_scope hkind).mp h
    rw [hafter]

theorem Arrival.not_entered_passed (walk : Walk) (declared : Declared) :
    ¬ (Arrival.passed walk declared).Entered := Arrival.not_entered_of_same rfl rfl

theorem Arrival.not_halts_passed (walk : Walk) (declared : Declared) :
    ¬ (Arrival.passed walk declared).Halts := fun h => h.2 h.1

end Arrival

end MiniLang
