/-
A second walk over a resolved program repeats the first one. At every tree the walk goes
on as it did when the tree was resolved, and answers the tree as it finds it.
-/
import MiniLang.Proofs.Resolution.Relinking
import MiniLang.Proofs.Resolution.Traversal

namespace MiniLang

variable {α β γ : Type}

/-- Whether what a step answers is answered again, when it is resolved by `redo` where the
step was taken. -/
def Resolver.Repeats (redo : α → Resolver α) (step : Resolver α) : Prop :=
  ∀ walk, (redo (step.run walk).1).run walk = step.run walk

section Repeats

variable {redo : α → Resolver α} {redo' : β → Resolver β} {redoBoth : γ → Resolver γ}
  {step : Resolver α} {step' : Resolver β}

theorem Resolver.Repeats.pure {answer : α} (h : redo answer = Pure.pure answer) :
    Resolver.Repeats redo (Pure.pure answer) := fun walk => congrArg (·.run walk) h

theorem Resolver.Repeats.one {make : α → γ} (h : Resolver.Repeats redo step)
    (hredo : ∀ answer, redoBoth (make answer) = do return make (← redo answer)) :
    Resolver.Repeats redoBoth (do return make (← step)) := by
  intro walk
  cases hstep : step.run walk with
  | mk answer after =>
      have hagain := h walk
      rw [hstep] at hagain
      rw [Resolver.run_bind hstep, StateT.run_pure]
      change (redoBoth (make answer)).run walk = _
      rw [hredo, Resolver.run_bind hagain]
      rfl

/-- Two steps behind each other are repeated if each of them is. -/
theorem Resolver.Repeats.pair {make : α → β → γ} (h : Resolver.Repeats redo step)
    (hmore : Resolver.Repeats redo' step')
    (hredo : ∀ answer walk, redoBoth (make answer (step'.run walk).1) = do
      let one ← redo answer
      return make one (← redo' (step'.run walk).1)) :
    Resolver.Repeats redoBoth (do
      let answer ← step
      return make answer (← step')) := by
  intro walk
  cases hstep : step.run walk with
  | mk answer after =>
      cases hstep' : step'.run after with
      | mk answer' last =>
          have hagain := h walk
          have hagain' := hmore after
          have hboth := hredo answer after
          rw [hstep] at hagain
          rw [hstep'] at hagain' hboth
          rw [Resolver.run_bind hstep, Resolver.run_bind hstep', StateT.run_pure]
          change (redoBoth (make answer answer')).run walk = _
          rw [hboth, Resolver.run_bind hagain, Resolver.run_bind hagain']
          rfl

/-- Trees behind each other are resolved again one after the other. -/
theorem Resolver.Repeats.list (resolve : α → Resolver α)
    (resolveList : List α → Resolver (List α)) (hnil : resolveList [] = Pure.pure [])
    (hcons : ∀ first rest, resolveList (first :: rest) = do
      let first ← resolve first
      return first :: (← resolveList rest)) {trees : List α}
    (h : ∀ tree ∈ trees, Resolver.Repeats resolve (resolve tree)) :
    Resolver.Repeats resolveList (resolveList trees) := by
  induction trees with
  | nil =>
      rw [hnil]
      exact .pure hnil
  | cons first rest ih =>
      obtain ⟨hfirst, hrest⟩ := List.forall_mem_cons.mp h
      rw [hcons]
      exact hfirst.pair (ih hrest) fun _ _ => hcons _ _

theorem Resolver.Repeats.scoped (h : Resolver.Repeats redo step)
    (hstep : Resolver.Keeps SymbolTable.Extends step)
    (hredo : ∀ answer, Resolver.Keeps SymbolTable.Extends (redo answer)) :
    Resolver.Repeats (fun answer => Resolver.scoped (redo answer))
      (Resolver.scoped step) := by
  intro walk
  rw [Resolver.run_scoped hstep, Resolver.run_scoped (hredo _), h walk.opened]

theorem Resolver.Repeats.withTable (h : Resolver.Repeats redo step) (table : SymbolTable) :
    Resolver.Repeats (fun answer => Resolver.withTable table (redo answer.2))
      (Resolver.withTable table step) := by
  intro walk
  rw [Resolver.run_withTable walk (Prod.eta _).symm]
  exact Resolver.run_withTable walk ((h _).trans (Prod.eta _).symm)

/-- What a step answers in a walk that has halted is answered there again. -/
theorem Resolver.Repeats.unlessHalted {idle : α}
    (hidle : redo idle = Resolver.unlessHalted idle step)
    (h : ∀ walk : Walk, walk.halted = none → ∀ answer after,
      step.run walk = (answer, after) → (redo answer).run walk = (answer, after)) :
    Resolver.Repeats redo (Resolver.unlessHalted idle step) := by
  intro walk
  cases hhalted : walk.halted with
  | some reason =>
      have hrun : (Resolver.unlessHalted idle step).run walk = (idle, walk) :=
        Resolver.run_idle idle step (by rw [hhalted]; rfl)
      rw [hrun, hidle, hrun]
  | none =>
      rw [Resolver.run_unlessHalted idle step hhalted]
      exact h walk hhalted _ _ rfl

end Repeats

theorem Ident.linkTo_linkTo (id : Ident) (found : Option Symbol) :
    (id.linkTo found).linkTo found = id.linkTo found := by
  cases found <;> rfl

section Names

theorem Ident.repeats (id : Ident) : Resolver.Repeats Ident.resolve id.resolve := by
  refine Resolver.Repeats.unlessHalted rfl fun walk hgoing answer after hrun => ?_
  rw [Resolver.run_get] at hrun
  cases hlookup : walk.table.lookup id.name with
  | some symbol =>
      have hname : (id.linkTo (some symbol)).name = id.name := rfl
      rw [hlookup] at hrun
      obtain rfl : id.linkTo (some symbol) = answer := congrArg Prod.fst hrun
      rw [Ident.resolve, Resolver.run_unlessHalted _ _ hgoing, Resolver.run_get, hname,
        hlookup]
      exact hrun
  | none =>
      rw [hlookup] at hrun
      obtain rfl : id = answer := congrArg Prod.fst hrun
      rw [Ident.resolve, Resolver.run_unlessHalted _ _ hgoing, Resolver.run_get, hlookup]
      exact hrun

/-- Declaring a name again links it to what it is linked to. -/
theorem Resolver.declareVariable_repeats (kind : Ty → SymbolKind) (type : TypeNode)
    (id : Ident) :
    Resolver.Repeats (fun answer => Resolver.declareVariable kind type answer.1)
      (Resolver.declareVariable kind type id) := by
  refine Resolver.Repeats.unlessHalted rfl fun walk hgoing answer after hrun => ?_
  by_cases hvoid : type.type = .void
  · rw [if_pos hvoid] at hrun
    obtain rfl : (id, none) = answer := congrArg Prod.fst hrun
    rw [Resolver.declareVariable, Resolver.run_unlessHalted _ _ hgoing, if_pos hvoid, hrun]
  · rw [if_neg hvoid] at hrun
    cases hdeclare : (Resolver.declare ⟨id.name, kind type.type, id.span⟩).run walk with
    | mk declared last =>
        rw [Resolver.run_bind hdeclare] at hrun
        obtain ⟨rfl, rfl⟩ := Prod.mk.inj hrun
        rw [Resolver.declareVariable, Resolver.run_unlessHalted _ _ hgoing, if_neg hvoid]
        exact (Resolver.run_bind hdeclare).trans (by rw [Ident.linkTo_linkTo]; rfl)

/-- Declaring a function again links its name to what it is linked to. -/
theorem Resolver.declareFunction_repeats (result : TypeNode) (id : Ident)
    (formals : List Formal) :
    Resolver.Repeats (fun answer => Resolver.declareFunction result answer formals)
      (Resolver.declareFunction result id formals) := by
  let kind : SymbolKind := .function (headingSignature result formals)
  have hlinks (own : Ident) : Resolver.declareFunction result own formals =
      Resolver.unlessHalted own do
        return own.linkTo (← Resolver.declare ⟨own.name, kind, own.span⟩) := rfl
  rw [hlinks]
  refine Resolver.Repeats.unlessHalted rfl fun walk hgoing answer after hrun => ?_
  cases hdeclare : (Resolver.declare ⟨id.name, kind, id.span⟩).run walk with
  | mk declared last =>
      rw [Resolver.run_bind hdeclare] at hrun
      obtain ⟨rfl, rfl⟩ := Prod.mk.inj hrun
      rw [hlinks, Resolver.run_unlessHalted _ _ hgoing]
      exact (Resolver.run_bind hdeclare).trans (by rw [Ident.linkTo_linkTo]; rfl)

theorem Resolver.declareFormals_repeats (formals : List Formal) :
    Resolver.Repeats Resolver.declareFormals (Resolver.declareFormals formals) := by
  induction formals with
  | nil => exact .pure rfl
  | cons formal rest ih =>
      exact (Resolver.declareVariable_repeats .param formal.type formal.id).pair ih
        fun _ _ => rfl

/-- The heading of a function declares the types of its parameters, but not their names. -/
theorem Resolver.declareFunction_congr (result : TypeNode) (id : Ident)
    {formals others : List Formal}
    (h : others.map Formal.unlinked = formals.map Formal.unlinked) :
    Resolver.declareFunction result id others =
      Resolver.declareFunction result id formals := by
  have htypes := congrArg (List.map fun formal => formal.type.type) h
  rw [types_unlinked, types_unlinked] at htypes
  rw [Resolver.declareFunction, Resolver.declareFunction, htypes]

end Names

section Expressions

theorem Expr.repeats_list {exprs : List Expr}
    (h : ∀ expr ∈ exprs, Resolver.Repeats Expr.resolve expr.resolve) :
    Resolver.Repeats Expr.resolveList (Expr.resolveList exprs) :=
  Resolver.Repeats.list Expr.resolve Expr.resolveList rfl (fun _ _ => rfl) h

theorem Expr.repeats (expr : Expr) : Resolver.Repeats Expr.resolve expr.resolve := by
  induction expr using Expr.induct with
  | int span value => exact .pure rfl
  | str span text => exact .pure rfl
  | bool span value => exact .pure rfl
  | name id => exact id.repeats.one fun _ => rfl
  | dot loc field ih => exact ih.pair field.repeats fun _ _ => rfl
  | assign lhs rhs ihlhs ihrhs => exact ihlhs.pair ihrhs fun _ _ => rfl
  | call callee args ih =>
      exact callee.repeats.pair (Expr.repeats_list ih) fun _ _ => rfl
  | unary op operand ih => exact ih.one fun _ => rfl
  | binary op lhs rhs ihlhs ihrhs => exact ihlhs.pair ihrhs fun _ _ => rfl

end Expressions

def Decl.Repeats (decl : Decl) : Prop :=
  Resolver.Repeats (fun answer => Decl.resolve answer.1) decl.resolve

def Stmt.Repeats (stmt : Stmt) : Prop := Resolver.Repeats Stmt.resolve stmt.resolve

section Trees

theorem Decl.repeats_list {decls : List Decl} (h : ∀ decl ∈ decls, decl.Repeats) :
    Resolver.Repeats (fun answer => Decl.resolveList answer.1)
      (Decl.resolveList decls) := by
  induction decls with
  | nil => exact .pure rfl
  | cons decl rest ih =>
      obtain ⟨hdecl, hrest⟩ := List.forall_mem_cons.mp h
      exact Resolver.Repeats.pair hdecl (ih hrest) fun _ _ => rfl

theorem Stmt.repeats_list {stmts : List Stmt} (h : ∀ stmt ∈ stmts, stmt.Repeats) :
    Resolver.Repeats Stmt.resolveList (Stmt.resolveList stmts) :=
  Resolver.Repeats.list Stmt.resolve Stmt.resolveList rfl (fun _ _ => rfl) h

theorem Block.repeats {decls : List Decl} {stmts : List Stmt}
    (hdecls : ∀ decl ∈ decls, decl.Repeats) (hstmts : ∀ stmt ∈ stmts, stmt.Repeats) :
    Resolver.Repeats Block.resolve (Block.mk decls stmts).resolve :=
  (Decl.repeats_list hdecls).pair (Stmt.repeats_list hstmts) fun _ _ => rfl

/-- A block in a scope of its own. -/
theorem Block.repeats_scoped {decls : List Decl} {stmts : List Stmt}
    (hdecls : ∀ decl ∈ decls, decl.Repeats) (hstmts : ∀ stmt ∈ stmts, stmt.Repeats) :
    Resolver.Repeats (fun answer => Resolver.scoped (Block.resolve answer))
      (Resolver.scoped (Block.mk decls stmts).resolve) :=
  (Block.repeats hdecls hstmts).scoped (Block.keeps_resolve _) Block.keeps_resolve

theorem Decl.repeats_func (result : TypeNode) (id : Ident) (formals : List Formal)
    {decls : List Decl} {stmts : List Stmt} (hdecls : ∀ decl ∈ decls, decl.Repeats)
    (hstmts : ∀ stmt ∈ stmts, stmt.Repeats) :
    (Decl.func result id formals (.mk decls stmts)).Repeats := by
  let body : Block := .mk decls stmts
  have hpair : Resolver.Repeats (fun inner => do
        let formals ← Resolver.declareFormals inner.1
        return (formals, ← inner.2.resolve)) (do
        let formals ← Resolver.declareFormals formals
        return (formals, ← body.resolve)) :=
    (Resolver.declareFormals_repeats formals).pair (Block.repeats hdecls hstmts)
      fun _ _ => rfl
  have hinner := hpair.scoped (Resolver.keeps_inner _ _) fun _ => Resolver.keeps_inner _ _
  have hblock : Resolver.Relinks Block.unlinked Block.leaves body body.resolve
      body.unlinked.resolve :=
    Block.relinks (fun decl _ => relinks_both.1 decl) fun stmt _ => relinks_both.2 stmt
  refine (Resolver.declareFunction_repeats result id formals).pair hinner
    fun answer walk => ?_
  -- The parameters were resolved before their function is declared again.
  obtain ⟨_, hrelinking⟩ := Resolver.relinks_inner formals hblock walk
  have hformals := (Prod.mk.inj hrelinking.shape).1
  dsimp only
  rw [Decl.resolve, Resolver.declareFunction_congr result answer hformals]

theorem Decl.repeats_struct (id : Ident) {fields : List Decl}
    (hfields : ∀ field ∈ fields, field.Repeats) : (Decl.struct id fields).Repeats := by
  rw [Decl.Repeats, Decl.resolve]
  refine Resolver.Repeats.unlessHalted (by rw [Decl.resolve])
    fun walk hgoing answer after hrun => ?_
  rw [Resolver.run_get] at hrun
  cases hrefusal : walk.structs.refusal? id.name with
  | some fault =>
      rw [hrefusal] at hrun
      obtain rfl : (Decl.struct id fields, none) = answer := congrArg Prod.fst hrun
      rw [Decl.resolve, Resolver.run_unlessHalted _ _ hgoing, Resolver.run_get, hrefusal]
      exact hrun
  | none =>
      let symbol : Symbol := ⟨id.name, .struct, id.span⟩
      let registered : Walk := ((Resolver.registerStruct symbol).run walk).2
      have hregister : (Resolver.registerStruct symbol).run walk = ((), registered) := rfl
      have hagain := (Decl.repeats_list hfields).withTable .new registered
      cases hinner : (Resolver.withTable .new (Decl.resolveList fields)).run registered with
      | mk inner last =>
          have hname : (id.linkTo (some symbol)).name = id.name := rfl
          have hspan : (id.linkTo (some symbol)).span = id.span := rfl
          rw [hinner] at hagain
          rw [hrefusal] at hrun
          dsimp only at hrun
          rw [Resolver.run_bind hregister, Resolver.run_bind hinner] at hrun
          obtain rfl : (Decl.struct (id.linkTo (some symbol)) inner.2.1, none) = answer :=
            congrArg Prod.fst hrun
          rw [Decl.resolve, Resolver.run_unlessHalted _ _ hgoing, Resolver.run_get, hname,
            hspan, hrefusal]
          dsimp only
          rw [Resolver.run_bind hregister, Resolver.run_bind hagain, Ident.linkTo_linkTo]
          exact hrun

/-- Every tree is resolved again as it was. -/
theorem repeats_both : (∀ decl : Decl, decl.Repeats) ∧ ∀ stmt : Stmt, stmt.Repeats := by
  apply Stmt.inductBoth
  case var =>
    exact fun type id => (Resolver.declareVariable_repeats .var type id).one fun _ => rfl
  case func =>
    intro result id formals decls stmts ihdecls ihstmts
    exact Decl.repeats_func result id formals ihdecls ihstmts
  case struct =>
    intro id fields ihfields
    exact Decl.repeats_struct id ihfields
  case assign => exact fun expr => expr.repeats.one fun _ => rfl
  case inc => exact fun loc => loc.repeats.one fun _ => rfl
  case dec => exact fun loc => loc.repeats.one fun _ => rfl
  case read => exact fun loc => loc.repeats.one fun _ => rfl
  case write => exact fun expr => expr.repeats.one fun _ => rfl
  case ifThen =>
    intro cond decls stmts ihdecls ihstmts
    exact cond.repeats.pair (Block.repeats_scoped ihdecls ihstmts) fun _ _ => rfl
  case ifElse =>
    intro cond decls stmts decls' stmts' ihdecls ihstmts ihdecls' ihstmts'
    have hbodies : Resolver.Repeats (fun bodies => do
        let thenBody ← Resolver.scoped (Block.resolve bodies.1)
        return (thenBody, ← Resolver.scoped (Block.resolve bodies.2))) (do
        let thenBody ← Resolver.scoped (Block.mk decls stmts).resolve
        return (thenBody, ← Resolver.scoped (Block.mk decls' stmts').resolve)) :=
      (Block.repeats_scoped ihdecls ihstmts).pair (Block.repeats_scoped ihdecls' ihstmts')
        fun _ _ => rfl
    have hall : Resolver.Repeats Stmt.resolve (do
        let cond ← cond.resolve
        let bodies ← (do
          let thenBody ← Resolver.scoped (Block.mk decls stmts).resolve
          return (thenBody, ← Resolver.scoped (Block.mk decls' stmts').resolve))
        return Stmt.ifElse cond bodies.1 bodies.2) :=
      cond.repeats.pair hbodies fun _ _ => rfl
    exact hall
  case while_ =>
    intro cond decls stmts ihdecls ihstmts
    exact cond.repeats.pair (Block.repeats_scoped ihdecls ihstmts) fun _ _ => rfl
  case call =>
    intro callee args
    have hargs := Expr.repeats_list fun arg (_ : arg ∈ args) => arg.repeats
    exact callee.repeats.pair hargs fun _ _ => rfl
  case ret =>
    intro value
    cases value with
    | none => exact .pure rfl
    | some value => exact value.repeats.one fun _ => rfl

end Trees

/-- A program is walked over like the program without its links. -/
theorem Program.lastWalk_unlinked (program : Program) :
    program.unlinked.lastWalk = program.lastWalk := by
  have hlist := Decl.relinks_list fun decl (_ : decl ∈ program.decls) => relinks_both.1 decl
  exact (hlist .start).1.symm

theorem Program.resolve_again (program : Program) :
    program.resolve.program.resolve = program.resolve := by
  have hlist := Decl.repeats_list fun decl (_ : decl ∈ program.decls) => repeats_both.1 decl
  have hagain := hlist .start
  cases hrun : (Decl.resolveList program.decls).run .start with
  | mk answer last =>
      rw [hrun] at hagain
      have hprogram : program.resolve.program = ⟨answer.1⟩ := by
        rw [Program.resolve, hrun]
      rw [hprogram, Program.resolve, hagain, Program.resolve, hrun]

/-- Links that are there before a program is resolved make no difference to it. Programs
that differ in their links alone have the same errors and the same outcome. The link of a
name is the one that it has if the program is resolved without any links, and otherwise the
one from before. Hence a program that was resolved stays as it is when it is resolved
again. -/
theorem Program.resolve_relinks (program : Program) :
    (∀ other : Program, other.unlinked = program.unlinked →
      other.resolve.errors = program.resolve.errors ∧
        other.resolve.outcome = program.resolve.outcome) ∧
    program.resolve.program.unlinked = program.unlinked ∧
    idsOf program.resolve.program.leaves =
      List.zipWith (fun fresh old => ⟨old.name, old.span, fresh.symbol.or old.symbol⟩)
        (idsOf program.unlinked.resolve.program.leaves) (idsOf program.leaves) ∧
    program.resolve.program.resolve = program.resolve := by
  refine ⟨fun other hother => ?_, program.relinking.shape,
    program.relinking.ids.eq_zipWith, program.resolve_again⟩
  have hwalk : other.lastWalk = program.lastWalk := by
    rw [← other.lastWalk_unlinked, hother, program.lastWalk_unlinked]
  constructor
  · rw [other.errors_resolve, hwalk, program.errors_resolve]
  · rw [other.outcome_resolve, hwalk, program.outcome_resolve]

/-- Two names with the same old link: the one that is declared is linked anew, and the other
one keeps the link. -/
theorem Program.resolve_relinks_stale : ∃ (program other : Program) (stale x f : Symbol),
    other.unlinked = program.unlinked ∧ other.resolve.errors = program.resolve.errors ∧
    (idsOf other.leaves).map Ident.symbol = [none, none, none, none] ∧
    (idsOf program.leaves).map Ident.symbol = [none, none, some stale, some stale] ∧
    (idsOf program.resolve.program.leaves).map Ident.symbol =
      [some x, some f, some x, some stale] := by
  let stale : Symbol := ⟨"z", .var .bool, .point .origin⟩
  let x : Symbol := ⟨"x", .var .int, .point ⟨1, 5⟩⟩
  let f : Symbol := ⟨"f", .function ⟨[], .void⟩, .point ⟨2, 6⟩⟩
  let program (link : Option Symbol) : Program :=
    ⟨[.var .int ⟨"x", x.span, none⟩,
      .func .void ⟨"f", f.span, none⟩ [] (.mk [] [.assign (.assign
        (.name ⟨"x", .point ⟨3, 1⟩, link⟩) (.name ⟨"y", .point ⟨3, 5⟩, link⟩))])]⟩
  obtain ⟨hindependent, _, hids, _⟩ := Program.resolve_relinks (program (some stale))
  have hunlinked : (program none).unlinked = (program (some stale)).unlinked := rfl
  obtain ⟨herrors, _⟩ := hindependent (program none) hunlinked
  refine ⟨program (some stale), program none, stale, x, f, hunlinked, herrors, by decide,
    by decide, ?_⟩
  rw [hids]
  decide

end MiniLang
