/-
What halts a walk: an empty name that has to be declared, and nothing else. The errors that
are reported by then are reported as well where that name is another one.
-/
import MiniLang.Proofs.Resolution.Holes
import MiniLang.Proofs.Resolution.Parting
import MiniLang.Proofs.Resolution.Traversal

namespace MiniLang

variable {all before : List Visit}

section Steps

theorem Decl.visits_any (decls : List Decl) (before : List Visit) :
    Resolver.Visits all before (Decl.resolveList decls) (Decl.visitsOfList before decls)
      fun _ => True :=
  (Decl.visits_list (fun decl _ => visited_both.1 decl) before).any

theorem Stmt.visits_any (stmts : List Stmt) (before : List Visit) :
    Resolver.Visits all before (Stmt.resolveList stmts) (Stmt.visitsOfList before stmts)
      fun _ => True :=
  Resolver.Visits.any (Stmt.marks_list (fun stmt _ => visited_both.2 stmt) before)

theorem Block.visits_any (block : Block) (before : List Visit) :
    Resolver.Visits all before (Resolver.scoped block.resolve) (block.visits before)
      fun _ => True := by
  obtain ⟨decls, stmts⟩ := block
  exact Resolver.Visits.any (Block.marks_scoped (fun decl _ => visited_both.1 decl)
    fun stmt _ => visited_both.2 stmt)

theorem Decl.calm_list (decls : List Decl) : Resolver.Calm (Decl.resolveList decls) :=
  .of_visits (fun _ => Decl.visits_any decls)
    (Decl.keeps_resolveList fun decl _ => keeps_resolve_both.1 decl)

theorem Stmt.calm_list (stmts : List Stmt) : Resolver.Calm (Stmt.resolveList stmts) :=
  .of_visits (fun _ => Stmt.visits_any stmts)
    (Stmt.keeps_resolveList fun stmt _ => keeps_resolve_both.2 stmt)

theorem Block.calm_scoped (block : Block) :
    Resolver.Calm (Resolver.scoped block.resolve) :=
  .of_visits (fun _ => block.visits_any) block.keeps_resolve.scoped

theorem Block.calm (block : Block) : Resolver.Calm block.resolve := by
  obtain ⟨decls, stmts⟩ := block
  rw [Block.resolve]
  exact (Decl.calm_list decls).bind fun _ => (Stmt.calm_list stmts).last

theorem Formal.calm_list (formals : List Formal) :
    Resolver.Calm (Resolver.declareFormals formals) :=
  .of_visits (fun _ _ => (Resolver.declareFormals_marks formals).any)
    (Resolver.keeps_declareFormals formals)

theorem Resolver.calm_inner (formals : List Formal) (body : Block) :
    Resolver.Calm (Resolver.scoped do
      let formals ← Resolver.declareFormals formals
      return (formals, ← body.resolve)) :=
  Resolver.Calm.scoped ((Formal.calm_list formals).bind fun _ => body.calm.last)
    (Resolver.keeps_inner formals body)

theorem Resolver.calm_completeStruct (name : String) (fields : SymbolTable)
    (declared : List Symbol) :
    Resolver.Calm (Resolver.completeStruct name fields declared) :=
  .unlessHalted (Resolver.keeps_completeStruct name fields declared)

end Steps

section Parts

variable {id other : Ident} (hname : id.name = "")

include hname

/-- Where a name is empty, declaring it halts the walk. -/
theorem Walk.Sound.parts_declare {α β : Type} {relate : α → β → Prop} {walk : Walk}
    (hwalk : walk.Sound all before) (kind kind' : SymbolKind) (answerOf : Option Symbol → α)
    (twinOf : Option Symbol → β) :
    Resolver.PartsAt relate
      (do return answerOf (← Resolver.declare ⟨id.name, kind, id.span⟩))
      (do return twinOf (← Resolver.declare ⟨other.name, kind', other.span⟩)) walk := by
  have hkeeps : Resolver.Keeps SymbolTable.Extends
      (do return twinOf (← Resolver.declare ⟨other.name, kind', other.span⟩)) :=
    (Resolver.keeps_declare _).bind fun _ => .pure _
  refine .stops ?_ (hkeeps.reports walk)
  rw [Resolver.run_bind (hwalk.declare_nameless hname)]
  rfl

theorem Resolver.declareVariable_parts (kind : Ty → SymbolKind) {type : TypeNode}
    (htype : type.type ≠ .void) :
    Resolver.Parts (fun answer twin => answer.2 = twin.2)
      (Resolver.declareVariable kind type id)
      (Resolver.declareVariable kind type other) := by
  refine Resolver.Parts.unlessHalted rfl fun hwalk => ?_
  rw [if_neg htype, if_neg htype]
  exact hwalk.parts_declare hname _ _ _ _

theorem Resolver.declareFunction_parts (result : TypeNode) (formals : List Formal) :
    Resolver.Parts (fun _ _ => True) (Resolver.declareFunction result id formals)
      (Resolver.declareFunction result other formals) :=
  Resolver.Parts.unlessHalted trivial fun hwalk => hwalk.parts_declare hname _ _ _ _

theorem Resolver.declareFormals_parts (front : List Formal) {type : TypeNode}
    (htype : type.type ≠ .void) (back : List Formal) :
    Resolver.Parts (fun _ _ => True)
      (Resolver.declareFormals (front ++ ⟨type, id⟩ :: back))
      (Resolver.declareFormals (front ++ ⟨type, other⟩ :: back)) := by
  induction front with
  | nil =>
      have hcalm := Formal.calm_list back
      refine (Resolver.declareVariable_parts hname .param htype).bind (fun _ _ _ => ?_)
        (fun _ => hcalm.last) fun _ => hcalm.last
      exact (Resolver.Agrees.refl _).last fun _ _ _ => trivial
  | cons formal rest ih =>
      have hregular : Resolver.Regular
          (Resolver.declareVariable .param formal.type formal.id) :=
        .of_visits fun _ _ => (Resolver.declareVariable_visits .parameter _ _).any
      refine Resolver.Parts.behind hregular fun _ => ?_
      exact ih.last fun _ _ _ => trivial

omit hname in
theorem Decl.calm_fields (fields : List Decl) :
    Resolver.Calm (Resolver.withTable .new (Decl.resolveList fields)) :=
  .of_visits (fun _ before => ((Decl.visits_any fields before).withTable).any)
    ((Decl.keeps_resolveList fun field _ => keeps_resolve_both.1 field).withTable .new)

/-- Where the name of a struct is empty, registering it halts the walk. -/
theorem Decl.struct_parts (fields : List Decl) :
    Resolver.Parts (fun answer twin => answer.2 = twin.2)
      (Decl.struct id fields).resolve (Decl.struct other fields).resolve := by
  have hreports := (keeps_resolve_both.1 (Decl.struct other fields)).reports
  rw [Decl.resolve] at hreports ⊢
  rw [Decl.resolve]
  refine Resolver.Parts.unlessHalted rfl fun {all before walk} hwalk => ?_
  have hother := hreports walk
  rw [Resolver.run_unlessHalted _ _ hwalk.going] at hother
  refine .stops ?_ hother
  have hrefusal : walk.structs.refusal? id.name = none := by
    rw [← Option.not_isSome_iff_eq_none, hwalk.refused, hname, hwalk.nameless]
    exact Bool.false_ne_true
  have hregister : (Resolver.registerStruct ⟨id.name, .struct, id.span⟩).run walk =
      ((), { walk with halted := some .absentName }) := by
    rw [Resolver.registerStruct, Resolver.run_get, StructRegistry.register, if_pos hname]
    rfl
  rw [Resolver.run_get, hrefusal]
  dsimp only
  rw [Resolver.run_bind hregister]
  have hcompletes (answer : SymbolTable × List Decl × List Symbol) :=
    Resolver.calm_completeStruct id.name answer.1 answer.2.2
  refine (Resolver.Calm.rests ?_ _ rfl).1
  exact (Decl.calm_fields fields).bind fun answer => (hcompletes answer).last

end Parts

section Trees

variable {id other : Ident}

/-- Walks over declarations part where the walks over one of them part. -/
theorem Decl.list_parts (front : List Decl) {hole : Ident → Decl}
    (h : Resolver.Parts (fun answer twin => answer.2 = twin.2) (hole id).resolve
      (hole other).resolve) (back : List Decl) :
    Resolver.Parts (fun answer twin => answer.2 = twin.2)
      (Decl.resolveList (front ++ hole id :: back))
      (Decl.resolveList (front ++ hole other :: back)) := by
  induction front with
  | nil =>
      have hcalm := Decl.calm_list back
      refine Resolver.Parts.bind h (fun answer twin hanswer => ?_) (fun _ => hcalm.last)
        fun _ => hcalm.last
      refine (Resolver.Agrees.refl _).last ?_
      rintro others _ rfl
      exact congrArg (fun symbol => symbol.toList ++ others.2) hanswer
  | cons decl rest ih =>
      have hregular : Resolver.Regular decl.resolve :=
        .of_visits fun _ _ => (visited_both.1 decl).any
      refine Resolver.Parts.behind hregular fun first => ?_
      exact ih.last fun _ _ hothers => congrArg (first.2.toList ++ ·) hothers

theorem Stmt.list_parts (front : List Stmt) {hole : Ident → Stmt}
    (h : Resolver.Parts (fun _ _ => True) (hole id).resolve (hole other).resolve)
    (back : List Stmt) :
    Resolver.Parts (fun _ _ => True) (Stmt.resolveList (front ++ hole id :: back))
      (Stmt.resolveList (front ++ hole other :: back)) := by
  induction front with
  | nil =>
      have hcalm := Stmt.calm_list back
      refine Resolver.Parts.bind h (fun _ _ _ => ?_) (fun _ => hcalm.last)
        fun _ => hcalm.last
      exact (Resolver.Agrees.refl _).last fun _ _ _ => trivial
  | cons stmt rest ih =>
      have hregular : Resolver.Regular stmt.resolve :=
        .of_visits fun _ _ => Resolver.Visits.any (visited_both.2 stmt)
      exact Resolver.Parts.behind hregular fun _ => ih.last fun _ _ _ => trivial

/-- The parameters and the body of a function part in a scope of their own. -/
theorem Decl.func_parts (result : TypeNode) (name : Ident) {formals formals' : List Formal}
    {body body' : Block}
    (hsame : formals.map (·.type.type) = formals'.map (·.type.type))
    (h : Resolver.Parts (fun _ _ => True) (do
        let formals ← Resolver.declareFormals formals
        return (formals, ← body.resolve)) (do
        let formals ← Resolver.declareFormals formals'
        return (formals, ← body'.resolve))) :
    Resolver.Parts (fun answer twin => answer.2 = twin.2)
      (Decl.func result name formals body).resolve
      (Decl.func result name formals' body').resolve := by
  have hregular : Resolver.Regular (Resolver.declareFunction result name formals) :=
    .of_visits fun _ _ => (Resolver.declareFunction_visits result name formals).any
  have hheading : Resolver.declareFunction result name formals' =
      Resolver.declareFunction result name formals := by
    rw [Resolver.declareFunction, Resolver.declareFunction, hsame]
  have hscoped := h.scoped (Resolver.keeps_inner _ _) (Resolver.keeps_inner _ _)
  rw [Decl.resolve, Decl.resolve, hheading]
  exact Resolver.Parts.behind hregular fun _ => hscoped.last fun _ _ _ => rfl

theorem Decl.field_parts (name : Ident) {fields fields' : List Decl}
    (h : Resolver.Parts (fun answer twin => answer.2 = twin.2) (Decl.resolveList fields)
      (Decl.resolveList fields')) :
    Resolver.Parts (fun answer twin => answer.2 = twin.2)
      (Decl.struct name fields).resolve (Decl.struct name fields').resolve := by
  rw [Decl.resolve, Decl.resolve]
  refine Resolver.Parts.unlessHalted rfl fun {all before walk} hwalk => ?_
  refine .get ?_
  cases hrefusal : walk.structs.refusal? name.name with
  | some fault =>
      exact Resolver.Agrees.parts ((Resolver.Agrees.refl _).last fun _ _ _ => rfl)
  | none =>
      have hfree : rejectsStruct before name.name = false := by
        rw [← hwalk.refused, hrefusal]
        rfl
      obtain ⟨hafter, _⟩ := Resolver.registerStruct_goes name hfree
        (List.subset_append_right all _) walk (hwalk.mono _)
      refine .behind (h.withTable.bind ?_ ?_ ?_ _ hafter.regular)
      · rintro ⟨table, answer, declared⟩ ⟨_, answer', _⟩ ⟨rfl, rfl⟩
        exact (Resolver.Agrees.refl _).last fun _ _ _ => rfl
      · exact fun _ => (Resolver.calm_completeStruct _ _ _).last
      · exact fun _ => (Resolver.calm_completeStruct _ _ _).last

theorem Block.parts_of_decls {decls decls' : List Decl} (stmts : List Stmt)
    (h : Resolver.Parts (fun answer twin => answer.2 = twin.2) (Decl.resolveList decls)
      (Decl.resolveList decls')) :
    Resolver.Parts (fun _ _ => True) (Block.mk decls stmts).resolve
      (Block.mk decls' stmts).resolve := by
  have hcalm := Stmt.calm_list stmts
  rw [Block.resolve, Block.resolve]
  refine h.bind (fun _ _ _ => ?_) (fun _ => hcalm.last) fun _ => hcalm.last
  exact (Resolver.Agrees.refl _).last fun _ _ _ => trivial

theorem Block.parts_of_stmts (decls : List Decl) {stmts stmts' : List Stmt}
    (h : Resolver.Parts (fun _ _ => True) (Stmt.resolveList stmts)
      (Stmt.resolveList stmts')) :
    Resolver.Parts (fun _ _ => True) (Block.mk decls stmts).resolve
      (Block.mk decls stmts').resolve := by
  have hregular : Resolver.Regular (Decl.resolveList decls) :=
    .of_visits fun _ => Decl.visits_any decls
  rw [Block.resolve, Block.resolve]
  exact Resolver.Parts.behind hregular fun _ => h.last fun _ _ _ => trivial

theorem Expr.regular (expr : Expr) : Resolver.Regular expr.resolve :=
  .of_visits fun _ before => Resolver.Visits.any (expr.marks before)

/-- A block in a scope of its own. -/
theorem Block.parts_scoped {body body' : Block}
    (h : Resolver.Parts (fun _ _ => True) body.resolve body'.resolve) :
    Resolver.Parts (fun _ _ => True) (Resolver.scoped body.resolve)
      (Resolver.scoped body'.resolve) := h.scoped body.keeps_resolve body'.keeps_resolve

theorem Decl.body_parts (result : TypeNode) (name : Ident) (formals : List Formal)
    {body body' : Block} (h : Resolver.Parts (fun _ _ => True) body.resolve body'.resolve) :
    Resolver.Parts (fun answer twin => answer.2 = twin.2)
      (Decl.func result name formals body).resolve
      (Decl.func result name formals body').resolve := by
  have hregular : Resolver.Regular (Resolver.declareFormals formals) :=
    .of_visits fun _ _ => Resolver.Visits.any (Resolver.declareFormals_marks formals)
  refine Decl.func_parts result name rfl (.behind hregular fun _ => ?_)
  exact h.last fun _ _ _ => trivial

theorem Stmt.ifThen_parts (cond : Expr) {body body' : Block}
    (h : Resolver.Parts (fun _ _ => True) body.resolve body'.resolve) :
    Resolver.Parts (fun _ _ => True) (Stmt.ifThen cond body).resolve
      (Stmt.ifThen cond body').resolve := by
  rw [Stmt.resolve, Stmt.resolve]
  exact .behind cond.regular fun _ => (Block.parts_scoped h).last fun _ _ _ => trivial

theorem Stmt.thenBody_parts (cond : Expr) {thenBody thenBody' : Block} (elseBody : Block)
    (h : Resolver.Parts (fun _ _ => True) thenBody.resolve thenBody'.resolve) :
    Resolver.Parts (fun _ _ => True) (Stmt.ifElse cond thenBody elseBody).resolve
      (Stmt.ifElse cond thenBody' elseBody).resolve := by
  have hcalm := elseBody.calm_scoped
  rw [Stmt.resolve, Stmt.resolve]
  refine .behind cond.regular fun _ => (Block.parts_scoped h).bind (fun _ _ _ => ?_)
    (fun _ => hcalm.last) fun _ => hcalm.last
  exact (Resolver.Agrees.refl _).last fun _ _ _ => trivial

theorem Stmt.elseBody_parts (cond : Expr) (thenBody : Block) {elseBody elseBody' : Block}
    (h : Resolver.Parts (fun _ _ => True) elseBody.resolve elseBody'.resolve) :
    Resolver.Parts (fun _ _ => True) (Stmt.ifElse cond thenBody elseBody).resolve
      (Stmt.ifElse cond thenBody elseBody').resolve := by
  have hregular : Resolver.Regular (Resolver.scoped thenBody.resolve) :=
    .of_visits fun _ => thenBody.visits_any
  rw [Stmt.resolve, Stmt.resolve]
  refine .behind cond.regular fun _ => .behind hregular fun _ => ?_
  exact (Block.parts_scoped h).last fun _ _ _ => trivial

theorem Stmt.while_parts (cond : Expr) {body body' : Block}
    (h : Resolver.Parts (fun _ _ => True) body.resolve body'.resolve) :
    Resolver.Parts (fun _ _ => True) (Stmt.while_ cond body).resolve
      (Stmt.while_ cond body').resolve := by
  rw [Stmt.resolve, Stmt.resolve]
  exact .behind cond.regular fun _ => (Block.parts_scoped h).last fun _ _ _ => trivial

end Trees

section Holes

variable {id : Ident}

theorem Decl.name_parts (hname : id.name = "") (other : Ident) (result : TypeNode)
    (formals : List Formal) (body : Block) :
    Resolver.Parts (fun answer twin => answer.2 = twin.2)
      (Decl.func result id formals body).resolve
      (Decl.func result other formals body).resolve := by
  have hcalm := Resolver.calm_inner formals body
  rw [Decl.resolve, Decl.resolve]
  refine (Resolver.declareFunction_parts hname result formals).bind (fun _ _ _ => ?_)
    (fun _ => hcalm.last) fun _ => hcalm.last
  exact (Resolver.Agrees.refl _).last fun _ _ _ => rfl

theorem Decl.formal_parts (hname : id.name = "") (other : Ident) (result : TypeNode)
    (name : Ident) (front : List Formal) {type : TypeNode} (htype : type.type ≠ .void)
    (back : List Formal) (body : Block) :
    Resolver.Parts (fun answer twin => answer.2 = twin.2)
      (Decl.func result name (front ++ ⟨type, id⟩ :: back) body).resolve
      (Decl.func result name (front ++ ⟨type, other⟩ :: back) body).resolve := by
  have hcalm := body.calm
  refine Decl.func_parts result name (by simp only [List.map_append, List.map_cons]) ?_
  refine (Resolver.declareFormals_parts hname front htype back).bind (fun _ _ _ => ?_)
    (fun _ => hcalm.last) fun _ => hcalm.last
  exact (Resolver.Agrees.refl _).last fun _ _ _ => trivial

mutual

/-- Walks over a declaration part at the place of an empty name. -/
theorem Decl.Hole.parts (hname : id.name = "") (other : Ident) :
    ∀ {hole : Ident → Decl}, Decl.Hole hole →
    Resolver.Parts (fun answer twin => answer.2 = twin.2) (hole id).resolve
      (hole other).resolve
  | _, .var htype =>
      (Resolver.declareVariable_parts hname .var htype).last fun _ _ h => h
  | _, .func result formals body => Decl.name_parts hname other result formals body
  | _, .formal result name front htype back body =>
      Decl.formal_parts hname other result name front htype back body
  | _, .body result name formals hbody =>
      Decl.body_parts result name formals (hbody.parts hname other)
  | _, .struct fields => Decl.struct_parts hname fields
  | _, .field name front hfield back =>
      Decl.field_parts name (Decl.list_parts front (hfield.parts hname other) back)

/-- Walks over a block part at the place of an empty name. -/
theorem Block.Hole.parts (hname : id.name = "") (other : Ident) :
    ∀ {hole : Ident → Block}, Block.Hole hole →
    Resolver.Parts (fun _ _ => True) (hole id).resolve (hole other).resolve
  | _, .decl front hdecl back stmts =>
      Block.parts_of_decls stmts (Decl.list_parts front (hdecl.parts hname other) back)
  | _, .stmt decls front hstmt back =>
      Block.parts_of_stmts decls (Stmt.list_parts front (hstmt.parts hname other) back)

/-- Walks over a statement part at the place of an empty name. -/
theorem Stmt.Hole.parts (hname : id.name = "") (other : Ident) :
    ∀ {hole : Ident → Stmt}, Stmt.Hole hole →
    Resolver.Parts (fun _ _ => True) (hole id).resolve (hole other).resolve
  | _, .ifThen cond hbody => Stmt.ifThen_parts cond (hbody.parts hname other)
  | _, .thenBody cond hbody elseBody =>
      Stmt.thenBody_parts cond elseBody (hbody.parts hname other)
  | _, .elseBody cond thenBody hbody =>
      Stmt.elseBody_parts cond thenBody (hbody.parts hname other)
  | _, .while_ cond hbody => Stmt.while_parts cond (hbody.parts hname other)

end

/-- The errors of a program with an empty name at a place are the first ones of the program
with another name there. -/
theorem Program.Hole.errors_prefix (hname : id.name = "") (other : Ident)
    {hole : Ident → Program} (h : Program.Hole hole) :
    (hole id).resolve.errors <+: (hole other).resolve.errors := by
  obtain ⟨front, hdecl, back⟩ := h
  have hstart : Walk.start.Regular := .inr ⟨[], [], Walk.sound_start []⟩
  have hparts := Decl.list_parts front (hdecl.parts hname other) back
  rw [Program.errors_resolve, Program.errors_resolve]
  rcases hparts .start hstart with ⟨hsame, _⟩ | hleads
  · rw [Program.lastWalk, hsame]
    exact List.prefix_rfl
  · exact hleads.errors

end Holes

/-- A program is resolved unless a name halts the walk. -/
theorem Program.outcome_eq_ok {program : Program}
    (h : ∀ visit ∈ program.visits, ¬ visit.halts = true) :
    ∃ names, program.resolve.outcome = .ok names := by
  cases houtcome : program.resolve.outcome with
  | ok names => exact ⟨names, rfl⟩
  | error reason =>
      obtain ⟨_, visit, hvisit, hhalts⟩ := Program.outcome_eq_error_iff.mp houtcome
      exact absurd hhalts (h visit hvisit)

/-- Resolution fails exactly if an empty name has to be declared that is not inside a struct
that is rejected: that of a function, of a struct, or of a variable, a field or a parameter
that is not of type `void`. The reason is always the absent name. Each such name has its
place in the program, and whatever name stands there instead, the errors that were reported
are the first ones that are reported then. A program that declares no empty name is
resolved. -/
theorem Program.resolve_halts (program : Program) :
    (∀ reason, program.resolve.outcome = .error reason ↔
      reason = .absentName ∧ ∃ visit ∈ program.visits, visit.halts = true) ∧
    (∀ visit ∈ program.visits, visit.halts = true →
      ∃ hole, Program.Hole hole ∧ hole visit.id = program) ∧
    (∀ hole, Program.Hole hole → ∀ id, id.name = "" → hole id = program →
      ∀ other, program.resolve.errors <+: (hole other).resolve.errors) ∧
    ((∀ id kind, Visit.declared id kind ∈ program.visits → id.name ≠ "") →
      ∃ names, program.resolve.outcome = .ok names) := by
  refine ⟨fun reason => Program.outcome_eq_error_iff, fun visit => Program.hole_of_visit,
    ?_, fun hnamed => Program.outcome_eq_ok fun visit hvisit hhalts => ?_⟩
  · rintro hole hhole id hname rfl other
    exact hhole.errors_prefix hname other
  · cases visit with
    | declared id kind =>
        rw [Visit.halts, Bool.and_eq_true, beq_iff_eq] at hhalts
        exact hnamed id kind hvisit hhalts.1
    | _ => exact absurd hhalts Bool.false_ne_true

/-- A field without a name, behind an error and in front of one: with another name, the
walk goes on to the second error. -/
theorem Program.resolve_halts_field : ∃ (hole : Ident → Program) (id other : Ident),
    Program.Hole hole ∧ id.name = "" ∧
    (hole id).resolve.outcome = .error .absentName ∧
    (hole id).resolve.errors <+: (hole other).resolve.errors ∧
    ((hole id).resolve.errors.map NameError.fault = [.voidVariable]) ∧
    ((hole other).resolve.errors.map NameError.fault =
      [.voidVariable, .duplicateDeclaration]) ∧
    ∃ names, (hole other).resolve.outcome = .ok names := by
  let name (text : String) (line : Nat) : Ident := ⟨text, .point ⟨line, 5⟩, none⟩
  let hole (id : Ident) : Program :=
    ⟨[.struct (name "S" 1) ([.var .void (name "v" 2)] ++ .var .int id ::
      [.var .int (name "x" 4), .var .int (name "x" 5)])]⟩
  have hhole : Program.Hole hole :=
    .decl [] (.field (name "S" 1) [.var .void (name "v" 2)] (.var (by decide)) _) []
  obtain ⟨houtcome, _, hprefix, _⟩ := Program.resolve_halts (hole (name "" 3))
  obtain ⟨_, _, _, hresolved⟩ := Program.resolve_halts (hole (name "y" 3))
  have hhalts : ∃ visit ∈ (hole (name "" 3)).visits, visit.halts = true := by decide
  have hnamed : ∀ visit ∈ (hole (name "y" 3)).visits, visit.id.name ≠ "" := by decide
  exact ⟨hole, name "" 3, name "y" 3, hhole, rfl, (houtcome _).mpr ⟨rfl, hhalts⟩,
    hprefix hole hhole (name "" 3) rfl rfl (name "y" 3), by decide, by decide,
    hresolved fun id kind hvisit => hnamed _ hvisit⟩

end MiniLang
