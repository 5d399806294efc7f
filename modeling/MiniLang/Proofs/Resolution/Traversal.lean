/-
Walks over whole trees, of any shape. A walk makes the visits of a tree one after the
other, and leaves every name as it is or linked to the symbol of a declared name.
-/
import MiniLang.Proofs.Resolution.Sound

namespace MiniLang

variable {α β : Type} {all before : List Visit}

/-- What may become of a visited name. -/
inductive Visit.Becomes (all : List Visit) : Visit → Ident → Prop where
  | kept (visit : Visit) : Visit.Becomes all visit visit.id
  | declared (id : Ident) (kind : SymbolKind) :
      Visit.Becomes all (.declared id kind) (id.linkTo (some ⟨id.name, kind, id.span⟩))
  | used {id : Ident} {symbol : Symbol} (hsymbol : symbol ∈ symbolsOf all)
      (hname : symbol.name = id.name) :
      Visit.Becomes all (.used id) (id.linkTo (some symbol))

theorem forall₂_kept {visits : List Visit} {ids : List Ident}
    (h : visits.map Visit.id = ids) : List.Forall₂ (Visit.Becomes all) visits ids := by
  rw [← h, List.forall₂_map_right_iff, List.forall₂_same]
  exact fun visit _ => .kept visit

theorem forall₂_append {γ : Type} {relate : α → γ → Prop} {front back : List α}
    {front' back' : List γ} (h : List.Forall₂ relate front front')
    (hmore : List.Forall₂ relate back back') :
    List.Forall₂ relate (front ++ back) (front' ++ back') := List.rel_append h hmore

/-- Whether a step makes some visits, and answers a tree whose names are what may become
of the visited ones. -/
def Resolver.Marks (all before : List Visit) (step : Resolver α) (leavesOf : α → List Leaf)
    (visits : List Visit) : Prop :=
  Resolver.Visits all before step visits fun answer =>
    List.Forall₂ (Visit.Becomes all) visits (idsOf (leavesOf answer))

section Marks

variable {γ : Type} {first : Resolver α} {second : Resolver β}
  {firstOf : α → List Leaf} {secondOf : β → List Leaf} {bothOf : γ → List Leaf}
  {front back : List Visit}

theorem Resolver.Marks.pure {answer : α} (h : idsOf (firstOf answer) = []) :
    Resolver.Marks all before (Pure.pure answer) firstOf [] := by
  refine Resolver.Visits.pure ?_
  rw [h]
  exact .nil

theorem Resolver.Marks.one {answerOf : α → γ}
    (h : Resolver.Marks all before first firstOf front)
    (hof : ∀ answer, bothOf (answerOf answer) = firstOf answer) :
    Resolver.Marks all before (first >>= fun answer => Pure.pure (answerOf answer)) bothOf
      front := by
  refine Resolver.Visits.last h fun answer hanswer => ?_
  rw [hof]
  exact hanswer

/-- Two trees behind each other make up a tree. -/
theorem Resolver.Marks.pair {answerOf : α → β → γ}
    (h : Resolver.Marks all before first firstOf front)
    (hmore : Resolver.Marks all (before ++ front) second secondOf back)
    (hof : ∀ answer other,
      bothOf (answerOf answer other) = firstOf answer ++ secondOf other) :
    Resolver.Marks all before (do
      let answer ← first
      let other ← second
      return answerOf answer other) bothOf (front ++ back) := by
  refine Resolver.Visits.bind h fun answer hanswer =>
    Resolver.Visits.last hmore fun other hother => ?_
  rw [hof, idsOf_append]
  exact forall₂_append hanswer hother

end Marks

section Names

/-- Looking up a name visits it. -/
theorem Ident.marks (id : Ident) :
    Resolver.Marks all before id.resolve (fun answer => [.name answer]) [.used id] := by
  have hkept : List.Forall₂ (Visit.Becomes all) [.used id] (idsOf [.name id]) :=
    forall₂_kept rfl
  refine Resolver.Goes.unlessHalted (fun hall walk hwalk => ?_) hkept
  have hsound := hwalk.passing (passive_used [id])
  rw [Resolver.run_get]
  split
  · next symbol hlookup =>
      obtain ⟨hname, hsymbol⟩ := hwalk.lookup hlookup
      exact ⟨.going rfl hsound, .cons (.used hsymbol hname) .nil⟩
  · have hreport := hsound.report (hall List.mem_cons_self) .undeclaredIdentifier rfl rfl
    exact ⟨.going rfl hreport, hkept⟩

/-- Declaring the symbol of a name visits the name. -/
theorem Resolver.declare_goes (id : Ident) {kind : SymbolKind} (hkind : kind ≠ .struct)
    (hvoid : kind.isVoid = false) :
    Resolver.Goes all before (Resolver.declare ⟨id.name, kind, id.span⟩)
      [.declared id kind]
      fun answer => ∀ symbol ∈ answer,
        symbol = ⟨id.name, kind, id.span⟩ ∧ symbol ∈ symbolsOf all ∧ symbol.name ≠ "" := by
  intro hall walk hwalk
  have hsymbol : ⟨id.name, kind, id.span⟩ ∈ symbolsOf all :=
    List.mem_filterMap.mpr ⟨_, hall List.mem_cons_self, rfl⟩
  have hhalts : [Visit.declared id kind].any Visit.halts = (id.name == "") := by
    rw [List.any_cons, List.any_nil, Bool.or_false, Visit.halts, hvoid, Bool.not_false,
      Bool.and_true]
  by_cases hname : id.name = ""
  · rw [hwalk.declare_nameless hname]
    exact ⟨.halted (by rw [hhalts, hname]; rfl) rfl hwalk.blames, forall_mem_none _⟩
  · obtain ⟨hsound, hfound⟩ := hwalk.declare hsymbol hname
    refine ⟨.going (by rw [hhalts, beq_eq_false_iff_ne.mpr hname])
      (hsound.declared hkind id), fun symbol hmem => ?_⟩
    obtain rfl := hfound symbol hmem
    exact ⟨rfl, hsymbol, hname⟩

theorem becomes_linkTo {id : Ident} {kind : SymbolKind} {declared : Option Symbol}
    (h : ∀ symbol ∈ declared, symbol = ⟨id.name, kind, id.span⟩) :
    Visit.Becomes all (.declared id kind) (id.linkTo declared) := by
  cases declared with
  | none => exact .kept (.declared id kind)
  | some symbol =>
      rw [h symbol rfl]
      exact .declared id kind

theorem Binding.isVoid_kind (binding : Binding) (type : Ty) :
    (binding.kind type).isVoid = (type == .void) := by
  cases binding <;> rfl

theorem Binding.kind_ne_struct (binding : Binding) (type : Ty) :
    binding.kind type ≠ .struct := by
  cases binding <;> exact nofun

/-- Declaring a name with a type visits the name. -/
theorem Resolver.declareVariable_visits (binding : Binding) (type : TypeNode)
    (id : Ident) :
    Resolver.Visits all before (Resolver.declareVariable binding.kind type id)
      [.declared id (binding.kind type.type)]
      fun answer => Visit.Becomes all (.declared id (binding.kind type.type)) answer.1 ∧
        ∀ symbol ∈ answer.2, symbol ∈ symbolsOf all ∧ symbol.name ≠ "" := by
  have hkept : Visit.Becomes all (.declared id (binding.kind type.type)) id :=
    .kept (.declared id (binding.kind type.type))
  have hkind := binding.kind_ne_struct type.type
  have hisVoid := binding.isVoid_kind type.type
  refine Resolver.Goes.unlessHalted ?_ ⟨hkept, forall_mem_none _⟩
  by_cases hvoid : type.type = .void
  · rw [if_pos hvoid]
    intro hall walk hwalk
    have hreport := (hwalk.declared hkind id).report (hall List.mem_cons_self)
      .voidVariable rfl rfl
    refine ⟨.going ?_ hreport, hkept, forall_mem_none _⟩
    rw [List.any_cons, List.any_nil, Bool.or_false, Visit.halts, hisVoid, hvoid]
    exact Bool.and_false _
  · rw [if_neg hvoid]
    have hfilled := hisVoid.trans (beq_eq_false_iff_ne.mpr hvoid)
    intro hall walk hwalk
    obtain ⟨hafter, hanswer⟩ := Resolver.declare_goes id hkind hfilled hall walk hwalk
    exact ⟨hafter, becomes_linkTo fun symbol hsymbol => (hanswer symbol hsymbol).1,
      fun symbol hsymbol => (hanswer symbol hsymbol).2⟩

/-- Declaring a function visits its name. -/
theorem Resolver.declareFunction_visits (result : TypeNode) (id : Ident)
    (formals : List Formal) :
    Resolver.Visits all before (Resolver.declareFunction result id formals)
      [.declared id (.function (headingSignature result formals))]
      (Visit.Becomes all (.declared id (.function (headingSignature result formals)))) := by
  have hkind : SymbolKind.function (headingSignature result formals) ≠ .struct := nofun
  refine Resolver.Goes.unlessHalted (fun hall walk hwalk => ?_) (.kept (.declared id _))
  obtain ⟨hafter, hanswer⟩ := Resolver.declare_goes id hkind rfl hall walk hwalk
  exact ⟨hafter, becomes_linkTo fun symbol hsymbol => (hanswer symbol hsymbol).1⟩

theorem TypeNode.becomes (type : TypeNode) :
    List.Forall₂ (Visit.Becomes all) type.visits (idsOf type.leaves) :=
  forall₂_kept type.ids_visits

theorem Resolver.declareFormals_marks (formals : List Formal) :
    Resolver.Marks all before (Resolver.declareFormals formals)
      (fun answer => answer.flatMap Formal.leaves) (formals.flatMap Formal.visits) := by
  induction formals generalizing before with
  | nil => exact .pure rfl
  | cons formal rest ih =>
      rw [Resolver.declareFormals, List.flatMap_cons, Formal.visits, List.append_assoc]
      refine Resolver.Visits.passing ?_ (passive_typed _)
      refine (Resolver.declareVariable_visits .parameter formal.type formal.id).bind
        fun declared hdeclared => Resolver.Visits.last ih fun answer hanswer => ?_
      dsimp only
      rw [List.flatMap_cons, Formal.leaves, List.append_assoc, idsOf_append]
      exact forall₂_append formal.type.becomes (.cons hdeclared.1 hanswer)

end Names

section Structs

variable {walk : Walk}

theorem StructRegistry.isSome_refusal? (registry : StructRegistry) (name : String) :
    (registry.refusal? name).isSome =
      (isReservedTypeName name || registry.contains name) := by
  rw [StructRegistry.refusal?]
  cases isReservedTypeName name with
  | true => rfl
  | false => cases registry.contains name <;> rfl

/-- A struct that is not rejected is registered, if it has a name. -/
theorem Resolver.registerStruct_goes (id : Ident)
    (hfree : rejectsStruct before id.name = false) :
    Resolver.Goes all before (Resolver.registerStruct ⟨id.name, .struct, id.span⟩)
      [.declared id .struct] fun _ => True := by
  intro _ walk hwalk
  have hrefused := hwalk.refused id.name
  rw [hfree, StructRegistry.isSome_refusal?, Bool.or_eq_false_iff] at hrefused
  have hhalts : [Visit.declared id .struct].any Visit.halts = (id.name == "") := by
    simp [Visit.halts, SymbolKind.isVoid]
  rw [Resolver.registerStruct, Resolver.run_get]
  by_cases hname : id.name = ""
  · simp only [StructRegistry.register, hname, if_true]
    exact ⟨.halted (by rw [hhalts, hname]; rfl) rfl hwalk.blames, trivial⟩
  · let info : StructInfo := ⟨⟨id.name, .struct, id.span⟩, .new⟩
    have hregister : walk.structs.register info = .ok ⟨walk.structs.entries ++ [info]⟩ := by
      rw [StructRegistry.register, if_neg hname, hrefused.2]
      rfl
    rw [hregister]
    refine ⟨.going (by rw [hhalts, beq_eq_false_iff_ne.mpr hname]) ?_, trivial⟩
    exact { hwalk with
      refused := fun name => by
        change (StructRegistry.refusal? ⟨walk.structs.entries ++ [info]⟩ name).isSome = _
        rw [StructRegistry.isSome_refusal?, StructRegistry.contains_append, ← Bool.or_assoc,
          ← StructRegistry.isSome_refusal?, hwalk.refused, rejectsStruct_append_struct]
      nameless := by
        rw [rejectsStruct_append_struct, hwalk.nameless, beq_eq_false_iff_ne.mpr hname]
        rfl }

theorem Resolver.exposeFields_visits {fields : List Symbol}
    (h : ∀ field ∈ fields, field ∈ symbolsOf all ∧ field.name ≠ "") :
    Resolver.Visits all before (Resolver.exposeFields fields) [] fun _ => True := by
  induction fields with
  | nil => exact .pure trivial
  | cons field rest ih =>
      obtain ⟨⟨hsymbol, hname⟩, hrest⟩ := List.forall_mem_cons.mp h
      have hdeclare : Resolver.Goes all before (do let _ ← Resolver.declare field) []
          fun _ => True := by
        intro _ walk hwalk
        obtain ⟨hsound, _⟩ := hwalk.declare hsymbol hname
        exact ⟨.going rfl (by rwa [List.append_nil]), trivial⟩
      have hmore := ih hrest
      rw [← List.append_nil before] at hmore
      exact (hdeclare.unlessHalted trivial).bind fun _ _ => hmore

/-- The fields of a struct that were declared are declared around it once more. -/
theorem Resolver.completeStruct_visits (name : String) (fields : SymbolTable)
    {declared : List Symbol}
    (h : ∀ field ∈ declared, field ∈ symbolsOf all ∧ field.name ≠ "") :
    Resolver.Visits all before (Resolver.completeStruct name fields declared) []
      fun _ => True := by
  refine Resolver.Goes.unlessHalted (fun hall walk hwalk => ?_) trivial
  refine (Resolver.exposeFields_visits h).goes hall _ { hwalk with refused := ?_ }
  intro other
  rw [← hwalk.refused other, StructRegistry.isSome_refusal?, StructRegistry.isSome_refusal?,
    StructRegistry.contains_setFields]

end Structs

section Expressions

theorem Expr.marks_list {exprs : List Expr}
    (h : ∀ expr ∈ exprs, ∀ before,
      Resolver.Marks all before expr.resolve Expr.leaves expr.visits)
    (before : List Visit) :
    Resolver.Marks all before (Expr.resolveList exprs)
      (fun answer => answer.flatMap Expr.leaves)
      ((exprs.flatMap Expr.uses).map .used) := by
  induction exprs generalizing before with
  | nil => exact .pure rfl
  | cons expr rest ih =>
      obtain ⟨hexpr, hrest⟩ := List.forall_mem_cons.mp h
      rw [Expr.resolveList, List.flatMap_cons, List.map_append]
      exact (hexpr before).pair (ih hrest _) fun _ _ => List.flatMap_cons

/-- Resolving an expression visits the names that it uses. -/
theorem Expr.marks (expr : Expr) (before : List Visit) :
    Resolver.Marks all before expr.resolve Expr.leaves expr.visits := by
  induction expr using Expr.induct generalizing before with
  | int span value => exact .pure rfl
  | str span text => exact .pure rfl
  | bool span value => exact .pure rfl
  | name id =>
      rw [Expr.resolve]
      exact id.marks.one fun _ => rfl
  | dot loc field ih =>
      rw [Expr.resolve, Expr.visits, Expr.uses, List.map_append]
      exact (ih before).pair field.marks fun _ _ => rfl
  | assign lhs rhs ihlhs ihrhs =>
      rw [Expr.resolve, Expr.visits, Expr.uses, List.map_append]
      exact (ihlhs before).pair (ihrhs _) fun _ _ => rfl
  | call callee args ih =>
      rw [Expr.resolve, Expr.visits, Expr.uses, Expr.usesOfList_eq,
        ← List.singleton_append, List.map_append]
      refine callee.marks.pair (Expr.marks_list ih _) fun answer other => ?_
      rw [Expr.leaves, Expr.leavesOfList_eq, List.singleton_append]
  | unary op operand ih =>
      rw [Expr.resolve]
      exact (ih before).one fun _ => rfl
  | binary op lhs rhs ihlhs ihrhs =>
      rw [Expr.resolve, Expr.visits, Expr.uses, List.map_append]
      exact (ihlhs before).pair (ihrhs _) fun _ _ => rfl

end Expressions

/-- What a declaration is answered with: its names are what may become of the visited
ones, and the symbol that comes with it is that of a declared name. -/
def Decl.Marked (all visits : List Visit) (answer : Decl × Option Symbol) : Prop :=
  List.Forall₂ (Visit.Becomes all) visits (idsOf answer.1.leaves) ∧
    ∀ symbol ∈ answer.2, symbol ∈ symbolsOf all ∧ symbol.name ≠ ""

/-- Whether resolving a declaration makes its visits. -/
def Decl.Visited (decl : Decl) : Prop :=
  ∀ {all before : List Visit}, Resolver.Visits all before decl.resolve
    (decl.visits before) (Decl.Marked all (decl.visits before))

def Stmt.Visited (stmt : Stmt) : Prop :=
  ∀ {all before : List Visit},
    Resolver.Marks all before stmt.resolve Stmt.leaves (stmt.visits before)

section Trees

theorem Decl.visits_list {decls : List Decl} (h : ∀ decl ∈ decls, decl.Visited)
    (before : List Visit) :
    Resolver.Visits all before (Decl.resolveList decls) (Decl.visitsOfList before decls)
      fun answer => List.Forall₂ (Visit.Becomes all) (Decl.visitsOfList before decls)
          (idsOf (Decl.leavesOfList answer.1)) ∧
        ∀ symbol ∈ answer.2, symbol ∈ symbolsOf all ∧ symbol.name ≠ "" := by
  induction decls generalizing before with
  | nil => exact .pure ⟨.nil, List.forall_mem_nil _⟩
  | cons decl rest ih =>
      obtain ⟨hdecl, hrest⟩ := List.forall_mem_cons.mp h
      rw [Decl.resolveList, Decl.visitsOfList]
      refine hdecl.bind fun first hfirst => (ih hrest _).last fun others hothers => ?_
      constructor
      · rw [Decl.leavesOfList, idsOf_append]
        exact forall₂_append hfirst.1 hothers.1
      · refine List.forall_mem_append.mpr ⟨fun symbol hsymbol => ?_, hothers.2⟩
        exact hfirst.2 symbol (Option.mem_toList.mp hsymbol)

theorem Stmt.marks_list {stmts : List Stmt} (h : ∀ stmt ∈ stmts, stmt.Visited)
    (before : List Visit) :
    Resolver.Marks all before (Stmt.resolveList stmts) Stmt.leavesOfList
      (Stmt.visitsOfList before stmts) := by
  induction stmts generalizing before with
  | nil => exact .pure rfl
  | cons stmt rest ih =>
      obtain ⟨hstmt, hrest⟩ := List.forall_mem_cons.mp h
      rw [Stmt.resolveList, Stmt.visitsOfList]
      exact hstmt.pair (ih hrest _) fun _ _ => rfl

theorem Block.marks {decls : List Decl} {stmts : List Stmt}
    (hdecls : ∀ decl ∈ decls, decl.Visited) (hstmts : ∀ stmt ∈ stmts, stmt.Visited) :
    Resolver.Marks all before (Block.mk decls stmts).resolve Block.leaves
      ((Block.mk decls stmts).visits before) := by
  rw [Block.resolve, Block.visits]
  refine (Decl.visits_list hdecls before).bind fun first hfirst =>
    Resolver.Visits.last (Stmt.marks_list hstmts _) fun others hothers => ?_
  rw [Block.leaves, idsOf_append]
  exact forall₂_append hfirst.1 hothers

/-- A block in a scope of its own. -/
theorem Block.marks_scoped {decls : List Decl} {stmts : List Stmt}
    (hdecls : ∀ decl ∈ decls, decl.Visited) (hstmts : ∀ stmt ∈ stmts, stmt.Visited) :
    Resolver.Marks all before (Resolver.scoped (Block.mk decls stmts).resolve) Block.leaves
      ((Block.mk decls stmts).visits before) :=
  Resolver.Visits.scoped (Block.marks hdecls hstmts) (Block.mk decls stmts).keeps_resolve

/-- A function visits its heading, its parameters and its body. -/
theorem Decl.visited_func (result : TypeNode) (id : Ident) (formals : List Formal)
    {decls : List Decl} {stmts : List Stmt} (hdecls : ∀ decl ∈ decls, decl.Visited)
    (hstmts : ∀ stmt ∈ stmts, stmt.Visited) :
    (Decl.func result id formals (.mk decls stmts)).Visited := by
  intro all before
  let heading : Visit := .declared id (.function (headingSignature result formals))
  let params : List Visit := formals.flatMap Formal.visits
  let body : List Visit :=
    (Block.mk decls stmts).visits (before ++ headingVisits result id formals)
  have hvisits : (Decl.func result id formals (.mk decls stmts)).visits before =
      result.visits ++ ([heading] ++ (params ++ body)) := by
    rw [Decl.visits, headingVisits, List.append_assoc]
    rfl
  have hbefore : before ++ result.visits ++ [heading] ++ params =
      before ++ headingVisits result id formals := by
    simp only [headingVisits, List.append_assoc, List.singleton_append]
    rfl
  have hbody : Resolver.Marks all (before ++ result.visits ++ [heading] ++ params)
      (Block.mk decls stmts).resolve Block.leaves body := by
    rw [hbefore]
    exact Block.marks hdecls hstmts
  have hinner : Resolver.Marks all (before ++ result.visits ++ [heading]) (do
        let formals ← Resolver.declareFormals formals
        return (formals, ← (Block.mk decls stmts).resolve))
      (fun inner => inner.1.flatMap Formal.leaves ++ inner.2.leaves) (params ++ body) :=
    (Resolver.declareFormals_marks formals).pair hbody fun _ _ => rfl
  have hkeeps := Resolver.keeps_inner formals (Block.mk decls stmts)
  rw [hvisits, Decl.resolve]
  refine Resolver.Visits.passing ?_ (passive_typed _)
  refine (Resolver.declareFunction_visits result id formals).bind fun answer hanswer =>
    (Resolver.Visits.scoped hinner hkeeps).last fun inner hinner => ⟨?_, forall_mem_none _⟩
  have hleaves : idsOf (Decl.func result answer inner.1 inner.2).leaves =
      idsOf result.leaves ++ ([answer]
        ++ idsOf (inner.1.flatMap Formal.leaves ++ inner.2.leaves)) := by
    simp only [Decl.leaves, idsOf_append, idsOf_name, List.append_assoc, List.cons_append,
      List.nil_append]
  rw [hleaves]
  exact forall₂_append result.becomes (forall₂_append (.cons hanswer .nil) hinner)

/-- The fields of a struct that is rejected are passed over. -/
theorem Walk.Sound.passing_struct {walk : Walk} (h : walk.Sound all before) {id : Ident}
    (hrejected : rejectsStruct before id.name = true) (fields : List Decl) :
    ((Decl.struct id fields).visits before).any Visit.halts = false ∧
      walk.Sound all (before ++ (Decl.struct id fields).visits before) := by
  have hname : id.name ≠ "" := by
    intro hname
    rw [hname, h.nameless] at hrejected
    cases hrejected
  have hpassed := passive_skipped (idsOf (Decl.leavesOfList fields))
  have hsound := (h.rejected hrejected).passing hpassed
  rw [Decl.visits, if_pos hrejected]
  constructor
  · rw [List.any_cons, hpassed.halts, Visit.halts, beq_eq_false_iff_ne.mpr hname]
    rfl
  · rwa [List.append_assoc] at hsound

/-- The fields of a struct that is not rejected are visited. -/
theorem Decl.struct_goes (id : Ident) {fields : List Decl}
    (hfields : ∀ field ∈ fields, field.Visited)
    (hfree : rejectsStruct before id.name = false) :
    Resolver.Goes all before (do
        Resolver.registerStruct ⟨id.name, .struct, id.span⟩
        let (table, fields, declared) ←
          Resolver.withTable .new (Decl.resolveList fields)
        Resolver.completeStruct id.name table declared
        return (Decl.struct (id.linkTo (some ⟨id.name, .struct, id.span⟩)) fields, none))
      ((Decl.struct id fields).visits before)
      (Decl.Marked all ((Decl.struct id fields).visits before)) := by
  rw [Decl.visits, if_neg (by rw [hfree]; exact Bool.false_ne_true),
    ← List.singleton_append]
  refine (Resolver.registerStruct_goes id hfree).bind fun _ _ => ?_
  rw [← List.append_nil (Decl.visitsOfList _ fields)]
  refine (Decl.visits_list hfields _).withTable.bind fun answer hanswer =>
    (Resolver.completeStruct_visits _ _ hanswer.2).last fun _ _ => ⟨?_, forall_mem_none _⟩
  rw [List.append_nil, Decl.leaves, idsOf_name]
  exact .cons (.declared id .struct) hanswer.1

theorem Decl.visited_struct (id : Ident) {fields : List Decl}
    (hfields : ∀ field ∈ fields, field.Visited) : (Decl.struct id fields).Visited := by
  intro all before
  have hkept : Decl.Marked all ((Decl.struct id fields).visits before)
      (.struct id fields, none) :=
    ⟨forall₂_kept (ids_visits_both.1 _ before), forall_mem_none _⟩
  rw [Decl.resolve]
  refine Resolver.Goes.unlessHalted (fun hall walk hwalk => ?_) hkept
  have hrefused := hwalk.refused id.name
  rw [Resolver.run_get]
  split
  · next fault hfault =>
      rw [hfault, Option.isSome_some] at hrefused
      obtain ⟨hnone, hsound⟩ := hwalk.passing_struct hrefused.symm fields
      have hfirst : Visit.declared id .struct ∈ (Decl.struct id fields).visits before := by
        rw [Decl.visits]
        exact List.mem_cons_self
      exact ⟨.going hnone (hsound.report (hall hfirst) fault rfl rfl), hkept⟩
  · next hfree =>
      rw [hfree, Option.isSome_none] at hrefused
      exact Decl.struct_goes id hfields hrefused.symm hall walk hwalk

/-- Every tree is visited. -/
theorem visited_both : (∀ decl : Decl, decl.Visited) ∧ ∀ stmt : Stmt, stmt.Visited := by
  apply Stmt.inductBoth
  case var =>
    intro type id all before
    rw [Decl.resolve, Decl.visits]
    refine Resolver.Visits.passing ?_ (passive_typed _)
    refine (Resolver.declareVariable_visits .variable type id).last
      fun declared hdeclared => ⟨?_, hdeclared.2⟩
    rw [Decl.leaves, idsOf_append]
    exact forall₂_append type.becomes (.cons hdeclared.1 .nil)
  case func =>
    intro result id formals decls stmts ihdecls ihstmts
    exact Decl.visited_func result id formals ihdecls ihstmts
  case struct =>
    intro id fields ihfields
    exact Decl.visited_struct id ihfields
  case assign =>
    intro expr all before
    rw [Stmt.resolve]
    exact (expr.marks before).one fun _ => rfl
  case inc =>
    intro loc all before
    rw [Stmt.resolve]
    exact (loc.marks before).one fun _ => rfl
  case dec =>
    intro loc all before
    rw [Stmt.resolve]
    exact (loc.marks before).one fun _ => rfl
  case read =>
    intro loc all before
    rw [Stmt.resolve]
    exact (loc.marks before).one fun _ => rfl
  case write =>
    intro expr all before
    rw [Stmt.resolve]
    exact (expr.marks before).one fun _ => rfl
  case ifThen =>
    intro cond decls stmts ihdecls ihstmts all before
    rw [Stmt.resolve]
    exact (cond.marks before).pair (Block.marks_scoped ihdecls ihstmts) fun _ _ => rfl
  case ifElse =>
    intro cond decls stmts decls' stmts' ihdecls ihstmts ihdecls' ihstmts' all before
    have hthen : Resolver.Marks all (before ++ cond.visits)
        (Resolver.scoped (Block.mk decls stmts).resolve) Block.leaves
        ((Block.mk decls stmts).visits (before ++ cond.visits)) :=
      Block.marks_scoped ihdecls ihstmts
    rw [Stmt.resolve, Stmt.visits, List.append_assoc]
    refine (cond.marks before).bind fun answer hanswer => Resolver.Visits.bind hthen
      fun first hfirst => ?_
    rw [List.append_assoc before]
    refine Resolver.Visits.last (Block.marks_scoped ihdecls' ihstmts') fun last hlast => ?_
    rw [Stmt.leaves, List.append_assoc, idsOf_append, idsOf_append]
    exact forall₂_append hanswer (forall₂_append hfirst hlast)
  case while_ =>
    intro cond decls stmts ihdecls ihstmts all before
    rw [Stmt.resolve]
    exact (cond.marks before).pair (Block.marks_scoped ihdecls ihstmts) fun _ _ => rfl
  case call =>
    intro callee args all before
    rw [Stmt.resolve, Stmt.visits, ← List.singleton_append, List.map_append]
    exact callee.marks.pair (Expr.marks_list (fun arg _ => arg.marks) _) fun _ _ => rfl
  case ret =>
    intro value all before
    cases value with
    | none => exact .pure rfl
    | some value =>
        rw [Stmt.resolve]
        exact (value.marks before).one fun _ => rfl

end Trees

section Program

theorem Walk.sound_start (all : List Visit) : Walk.start.Sound all [] where
  going := rfl
  opened := List.cons_ne_nil _ _
  bound := List.forall_mem_singleton.mpr (List.forall_mem_nil _)
  refused name := StructRegistry.isSome_refusal? .empty name
  nameless := by decide
  blames := List.forall_mem_nil _

/-- The walk over a program, as it stands at its end. -/
def Program.lastWalk (program : Program) : Walk :=
  ((Decl.resolveList program.decls).run .start).2

theorem Program.errors_resolve (program : Program) :
    program.resolve.errors = program.lastWalk.errors := rfl

theorem Program.outcome_resolve (program : Program) :
    program.resolve.outcome =
      match program.lastWalk.halted with
      | some reason => .error reason
      | none => .ok ⟨program.lastWalk.structs, program.lastWalk.table.innermostSymbols,
          program.lastWalk.reported⟩ := rfl

/-- The walk over a program makes its visits. -/
theorem Program.resolve_visits (program : Program) :
    program.lastWalk.After program.visits [] program.visits ∧
      List.Forall₂ (Visit.Becomes program.visits) program.visits
        (idsOf program.resolve.program.leaves) := by
  have hdecls : ∀ decl ∈ program.decls, decl.Visited := fun decl _ => visited_both.1 decl
  obtain ⟨hafter, hmarked, _⟩ := (Decl.visits_list hdecls []).goes
    (List.Subset.refl _) .start (Walk.sound_start program.visits)
  rw [Decl.leavesOfList_eq] at hmarked
  exact ⟨hafter, hmarked⟩

/-- Every error of names is about a name of the program. -/
theorem Program.errors_at_names (program : Program) :
    ∀ error ∈ program.resolve.errors, ∃ id, Leaf.name id ∈ program.leaves ∧
      error.name = id.name ∧ error.span = id.span := by
  have hblames : program.lastWalk.Blames program.visits := by
    cases program.resolve_visits.1 with
    | halted _ _ hblames => exact hblames
    | going _ hsound => exact hsound.blames
  intro error herror
  obtain ⟨visit, hvisit, hat⟩ := hblames error herror
  refine ⟨visit.id, ?_, hat⟩
  rw [← mem_idsOf, ← program.ids_visits]
  exact List.mem_map_of_mem hvisit

/-- Resolution fails where a name halts the walk, and there alone. -/
theorem Program.outcome_eq_error_iff {program : Program} {reason : TableError} :
    program.resolve.outcome = .error reason ↔
      reason = .absentName ∧ ∃ visit ∈ program.visits, visit.halts = true := by
  rw [Program.outcome_resolve, ← List.any_eq_true]
  cases program.resolve_visits.1 with
  | halted hhalts hhalted _ =>
      rw [hhalted]
      simp [hhalts, eq_comm]
  | going hnone hsound =>
      rw [hsound.going]
      simp [hnone]

end Program

end MiniLang
