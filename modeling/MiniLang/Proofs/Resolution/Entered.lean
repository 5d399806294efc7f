/-
Which declared names are linked. A name is linked if its symbol was entered, and a struct
also if the walk halts at it, since a struct is linked whether it could be registered or
not. Main statement: a program has only such links as were entered exactly if its
resolution does not halt at a struct.
-/
import MiniLang.Proofs.Resolution.Arrivals
import MiniLang.Proofs.Resolution.Traversal

namespace MiniLang

variable {α β γ : Type}

/-- Whether the walk halts at a struct because that has no name. -/
structure Arrival.HaltsNameless (arrival : Arrival) : Prop where
  kind : arrival.kind = .struct
  name : arrival.id.name = ""
  halts : arrival.Halts

/-- Whether the name of an arrival gets a link. -/
def Arrival.Binds (arrival : Arrival) : Prop := arrival.Entered ∨ arrival.HaltsNameless

/-- What is answered for a name that a walk comes to. -/
inductive Arrival.Answers (arrival : Arrival) : Ident → Prop where
  | linked (h : arrival.Binds) : Answers arrival (arrival.id.linkTo (some arrival.symbol))
  | left (h : ¬ arrival.Binds) : Answers arrival arrival.id

theorem Arrival.not_binds_passed (walk : Walk) (declared : Declared) :
    ¬ (Arrival.passed walk declared).Binds := by
  rintro (hentered | hnameless)
  · exact Arrival.not_entered_passed walk declared hentered
  · exact Arrival.not_halts_passed walk declared hnameless.halts

/-- Whether a step comes to some names and no others: it answers for each of them, and it
halts a walk that has a scope at one of them or not at all. -/
structure Resolver.Settles (step : Resolver α) (declared : List Declared)
    (arrivals : Walk → List Arrival) (idsOf : α → List Ident) : Prop where
  names : ∀ walk, (arrivals walk).map Arrival.toDeclared = declared
  answers : ∀ walk,
    List.Forall₂ Arrival.Answers (arrivals walk) (idsOf (step.run walk).1)
  halts : ∀ walk : Walk, walk.table.frames ≠ [] → ((step.run walk).2.halted ≠ none ↔
    walk.halted ≠ none ∨ ∃ arrival ∈ arrivals walk, arrival.Halts)

section Settles

variable {first : Resolver α} {declared more : List Declared}
  {arrivals arrivals' : Walk → List Arrival} {idsOf : α → List Ident}
  {idsOf' : β → List Ident} {idsOf'' : γ → List Ident}

theorem Resolver.Quiet.settles (h : first.Quiet)
    (hnone : ∀ walk, idsOf (first.run walk).1 = []) :
    first.Settles [] (fun _ => []) idsOf where
  names _ := rfl
  answers walk := by
    rw [hnone walk]
    exact .nil
  halts walk _ := by
    rw [h walk]
    simp

/-- A step that declares one name. -/
theorem Resolver.Settles.one {name : Declared} {idOf : α → Ident}
    (hanswers : ∀ walk, (Arrival.of name first walk).Answers (idOf (first.run walk).1))
    (hhalted : ∀ walk : Walk, walk.halted.isSome = true → (first.run walk).2 = walk) :
    first.Settles [name] (fun walk => [.of name first walk]) (fun answer => [idOf answer])
    where
  names _ := rfl
  answers walk := .cons (hanswers walk) .nil
  halts walk _ := by
    simp only [List.mem_singleton, exists_eq_left]
    constructor
    · intro hlast
      by_cases hgoing : walk.halted = none
      · exact .inr ⟨hgoing, hlast⟩
      · exact .inl hgoing
    · rintro (hwalk | ⟨_, hlast⟩)
      · rw [hhalted walk (Option.isSome_iff_ne_none.mpr hwalk)]
        exact hwalk
      · exact hlast

theorem Resolver.Settles.last (h : first.Settles declared arrivals idsOf)
    {answerOf : α → β} (hof : ∀ answer, idsOf' (answerOf answer) = idsOf answer) :
    Resolver.Settles (do return answerOf (← first)) declared arrivals idsOf' where
  names := h.names
  answers walk := by
    change List.Forall₂ _ _ (idsOf' (answerOf (first.run walk).1))
    rw [hof]
    exact h.answers walk
  halts := h.halts

/-- A step behind another one that comes to no name. -/
theorem Resolver.Settles.behind (arrivals : Walk → List Arrival) {next : α → Resolver β}
    (hquiet : first.Quiet) (hkeeps : first.Keeps SymbolTable.Extends)
    (h : ∀ answer, (next answer).Settles declared arrivals idsOf') :
    (first >>= next).Settles declared (fun walk => arrivals (first.run walk).2) idsOf' where
  names walk := (h (first.run walk).1).names _
  answers walk := (h (first.run walk).1).answers _
  halts walk hne := by
    have hlast := (h (first.run walk).1).halts _ ((hkeeps walk).frames_ne_nil hne)
    rwa [hquiet walk] at hlast

/-- Two steps behind each other. -/
theorem Resolver.Settles.pair {second : α → Resolver β} {combine : α → β → γ}
    (h : first.Settles declared arrivals idsOf) (hkeeps : first.Keeps SymbolTable.Extends)
    (hmore : ∀ answer, (second answer).Settles more arrivals' idsOf')
    (hcombine : ∀ answer other,
      idsOf'' (combine answer other) = idsOf answer ++ idsOf' other) :
    Resolver.Settles (do
      let answer ← first
      let other ← second answer
      return combine answer other) (declared ++ more)
      (fun walk => arrivals walk ++ arrivals' (first.run walk).2) idsOf'' where
  names walk := by
    rw [List.map_append, h.names, (hmore (first.run walk).1).names]
  answers walk := by
    change List.Forall₂ _ _ (idsOf'' (combine (first.run walk).1
      ((second (first.run walk).1).run (first.run walk).2).1))
    rw [hcombine]
    exact List.rel_append (h.answers walk) ((hmore (first.run walk).1).answers _)
  halts walk hne := by
    have hfirst := h.halts walk hne
    have hsecond := (hmore (first.run walk).1).halts _ ((hkeeps walk).frames_ne_nil hne)
    rw [hfirst] at hsecond
    refine hsecond.trans ?_
    simp only [List.mem_append, or_and_right, exists_or, or_assoc]

theorem Resolver.Settles.scoped (h : first.Settles declared arrivals idsOf)
    (hkeeps : first.Keeps SymbolTable.Extends) :
    (Resolver.scoped first).Settles declared (fun walk => arrivals walk.opened) idsOf where
  names walk := h.names walk.opened
  answers walk := by
    rw [Resolver.run_scoped hkeeps]
    exact h.answers walk.opened
  halts walk _ := by
    rw [Resolver.run_scoped hkeeps]
    exact h.halts walk.opened (List.cons_ne_nil _ _)

end Settles

section Declarations

theorem Walk.Declares.answers {id : Ident} {kind : SymbolKind} (hkind : kind ≠ .struct)
    {before after : Walk} {link : Option Symbol}
    (h : before.Declares ⟨id.name, kind, id.span⟩ link after) :
    Arrival.Answers ⟨⟨id, kind⟩, before, after⟩ (id.linkTo link) := by
  cases h with
  | @entered table hdeclare =>
      exact .linked (.inl ((Arrival.entered_of_scope hkind).mpr ⟨table, hdeclare, rfl⟩))
  | refused htable hstructs =>
      refine .left ?_
      rintro (hentered | hnameless)
      · exact Arrival.not_entered_of_same htable hstructs hentered
      · exact hkind hnameless.kind

theorem Resolver.settles_declareVariable (kind : Ty → SymbolKind)
    (hkind : ∀ type, kind type ≠ .struct) (type : TypeNode) (id : Ident) :
    (Resolver.declareVariable kind type id).Settles [⟨id, kind type.type⟩]
      (fun walk => [.of ⟨id, kind type.type⟩ (Resolver.declareVariable kind type id) walk])
      (fun answer => [answer.1]) := by
  refine .one (fun walk => ?_) fun _ h => congrArg Prod.snd (Resolver.run_idle _ _ h)
  obtain ⟨link, hanswer, hdeclares⟩ := Resolver.declareVariable_declares kind type id walk
  rw [hanswer]
  exact hdeclares.answers (hkind type.type)

theorem Resolver.settles_declareFunction (result : TypeNode) (id : Ident)
    (formals : List Formal) :
    (Resolver.declareFunction result id formals).Settles
      [⟨id, .function (headingSignature result formals)⟩]
      (fun walk => [.of ⟨id, .function (headingSignature result formals)⟩
        (Resolver.declareFunction result id formals) walk])
      (fun answer => [answer]) := by
  refine .one (fun walk => ?_) fun _ h => congrArg Prod.snd (Resolver.run_idle _ _ h)
  obtain ⟨link, hanswer, hdeclares⟩ :=
    Resolver.declareFunction_declares result id formals walk
  have hkind : SymbolKind.function (headingSignature result formals) ≠ .struct := by
    rintro ⟨⟩
  rw [hanswer]
  exact hdeclares.answers hkind

theorem Resolver.settles_declareFormals (formals : List Formal) :
    (Resolver.declareFormals formals).Settles (formals.map Formal.declared)
      (fun walk => Formal.arrivals walk formals)
      (fun answer => answer.map Formal.id) := by
  induction formals with
  | nil => exact (Resolver.Quiet.pure _).settles fun _ => rfl
  | cons formal rest ih =>
      rw [Resolver.declareFormals]
      have hformal :=
        Resolver.settles_declareVariable .param (by rintro _ ⟨⟩) formal.type formal.id
      exact hformal.pair (Resolver.keeps_declareVariable _ _ _) (fun _ => ih) fun _ _ => rfl

end Declarations

section Structs

/-- A struct that is not passed is entered, or the walk halts at it. -/
theorem Arrival.binds_struct {walk : Walk} {id : Ident} (h : walk.passes id.name = false) :
    (Arrival.of ⟨id, .struct⟩ (Resolver.registerStruct ⟨id.name, .struct, id.span⟩)
      walk).Binds := by
  obtain ⟨hgoing, hrefusal⟩ := Walk.passes_eq_false.mp h
  cases hregister : walk.structs.register ⟨⟨id.name, .struct, id.span⟩, .new⟩ with
  | ok structs =>
      refine .inl ((Arrival.entered_of_struct rfl).mpr ⟨structs, hregister, ?_⟩)
      rw [Arrival.of, Resolver.registerStruct, Resolver.run_get, hregister]
      rfl
  | error reason =>
      refine .inr ⟨rfl, StructRegistry.name_eq_of_register hrefusal hregister, hgoing, ?_⟩
      rw [Arrival.of, Resolver.registerStruct, Resolver.run_get, hregister]
      exact Option.some_ne_none reason

/-- What is to be shown of a declaration: it comes to the names that it declares. -/
def Decl.Settles (decl : Decl) : Prop :=
  decl.resolve.Settles decl.declared (fun walk => decl.arrivals walk)
    fun answer => answer.1.declared.map Declared.id

/-- What is to be shown of a statement: it comes to the names that are declared in it. -/
def Stmt.Settles (stmt : Stmt) : Prop :=
  stmt.resolve.Settles stmt.declared (fun walk => stmt.arrivals walk)
    fun answer => answer.declared.map Declared.id

theorem Decl.settles_list {decls : List Decl} (h : ∀ decl ∈ decls, decl.Settles) :
    (Decl.resolveList decls).Settles (Decl.declaredOfList decls)
      (fun walk => Decl.arrivalsOfList walk decls)
      (fun answer => (Decl.declaredOfList answer.1).map Declared.id) := by
  induction decls with
  | nil => exact (Resolver.Quiet.pure _).settles fun _ => rfl
  | cons decl rest ih =>
      obtain ⟨hdecl, hrest⟩ := List.forall_mem_cons.mp h
      rw [Decl.resolveList]
      exact Resolver.Settles.pair hdecl (keeps_resolve_both.1 decl) (fun _ => ih hrest)
        fun _ _ => List.map_append

/-- A struct that is passed comes to its name and to those of its fields without a step. -/
theorem Decl.settles_struct (id : Ident) {fields : List Decl}
    (h : ∀ field ∈ fields, field.Settles) : (Decl.struct id fields).Settles where
  names walk := by
    rw [Decl.arrivals]
    by_cases hpasses : walk.passes id.name = true
    · rw [if_pos hpasses, ← List.map_cons, List.map_map]
      exact List.map_id _
    · rw [if_neg hpasses, List.map_cons, (Decl.settles_list h).names]
      rfl
  answers walk := by
    rw [Decl.arrivals]
    by_cases hpasses : walk.passes id.name = true
    · rw [if_pos hpasses, (Decl.run_struct_passed hpasses).1, ← List.map_cons,
        List.forall₂_map_left_iff, List.forall₂_map_right_iff]
      exact List.forall₂_same.mpr fun declared _ =>
        .left (Arrival.not_binds_passed walk declared)
    · have hgoing := Bool.eq_false_of_not_eq_true hpasses
      have hbinds : (Arrival.of ⟨id, .struct⟩
          (Resolver.registerStruct ⟨id.name, .struct, id.span⟩) walk).Binds :=
        Arrival.binds_struct hgoing
      rw [if_neg hpasses, Decl.run_struct hgoing (Prod.eta _).symm]
      exact .cons (.linked hbinds) ((Decl.settles_list h).answers (walk.inside id))
  halts walk hne := by
    rw [Decl.arrivals]
    by_cases hpasses : walk.passes id.name = true
    · rw [if_pos hpasses, (Decl.run_struct_passed hpasses).2, ← List.map_cons]
      refine (or_iff_left ?_).symm
      rintro ⟨arrival, harrival, hhalts⟩
      obtain ⟨declared, _, rfl⟩ := List.mem_map.mp harrival
      exact Arrival.not_halts_passed walk declared hhalts
    · have hgoing := Bool.eq_false_of_not_eq_true hpasses
      have hfields := (Decl.settles_list h).halts (walk.inside id) (List.cons_ne_nil _ _)
      have hstart := (Walk.passes_eq_false.mp hgoing).1
      rw [if_neg hpasses, Decl.halted_struct hgoing hne, hfields]
      simp only [List.mem_cons, exists_eq_or_imp]
      rw [← or_assoc, or_iff_right (not_not_intro hstart)]
      exact or_congr_left (and_iff_right hstart).symm

end Structs

section Trees

theorem Stmt.settles_list {stmts : List Stmt} (h : ∀ stmt ∈ stmts, stmt.Settles) :
    (Stmt.resolveList stmts).Settles (Stmt.declaredOfList stmts)
      (fun walk => Stmt.arrivalsOfList walk stmts)
      (fun answer => (Stmt.declaredOfList answer).map Declared.id) := by
  induction stmts with
  | nil => exact (Resolver.Quiet.pure _).settles fun _ => rfl
  | cons stmt rest ih =>
      obtain ⟨hstmt, hrest⟩ := List.forall_mem_cons.mp h
      rw [Stmt.resolveList]
      exact Resolver.Settles.pair hstmt (keeps_resolve_both.2 stmt).of_eq
        (fun _ => ih hrest) fun _ _ => List.map_append

theorem Block.settles {decls : List Decl} {stmts : List Stmt}
    (hdecls : ∀ decl ∈ decls, decl.Settles) (hstmts : ∀ stmt ∈ stmts, stmt.Settles) :
    (Block.mk decls stmts).resolve.Settles (Block.mk decls stmts).declared
      (fun walk => (Block.mk decls stmts).arrivals walk)
      (fun answer => answer.declared.map Declared.id) := by
  rw [Block.resolve]
  exact (Decl.settles_list hdecls).pair
    (Decl.keeps_resolveList fun decl _ => keeps_resolve_both.1 decl)
    (fun _ => Stmt.settles_list hstmts) fun _ _ => List.map_append

theorem Block.settles_scoped {decls : List Decl} {stmts : List Stmt}
    (hdecls : ∀ decl ∈ decls, decl.Settles) (hstmts : ∀ stmt ∈ stmts, stmt.Settles) :
    (Resolver.scoped (Block.mk decls stmts).resolve).Settles (Block.mk decls stmts).declared
      (fun walk => (Block.mk decls stmts).arrivals walk.opened)
      (fun answer => answer.declared.map Declared.id) :=
  (Block.settles hdecls hstmts).scoped (Block.keeps_resolve _)

theorem Decl.settles_func (result : TypeNode) (id : Ident) (formals : List Formal)
    {decls : List Decl} {stmts : List Stmt} (hdecls : ∀ decl ∈ decls, decl.Settles)
    (hstmts : ∀ stmt ∈ stmts, stmt.Settles) :
    (Decl.func result id formals (.mk decls stmts)).Settles := by
  have hinner : Resolver.Settles (do
        let formals ← Resolver.declareFormals formals
        return (formals, ← (Block.mk decls stmts).resolve))
      (formals.map Formal.declared ++ (Block.mk decls stmts).declared)
      (fun walk => Formal.arrivals walk formals ++ (Block.mk decls stmts).arrivals
        ((Resolver.declareFormals formals).run walk).2)
      (fun answer => answer.1.map Formal.id ++ answer.2.declared.map Declared.id) :=
    (Resolver.settles_declareFormals formals).pair (Resolver.keeps_declareFormals formals)
      (fun _ => Block.settles hdecls hstmts) fun _ _ => rfl
  have hscoped := hinner.scoped (Resolver.keeps_inner formals (.mk decls stmts))
  rw [Decl.Settles, Decl.resolve]
  refine (Resolver.settles_declareFunction result id formals).pair
    (Resolver.keeps_declareFunction result id formals) (fun _ => hscoped)
    fun answer inner => ?_
  have hformals : (inner.1.map Formal.declared).map Declared.id = inner.1.map Formal.id := by
    rw [List.map_map]
    rfl
  rw [Decl.declared, List.map_cons, List.map_append, hformals]
  rfl

/-- Every declaration and every statement comes to the names that are declared in it. -/
theorem settles_both : (∀ decl : Decl, decl.Settles) ∧ ∀ stmt : Stmt, stmt.Settles := by
  apply Stmt.inductBoth
  case var =>
    intro type id
    rw [Decl.Settles, Decl.resolve]
    exact (Resolver.settles_declareVariable .var (by rintro _ ⟨⟩) type id).last fun _ => rfl
  case func =>
    intro result id formals decls stmts ihdecls ihstmts
    exact Decl.settles_func result id formals ihdecls ihstmts
  case struct =>
    intro id fields ihfields
    exact Decl.settles_struct id ihfields
  case assign =>
    intro expr
    rw [Stmt.Settles, Stmt.resolve]
    exact (expr.quiet_resolve.bind fun _ => .pure _).settles fun _ => rfl
  case inc =>
    intro loc
    rw [Stmt.Settles, Stmt.resolve]
    exact (loc.quiet_resolve.bind fun _ => .pure _).settles fun _ => rfl
  case dec =>
    intro loc
    rw [Stmt.Settles, Stmt.resolve]
    exact (loc.quiet_resolve.bind fun _ => .pure _).settles fun _ => rfl
  case read =>
    intro loc
    rw [Stmt.Settles, Stmt.resolve]
    exact (loc.quiet_resolve.bind fun _ => .pure _).settles fun _ => rfl
  case write =>
    intro expr
    rw [Stmt.Settles, Stmt.resolve]
    exact (expr.quiet_resolve.bind fun _ => .pure _).settles fun _ => rfl
  case ifThen =>
    intro cond decls stmts ihdecls ihstmts
    rw [Stmt.Settles, Stmt.resolve]
    refine .behind (fun walk => (Block.mk decls stmts).arrivals walk.opened)
      cond.quiet_resolve cond.keeps_resolve.of_eq fun _ => ?_
    exact (Block.settles_scoped ihdecls ihstmts).last fun _ => rfl
  case ifElse =>
    intro cond decls stmts decls' stmts' ihdecls ihstmts ihdecls' ihstmts'
    rw [Stmt.Settles, Stmt.resolve]
    refine .behind (fun walk => (Block.mk decls stmts).arrivals walk.opened ++
      (Block.mk decls' stmts').arrivals
        ((Resolver.scoped (Block.mk decls stmts).resolve).run walk).2.opened)
      cond.quiet_resolve cond.keeps_resolve.of_eq fun _ => ?_
    exact (Block.settles_scoped ihdecls ihstmts).pair (Block.keeps_resolve _).scoped.of_eq
      (fun _ => Block.settles_scoped ihdecls' ihstmts') fun _ _ => List.map_append
  case while_ =>
    intro cond decls stmts ihdecls ihstmts
    rw [Stmt.Settles, Stmt.resolve]
    refine .behind (fun walk => (Block.mk decls stmts).arrivals walk.opened)
      cond.quiet_resolve cond.keeps_resolve.of_eq fun _ => ?_
    exact (Block.settles_scoped ihdecls ihstmts).last fun _ => rfl
  case call =>
    intro callee args
    rw [Stmt.Settles, Stmt.resolve]
    exact (callee.quiet_resolve.bind fun _ =>
      (Expr.quiet_resolveList fun arg _ => arg.quiet_resolve).bind fun _ => .pure _).settles
        fun _ => rfl
  case ret =>
    intro value
    cases value with
    | none =>
        rw [Stmt.Settles, Stmt.resolve]
        exact (Resolver.Quiet.pure _).settles fun _ => rfl
    | some value =>
        rw [Stmt.Settles, Stmt.resolve]
        exact (value.quiet_resolve.bind fun _ => .pure _).settles fun _ => rfl

end Trees

/-- Whether every linked name of a resolved program had its symbol entered on the way. -/
def Program.LinksEntered (program : Program) : Prop :=
  List.Forall₂ (fun arrival answer => answer.id.symbol ≠ none → arrival.Entered)
    program.arrivals program.resolve.program.declared

/-- How the names that a program declares are linked. Each is linked to its own symbol, if
that was entered or if the walk halted there at a struct without a name. Resolution fails
at one of these names, and anything but a struct is not linked there. -/
structure Program.Linked (program : Program) : Prop where
  names : program.arrivals.map Arrival.toDeclared = program.declared
  links : List.Forall₂ (fun arrival answer => ∀ symbol,
      answer.id.symbol = some symbol ↔
        symbol = arrival.symbol ∧ (arrival.Entered ∨ arrival.HaltsNameless))
    program.arrivals program.resolve.program.declared
  fails : (∃ reason, program.resolve.outcome = .error reason) ↔
    ∃ arrival ∈ program.arrivals, arrival.Halts
  unbound : List.Forall₂ (fun arrival answer => arrival.Halts → arrival.kind ≠ .struct →
      answer.id.symbol = none)
    program.arrivals program.resolve.program.declared

section Program

variable {program : Program}

theorem Arrival.Answers.symbol_iff {arrival : Arrival} {id : Ident} (h : arrival.Answers id)
    (hunlinked : arrival.id.symbol = none) (symbol : Symbol) :
    id.symbol = some symbol ↔ symbol = arrival.symbol ∧ arrival.Binds := by
  cases h with
  | linked hbinds =>
      refine ⟨fun hsymbol => ⟨(Option.some.inj hsymbol).symm, hbinds⟩, ?_⟩
      rintro ⟨rfl, _⟩
      rfl
  | left hfree =>
      rw [hunlinked]
      exact iff_of_false nofun fun h => hfree h.2

/-- A resolution fails where it halts at a declared name. -/
theorem Program.outcome_eq_error_iff_halts :
    (∃ reason, program.resolve.outcome = .error reason) ↔
      ∃ arrival ∈ program.arrivals, arrival.Halts := by
  have hhalts := (Decl.settles_list fun decl (_ : decl ∈ program.decls) =>
    settles_both.1 decl).halts .start (List.cons_ne_nil _ _)
  have hstart : Walk.start.halted = none := rfl
  rw [or_iff_right (not_not_intro hstart)] at hhalts
  refine Iff.trans ?_ hhalts
  rw [Program.outcome_resolve, Program.lastWalk]
  cases ((Decl.resolveList program.decls).run .start).2.halted with
  | none => simp
  | some reason => simp

/-- Where no declared name has a link of its own, links come from the walk alone. -/
theorem Program.linked_of_unlinked
    (h : ∀ declared ∈ program.declared, declared.id.symbol = none) : program.Linked := by
  have hsettles := Decl.settles_list fun decl (_ : decl ∈ program.decls) =>
    settles_both.1 decl
  have hnames : program.arrivals.map Arrival.toDeclared = program.declared :=
    hsettles.names .start
  have hnone : ∀ arrival ∈ program.arrivals, arrival.id.symbol = none := by
    intro arrival harrival
    refine h arrival.toDeclared ?_
    rw [← hnames]
    exact List.mem_map_of_mem harrival
  have hanswers := List.forall₂_map_right_iff.mp (hsettles.answers .start)
  have hboth := (List.forall₂_and_left _ _).mpr ⟨hnone, hanswers⟩
  refine ⟨hnames, ?_, Program.outcome_eq_error_iff_halts, ?_⟩
  · refine hboth.imp ?_
    rintro arrival answer ⟨hunlinked, hanswer⟩ symbol
    exact hanswer.symbol_iff hunlinked symbol
  · refine hboth.imp ?_
    rintro arrival answer ⟨hunlinked, hanswer⟩ hhalts hkind
    rw [Option.eq_none_iff_forall_ne_some]
    intro symbol hsymbol
    rcases ((hanswer.symbol_iff hunlinked symbol).mp hsymbol).2 with hentered | hnameless
    · exact hentered.not_halts hhalts
    · exact hkind hnameless.kind

/-- All links are entered exactly if no struct without a name halts the walk. -/
theorem Program.Linked.linksEntered_iff (h : program.Linked) :
    program.LinksEntered ↔ ∀ arrival ∈ program.arrivals, ¬ arrival.HaltsNameless := by
  constructor
  · intro hentered
    have hboth := List.Forall₂.mp (S := fun arrival _ => ¬ arrival.HaltsNameless ∧ True) ?_
      hentered h.links
    · exact ((List.forall₂_and_left _ _).mp hboth).1
    · refine fun arrival answer himp hlinks => ⟨fun hnameless => ?_, trivial⟩
      have hlink := (hlinks arrival.symbol).mpr ⟨rfl, .inr hnameless⟩
      exact (himp (hlink ▸ Option.some_ne_none _)).not_halts hnameless.halts
  · intro hnone
    refine ((List.forall₂_and_left _ _).mpr ⟨hnone, h.links⟩).imp ?_
    rintro arrival answer ⟨hother, hlinks⟩ hlinked
    obtain ⟨symbol, hsymbol⟩ := Option.ne_none_iff_exists'.mp hlinked
    exact ((hlinks symbol).mp hsymbol).2.resolve_right hother

end Program

/-- In a program without links, exactly those declared names are linked by its resolution
whose symbols were entered, and a struct without a name at which the resolution halts. So
the links of a program are entered if and only if its resolution halts at no such struct. -/
theorem Program.linked_iff_entered {program : Program}
    (h : ∀ declared ∈ program.declared, declared.id.symbol = none) :
    program.Linked ∧ (program.LinksEntered ↔
      ∀ arrival ∈ program.arrivals, ¬ arrival.HaltsNameless) :=
  ⟨Program.linked_of_unlinked h, (Program.linked_of_unlinked h).linksEntered_iff⟩

/-- A variable without a name behind another one. The resolution halts at it and leaves it
without a link. -/
theorem Program.linked_iff_entered_variable : ∃ program : Program,
    (∀ declared ∈ program.declared, declared.id.symbol = none) ∧
      program.resolve.outcome = .error .absentName ∧ program.LinksEntered := by
  let name (text : String) (line : Nat) : Ident := ⟨text, .point ⟨line, 5⟩, none⟩
  let program : Program := ⟨[.var .int (name "x" 1), .var .int (name "" 2)]⟩
  have hunlinked : ∀ declared ∈ program.declared, declared.id.symbol = none := by decide
  have hkinds : ∀ declared ∈ program.declared, declared.kind ≠ .struct := by decide
  obtain ⟨hlinked, hentered⟩ := program.linked_iff_entered hunlinked
  refine ⟨program, hunlinked, by decide, hentered.mpr fun arrival harrival hnameless => ?_⟩
  refine hkinds arrival.toDeclared ?_ hnameless.kind
  rw [← hlinked.names]
  exact List.mem_map_of_mem harrival

/-- A program with a struct that has no name. -/
def Program.namelessStruct : Program := ⟨[.struct ⟨"", .point ⟨1, 8⟩, none⟩ []]⟩

/-- A struct without a name is linked, although it is not registered. -/
theorem Program.not_linksEntered_struct :
    (∀ declared ∈ Program.namelessStruct.declared, declared.id.symbol = none) ∧
      Program.namelessStruct.resolve.outcome = .error .absentName ∧
        ¬ Program.namelessStruct.LinksEntered := by
  have hunlinked : ∀ declared ∈ Program.namelessStruct.declared,
      declared.id.symbol = none := by decide
  refine ⟨hunlinked, by decide, fun hentered => ?_⟩
  have hnone := (Program.linked_of_unlinked hunlinked).linksEntered_iff.mp hentered
  exact hnone _ List.mem_cons_self ⟨rfl, rfl, rfl, Option.some_ne_none _⟩

end MiniLang
