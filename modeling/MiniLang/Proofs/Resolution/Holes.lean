/-
Places for declared names: trees that are whole but for one name that they declare.
-/
import MiniLang.Proofs.Resolution.Visits

namespace MiniLang

mutual

/-- A declaration with a place for the name of a function, of a struct, or of a variable, a
field or a parameter that is not of type `void`. -/
inductive Decl.Hole : (Ident → Decl) → Prop where
  | var {type : TypeNode} (htype : type.type ≠ .void) : Decl.Hole (.var type)
  | func (result : TypeNode) (formals : List Formal) (body : Block) :
      Decl.Hole fun id => .func result id formals body
  | formal (result : TypeNode) (name : Ident) (front : List Formal) {type : TypeNode}
      (htype : type.type ≠ .void) (back : List Formal) (body : Block) :
      Decl.Hole fun id => .func result name (front ++ ⟨type, id⟩ :: back) body
  | body (result : TypeNode) (name : Ident) (formals : List Formal)
      {body : Ident → Block} (hbody : Block.Hole body) :
      Decl.Hole fun id => .func result name formals (body id)
  | struct (fields : List Decl) : Decl.Hole fun id => .struct id fields
  | field (name : Ident) (front : List Decl) {field : Ident → Decl}
      (hfield : Decl.Hole field) (back : List Decl) :
      Decl.Hole fun id => .struct name (front ++ field id :: back)

inductive Block.Hole : (Ident → Block) → Prop where
  | decl (front : List Decl) {decl : Ident → Decl} (hdecl : Decl.Hole decl)
      (back : List Decl) (stmts : List Stmt) :
      Block.Hole fun id => .mk (front ++ decl id :: back) stmts
  | stmt (decls : List Decl) (front : List Stmt) {stmt : Ident → Stmt}
      (hstmt : Stmt.Hole stmt) (back : List Stmt) :
      Block.Hole fun id => .mk decls (front ++ stmt id :: back)

inductive Stmt.Hole : (Ident → Stmt) → Prop where
  | ifThen (cond : Expr) {body : Ident → Block} (hbody : Block.Hole body) :
      Stmt.Hole fun id => .ifThen cond (body id)
  | thenBody (cond : Expr) {thenBody : Ident → Block} (hbody : Block.Hole thenBody)
      (elseBody : Block) : Stmt.Hole fun id => .ifElse cond (thenBody id) elseBody
  | elseBody (cond : Expr) (thenBody : Block) {elseBody : Ident → Block}
      (hbody : Block.Hole elseBody) :
      Stmt.Hole fun id => .ifElse cond thenBody (elseBody id)
  | while_ (cond : Expr) {body : Ident → Block} (hbody : Block.Hole body) :
      Stmt.Hole fun id => .while_ cond (body id)

end

inductive Program.Hole : (Ident → Program) → Prop where
  | decl (front : List Decl) {decl : Ident → Decl} (hdecl : Decl.Hole decl)
      (back : List Decl) : Program.Hole fun id => ⟨front ++ decl id :: back⟩

section Visits

/-- Whether every name in a declaration that can halt a walk has its place. -/
def Decl.Placed (decl : Decl) : Prop :=
  ∀ before, ∀ visit ∈ decl.visits before, visit.halts = true →
    ∃ hole, Decl.Hole hole ∧ hole visit.id = decl

/-- Whether every name in a statement that can halt a walk has its place. -/
def Stmt.Placed (stmt : Stmt) : Prop :=
  ∀ before, ∀ visit ∈ stmt.visits before, visit.halts = true →
    ∃ hole, Stmt.Hole hole ∧ hole visit.id = stmt

theorem Stmt.Placed.of_passive {stmt : Stmt} (h : ∀ before, Passive (stmt.visits before)) :
    stmt.Placed :=
  fun before _ hvisit hhalts => absurd hhalts ((h before).not_halts hvisit)

theorem not_isVoid_of_halts {id : Ident} {kind : SymbolKind}
    (h : (Visit.declared id kind).halts = true) : kind.isVoid = false := by
  rw [Visit.halts, Bool.and_eq_true] at h
  simpa using h.2

/-- A name among declarations that halts the walk has its place in one of them. -/
theorem Decl.hole_of_list {decls : List Decl} (h : ∀ decl ∈ decls, decl.Placed)
    {before : List Visit} {visit : Visit}
    (hvisit : visit ∈ Decl.visitsOfList before decls) (hhalts : visit.halts = true) :
    ∃ front hole back, Decl.Hole hole ∧ front ++ hole visit.id :: back = decls := by
  induction decls generalizing before with
  | nil => exact absurd hvisit List.not_mem_nil
  | cons decl rest ih =>
      obtain ⟨hdecl, hrest⟩ := List.forall_mem_cons.mp h
      rw [Decl.visitsOfList] at hvisit
      rcases List.mem_append.mp hvisit with hfirst | hmore
      · obtain ⟨hole, hhole, hsame⟩ := hdecl before visit hfirst hhalts
        exact ⟨[], hole, rest, hhole, by rw [hsame, List.nil_append]⟩
      · obtain ⟨front, hole, back, hhole, hsame⟩ := ih hrest hmore
        exact ⟨decl :: front, hole, back, hhole, by rw [List.cons_append, hsame]⟩

theorem Stmt.hole_of_list {stmts : List Stmt} (h : ∀ stmt ∈ stmts, stmt.Placed)
    {before : List Visit} {visit : Visit}
    (hvisit : visit ∈ Stmt.visitsOfList before stmts) (hhalts : visit.halts = true) :
    ∃ front hole back, Stmt.Hole hole ∧ front ++ hole visit.id :: back = stmts := by
  induction stmts generalizing before with
  | nil => exact absurd hvisit List.not_mem_nil
  | cons stmt rest ih =>
      obtain ⟨hstmt, hrest⟩ := List.forall_mem_cons.mp h
      rw [Stmt.visitsOfList] at hvisit
      rcases List.mem_append.mp hvisit with hfirst | hmore
      · obtain ⟨hole, hhole, hsame⟩ := hstmt before visit hfirst hhalts
        exact ⟨[], hole, rest, hhole, by rw [hsame, List.nil_append]⟩
      · obtain ⟨front, hole, back, hhole, hsame⟩ := ih hrest hmore
        exact ⟨stmt :: front, hole, back, hhole, by rw [List.cons_append, hsame]⟩

theorem Block.hole_of_visit {decls : List Decl} {stmts : List Stmt}
    (hdecls : ∀ decl ∈ decls, decl.Placed) (hstmts : ∀ stmt ∈ stmts, stmt.Placed)
    {before : List Visit} {visit : Visit}
    (hvisit : visit ∈ (Block.mk decls stmts).visits before)
    (hhalts : visit.halts = true) :
    ∃ hole, Block.Hole hole ∧ hole visit.id = .mk decls stmts := by
  rw [Block.visits] at hvisit
  rcases List.mem_append.mp hvisit with hdecl | hstmt
  · obtain ⟨front, hole, back, hhole, rfl⟩ := Decl.hole_of_list hdecls hdecl hhalts
    exact ⟨_, .decl front hhole back stmts, rfl⟩
  · obtain ⟨front, hole, back, hhole, rfl⟩ := Stmt.hole_of_list hstmts hstmt hhalts
    exact ⟨_, .stmt decls front hhole back, rfl⟩

theorem Formal.hole_of_visit {formals : List Formal} {visit : Visit}
    (hvisit : visit ∈ formals.flatMap Formal.visits) (hhalts : visit.halts = true) :
    ∃ front type back, TypeNode.type type ≠ .void ∧
      front ++ (Formal.mk type visit.id) :: back = formals := by
  obtain ⟨⟨type, id⟩, hformal, hmem⟩ := List.mem_flatMap.mp hvisit
  obtain ⟨front, back, rfl⟩ := List.append_of_mem hformal
  rcases List.mem_append.mp hmem with htype | hname
  · exact absurd hhalts ((passive_typed _).not_halts htype)
  · obtain rfl := List.mem_singleton.mp hname
    have hvoid := not_isVoid_of_halts hhalts
    exact ⟨front, type, back, beq_eq_false_iff_ne.mp hvoid, rfl⟩

theorem Decl.placed_func (result : TypeNode) (id : Ident) (formals : List Formal)
    {decls : List Decl} {stmts : List Stmt} (hdecls : ∀ decl ∈ decls, decl.Placed)
    (hstmts : ∀ stmt ∈ stmts, stmt.Placed) :
    (Decl.func result id formals (.mk decls stmts)).Placed := by
  intro before visit hvisit hhalts
  rw [Decl.visits, headingVisits, List.append_assoc, List.mem_append, List.cons_append,
    List.mem_cons, List.mem_append] at hvisit
  rcases hvisit with htype | rfl | hformal | hbody
  · exact absurd hhalts ((passive_typed _).not_halts htype)
  · exact ⟨_, .func result formals (.mk decls stmts), rfl⟩
  · obtain ⟨front, type, back, htype, rfl⟩ := Formal.hole_of_visit hformal hhalts
    exact ⟨_, .formal result id front htype back (.mk decls stmts), rfl⟩
  · obtain ⟨hole, hhole, hsame⟩ := Block.hole_of_visit hdecls hstmts hbody hhalts
    exact ⟨_, .body result id formals hhole, by rw [hsame]⟩

theorem Decl.placed_struct (id : Ident) {fields : List Decl}
    (hfields : ∀ field ∈ fields, field.Placed) : (Decl.struct id fields).Placed := by
  intro before visit hvisit hhalts
  rw [Decl.visits, List.mem_cons] at hvisit
  rcases hvisit with rfl | hmem
  · exact ⟨_, .struct fields, rfl⟩
  · split at hmem
    · exact absurd hhalts ((passive_skipped _).not_halts hmem)
    · obtain ⟨front, hole, back, hhole, rfl⟩ := Decl.hole_of_list hfields hmem hhalts
      exact ⟨_, .field id front hhole back, rfl⟩

/-- A name that halts a walk has its place in the tree. -/
theorem placed_both : (∀ decl : Decl, decl.Placed) ∧ ∀ stmt : Stmt, stmt.Placed := by
  apply Stmt.inductBoth
  case var =>
    intro type id before visit hvisit hhalts
    rw [Decl.visits, List.mem_append, List.mem_singleton] at hvisit
    rcases hvisit with htype | rfl
    · exact absurd hhalts ((passive_typed _).not_halts htype)
    · have hvoid := not_isVoid_of_halts hhalts
      exact ⟨_, .var (beq_eq_false_iff_ne.mp hvoid), rfl⟩
  case func =>
    intro result id formals decls stmts ihdecls ihstmts
    exact Decl.placed_func result id formals ihdecls ihstmts
  case struct =>
    intro id fields ihfields
    exact Decl.placed_struct id ihfields
  case assign => exact fun _ => .of_passive fun _ => passive_used _
  case inc => exact fun _ => .of_passive fun _ => passive_used _
  case dec => exact fun _ => .of_passive fun _ => passive_used _
  case read => exact fun _ => .of_passive fun _ => passive_used _
  case write => exact fun _ => .of_passive fun _ => passive_used _
  case ifThen =>
    intro cond decls stmts ihdecls ihstmts before visit hvisit hhalts
    rw [Stmt.visits, List.mem_append] at hvisit
    rcases hvisit with hcond | hbody
    · exact absurd hhalts ((passive_used _).not_halts hcond)
    · obtain ⟨hole, hhole, hsame⟩ := Block.hole_of_visit ihdecls ihstmts hbody hhalts
      exact ⟨_, .ifThen cond hhole, by rw [hsame]⟩
  case ifElse =>
    intro cond decls stmts decls' stmts' ihdecls ihstmts ihdecls' ihstmts' before visit
      hvisit hhalts
    rw [Stmt.visits, List.append_assoc, List.mem_append, List.mem_append] at hvisit
    rcases hvisit with hcond | hthen | helse
    · exact absurd hhalts ((passive_used _).not_halts hcond)
    · obtain ⟨hole, hhole, hsame⟩ := Block.hole_of_visit ihdecls ihstmts hthen hhalts
      exact ⟨_, .thenBody cond hhole (.mk decls' stmts'), by rw [hsame]⟩
    · obtain ⟨hole, hhole, hsame⟩ := Block.hole_of_visit ihdecls' ihstmts' helse hhalts
      exact ⟨_, .elseBody cond (.mk decls stmts) hhole, by rw [hsame]⟩
  case while_ =>
    intro cond decls stmts ihdecls ihstmts before visit hvisit hhalts
    rw [Stmt.visits, List.mem_append] at hvisit
    rcases hvisit with hcond | hbody
    · exact absurd hhalts ((passive_used _).not_halts hcond)
    · obtain ⟨hole, hhole, hsame⟩ := Block.hole_of_visit ihdecls ihstmts hbody hhalts
      exact ⟨_, .while_ cond hhole, by rw [hsame]⟩
  case call => exact fun _ _ => .of_passive fun _ => passive_used _
  case ret =>
    intro value
    cases value with
    | none => exact .of_passive fun _ => List.forall_mem_nil _
    | some value => exact .of_passive fun _ => passive_used _

/-- A name that halts the walk over a program has its place in the program. -/
theorem Program.hole_of_visit {program : Program} {visit : Visit}
    (hvisit : visit ∈ program.visits) (hhalts : visit.halts = true) :
    ∃ hole, Program.Hole hole ∧ hole visit.id = program := by
  obtain ⟨decls⟩ := program
  have hplaced : ∀ decl ∈ decls, decl.Placed := fun decl _ => placed_both.1 decl
  obtain ⟨front, hole, back, hhole, hsame⟩ := Decl.hole_of_list hplaced hvisit hhalts
  exact ⟨_, .decl front hhole back, congrArg Program.mk hsame⟩

end Visits

end MiniLang
