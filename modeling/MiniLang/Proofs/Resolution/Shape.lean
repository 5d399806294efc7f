/-
The shape of parsed programs. Blocks declare variables only, the fields of structs are
variables, and no name is empty. A walk over trees of this shape goes on to their end, and
their blocks leave the struct types as they are.
-/
import MiniLang.Proofs.Resolution.Parsed
import MiniLang.Proofs.Resolution.Visits

namespace MiniLang

mutual

/-- Whether a block and all blocks inside of it declare variables only. -/
def Block.isFlat : Block → Bool
  | .mk decls stmts => decls.all (fun decl => decl.field?.isSome) && Stmt.areFlat stmts

def Stmt.isFlat : Stmt → Bool
  | .ifThen _ body => body.isFlat
  | .ifElse _ thenBody elseBody => thenBody.isFlat && elseBody.isFlat
  | .while_ _ body => body.isFlat
  | _ => true

def Stmt.areFlat : List Stmt → Bool
  | [] => true
  | stmt :: rest => stmt.isFlat && Stmt.areFlat rest

end

@[simp] theorem Stmt.areFlat_eq (stmts : List Stmt) :
    Stmt.areFlat stmts = stmts.all Stmt.isFlat := by
  induction stmts with
  | nil => rfl
  | cons stmt rest ih => rw [Stmt.areFlat, ih, List.all_cons]

/-- Whether a declaration is that of a variable, of a function whose blocks declare
variables only, or of a struct whose fields are variables. -/
def Decl.isFlat : Decl → Bool
  | .var _ _ => true
  | .func _ _ _ body => body.isFlat
  | .struct _ fields => fields.all fun field => field.field?.isSome

/-- Whether a block is one that is parsed, up to links: it declares variables only, and none
of its names is empty. -/
structure Block.Shaped (block : Block) : Prop where
  flat : block.isFlat = true
  named : ∀ id ∈ idsOf block.leaves, id.name ≠ ""

structure Decl.Shaped (decl : Decl) : Prop where
  flat : decl.isFlat = true
  named : ∀ id ∈ idsOf decl.leaves, id.name ≠ ""

/-- Whether a program has the shape of those that are parsed. -/
def Program.Shaped (program : Program) : Prop := ∀ decl ∈ program.decls, decl.Shaped

section Parsed

theorem BlockParts.Framed.isFlat {parts : BlockParts} (h : parts.Framed)
    (hstmts : ∀ stmt ∈ parts.stmts, stmt.2.isFlat = true) : parts.block.isFlat = true := by
  rw [BlockParts.block, Block.isFlat, Stmt.areFlat_eq, Bool.and_eq_true, List.all_eq_true,
    List.all_eq_true]
  constructor
  · exact List.forall_mem_map.mpr fun decl hdecl => (h.decls decl hdecl).field
  · exact List.forall_mem_map.mpr hstmts

theorem DerivesStmt.isFlat {part : Derivation} {stmt : Stmt} (h : DerivesStmt part stmt) :
    stmt.isFlat = true := by
  induction h with
  | ifThen _ _ _ _ hbody _ ih | while_ _ _ _ _ hbody _ ih => exact hbody.isFlat ih
  | ifElse _ _ _ _ hthen _ _ helse _ ihthen ihelse =>
      exact Bool.and_eq_true_iff.mpr ⟨hthen.isFlat ihthen, helse.isFlat ihelse⟩
  | _ => rfl

theorem DerivesDecl.isFlat {part : Derivation} {decl : Decl} (h : DerivesDecl part decl) :
    decl.isFlat = true := by
  cases h with
  | struct _ _ _ _ hfields _ _ =>
      exact List.all_eq_true.mpr
        (List.forall_mem_map.mpr fun field hfield => (hfields field hfield).field)
  | var hpart =>
      cases hpart with
      | var _ _ _ => rfl
  | func _ _ _ _ _ _ _ hbody =>
      cases hbody with
      | block hframed hstmts =>
          exact hframed.isFlat fun stmt hstmt => (hstmts stmt hstmt).isFlat

/-- Every program that is parsed has this shape. -/
theorem Program.shaped_of_parse {source : String} {program : Program}
    (h : parseTokens (scan source).tokens = .ok program) : program.Shaped := by
  intro decl hdecl
  constructor
  · obtain ⟨part, hpart, _⟩ := parseTokens_scan_iff.mp h
    cases hpart with
    | program hdecls =>
        obtain ⟨derived, hderived, rfl⟩ := List.mem_map.mp hdecl
        exact (hdecls derived hderived).isFlat
  · intro id hid
    apply (Program.names_of_parse h _).1.plain.1
    exact List.mem_flatMap.mpr ⟨decl, hdecl, mem_idsOf.mp hid⟩

end Parsed

section Walked

/-- Whether no occurrence is that of a struct that is registered. -/
def Structless (occurrences : List Occurrence) : Prop :=
  ∀ occurrence ∈ occurrences, ∀ before, occurrence.structs before = []

theorem structless_uses (scope : ScopePath) (ids : List Ident) :
    Structless (occurrencesOfUses scope ids) := List.forall_mem_map.mpr fun _ _ _ => rfl

theorem Structless.append {front back : List Occurrence} (hfront : Structless front)
    (hback : Structless back) : Structless (front ++ back) :=
  List.forall_mem_append.mpr ⟨hfront, hback⟩

theorem Decl.structless_of_field {decl : Decl} (h : decl.field?.isSome = true)
    (scope : ScopePath) (index : Nat) : Structless (decl.occurrences scope index) := by
  cases decl with
  | var type id => exact List.forall_mem_singleton.mpr fun _ => rfl
  | _ => cases h

theorem Decl.structless_list {decls : List Decl}
    (h : ∀ decl ∈ decls, ∀ scope index, Structless (decl.occurrences scope index))
    (scope : ScopePath) (index : Nat) :
    Structless (Decl.occurrencesOfList scope index decls) := by
  induction decls generalizing index with
  | nil => exact List.forall_mem_nil _
  | cons decl rest ih =>
      obtain ⟨hdecl, hrest⟩ := List.forall_mem_cons.mp h
      exact (hdecl scope index).append (ih hrest (index + 1))

theorem Stmt.structless_list {stmts : List Stmt}
    (h : ∀ stmt ∈ stmts, ∀ scope index, Structless (stmt.occurrences scope index))
    (scope : ScopePath) (index : Nat) :
    Structless (Stmt.occurrencesOfList scope index stmts) := by
  induction stmts generalizing index with
  | nil => exact List.forall_mem_nil _
  | cons stmt rest ih =>
      obtain ⟨hstmt, hrest⟩ := List.forall_mem_cons.mp h
      exact (hstmt scope index).append (ih hrest (index + 1))

/-- Whether a tree has plain structs and its occurrences register no struct. -/
def Stmt.Plain (stmt : Stmt) : Prop :=
  stmt.hasPlainStructs = true ∧ ∀ scope index, Structless (stmt.occurrences scope index)

/-- A flat block has plain structs, and its occurrences register no struct. -/
theorem Block.plain_of_flat {decls : List Decl} {stmts : List Stmt}
    (hstmts : ∀ stmt ∈ stmts, stmt.isFlat = true → stmt.Plain)
    (h : (Block.mk decls stmts).isFlat = true) :
    (Block.mk decls stmts).hasPlainStructs = true ∧
      ∀ scope, Structless ((Block.mk decls stmts).occurrences scope) := by
  rw [Block.isFlat, Stmt.areFlat_eq, Bool.and_eq_true, List.all_eq_true, List.all_eq_true]
    at h
  obtain ⟨hfields, hflat⟩ := h
  have hplain := fun stmt hstmt => hstmts stmt hstmt (hflat stmt hstmt)
  constructor
  · rw [Block.hasPlainStructs, Decl.havePlainStructs_eq, Stmt.havePlainStructs_eq,
      Bool.and_eq_true, List.all_eq_true, List.all_eq_true]
    constructor
    · intro decl hdecl
      cases decl with
      | var type id => rfl
      | _ => cases hfields _ hdecl
    · exact fun stmt hstmt => (hplain stmt hstmt).1
  · intro scope
    apply Structless.append
    · exact Decl.structless_list
        (fun decl hdecl => Decl.structless_of_field (hfields decl hdecl)) scope 0
    · exact Stmt.structless_list (fun stmt hstmt => (hplain stmt hstmt).2) scope 0

/-- Flat statements have plain structs, and their occurrences register no struct. -/
theorem Stmt.plain_of_flat : ∀ stmt : Stmt, stmt.isFlat = true → stmt.Plain := by
  -- Nothing is needed of declarations: those of flat blocks are variables.
  have hboth : (∀ _ : Decl, True) ∧ ∀ stmt : Stmt, stmt.isFlat = true → stmt.Plain := by
    apply Stmt.inductBoth
    case var | func | struct => intros; trivial
    case ifThen | while_ =>
      intro cond decls stmts _ ihstmts h
      obtain ⟨hplain, hbody⟩ := Block.plain_of_flat ihstmts h
      exact ⟨hplain, fun scope index =>
        (structless_uses scope cond.uses).append (hbody _)⟩
    case ifElse =>
      intro cond decls stmts decls' stmts' _ ihstmts _ ihstmts' h
      obtain ⟨hthen, helse⟩ := Bool.and_eq_true_iff.mp h
      obtain ⟨hplain, hbody⟩ := Block.plain_of_flat ihstmts hthen
      obtain ⟨hplain', hbody'⟩ := Block.plain_of_flat ihstmts' helse
      refine ⟨Bool.and_eq_true_iff.mpr ⟨hplain, hplain'⟩, fun scope index => ?_⟩
      exact ((structless_uses scope cond.uses).append (hbody _)).append (hbody' _)
    case call =>
      exact fun callee args _ => ⟨rfl, fun scope _ => structless_uses scope _⟩
    case ret =>
      intro value _
      cases value with
      | none => exact ⟨rfl, fun _ _ => List.forall_mem_nil _⟩
      | some value => exact ⟨rfl, fun scope _ => structless_uses scope value.uses⟩
    case assign | inc | dec | read | write =>
      exact fun expr _ => ⟨rfl, fun scope _ => structless_uses scope expr.uses⟩
  exact hboth.2

theorem Block.Shaped.structless {block : Block} (h : block.Shaped) (scope : ScopePath) :
    Structless (block.occurrences scope) := by
  obtain ⟨decls, stmts⟩ := block
  exact (Block.plain_of_flat (fun stmt _ => stmt.plain_of_flat) h.flat).2 scope

theorem Decl.Shaped.hasPlainStructs {decl : Decl} (h : decl.Shaped) :
    decl.hasPlainStructs = true := by
  cases decl with
  | var type id => rfl
  | func result id formals body =>
      obtain ⟨decls, stmts⟩ := body
      exact (Block.plain_of_flat (fun stmt _ => stmt.plain_of_flat) h.flat).1
  | struct id fields => exact h.flat

theorem Decl.Shaped.named_occurrences {decl : Decl} (h : decl.Shaped) (scope : ScopePath)
    (index : Nat) : Named (decl.occurrences scope index) := by
  intro occurrence hoccurrence id hid
  apply h.named
  rw [mem_idsOf]
  apply (namesOf_sublist_both.1 decl scope index).subset
  exact name_mem_namesOf hoccurrence (Site.declaring_subset_ids _ hid)

theorem Decl.Shaped.links {decl : Decl} (h : decl.Shaped) {scope : ScopePath} {index : Nat}
    {before : List Occurrence} (hnew : Untouched before (.function index :: scope)) :
    Links decl.resolve (fun answer => answer.1.occurrences scope index) scope before
      (decl.occurrences scope index) :=
  walked_both.1 decl h.hasPlainStructs (h.named_occurrences scope index) hnew

theorem Decl.named_list {decls : List Decl} (h : ∀ decl ∈ decls, decl.Shaped)
    (scope : ScopePath) (index : Nat) : Named (Decl.occurrencesOfList scope index decls) := by
  induction decls generalizing index with
  | nil => exact List.forall_mem_nil _
  | cons decl rest ih =>
      obtain ⟨hdecl, hrest⟩ := List.forall_mem_cons.mp h
      have hfirst : Named (decl.occurrences scope index) := hdecl.named_occurrences scope index
      exact List.forall_mem_append.mpr ⟨hfirst, ih hrest (index + 1)⟩

/-- Declarations of this shape are walked over. -/
theorem Decl.links_shaped {decls : List Decl} (h : ∀ decl ∈ decls, decl.Shaped)
    {scope : ScopePath} {index : Nat} {before : List Occurrence}
    (hnew : ∀ other, index ≤ other → Untouched before (.function other :: scope)) :
    Links (Decl.resolveList decls)
      (fun answer => Decl.occurrencesOfList scope index answer.1) scope before
      (Decl.occurrencesOfList scope index decls) := by
  apply Decl.links_list _ (Decl.named_list h scope index) hnew
  exact fun decl hdecl => walked_both.1 decl (h decl hdecl).hasPlainStructs

/-- A program of this shape can be resolved. -/
theorem Program.Shaped.outcome {program : Program} (h : program.Shaped) :
    ∃ names, program.resolve.outcome = .ok names := by
  have hplain : program.hasPlainStructs = true :=
    List.all_eq_true.mpr fun decl hdecl => (h decl hdecl).hasPlainStructs
  obtain ⟨_, _, houtcome⟩ := Program.resolve_walks hplain (Decl.named_list h [] 0)
  exact ⟨_, houtcome⟩

end Walked

end MiniLang
