/-
Parsed programs. Their names are words that are not linked, their structs have plain
fields, and a walk meets the names in the order of the text.
-/
import MiniLang.Proofs.Grammar.Acceptance
import MiniLang.Proofs.Grammar.Leaves
import MiniLang.Proofs.Resolution.Walks
import Mathlib.Data.List.Flatten

namespace MiniLang

/-- Whether the names of a program have not been resolved: no name is linked, every
declared name has a character, and the fields of structs are variables. -/
structure Program.Raw (program : Program) : Prop where
  unlinked : ∀ id, Leaf.name id ∈ program.leaves → id.symbol = none
  named : ∀ id ∈ program.declaring, id.name ≠ ""
  plain : program.hasPlainStructs = true

def namesOf (occurrences : List Occurrence) : List Leaf :=
  occurrences.flatMap fun occurrence => occurrence.site.ids.map .name

theorem namesOf_append (front back : List Occurrence) :
    namesOf (front ++ back) = namesOf front ++ namesOf back := List.flatMap_append

theorem namesOf_uses (scope : ScopePath) (ids : List Ident) :
    namesOf (occurrencesOfUses scope ids) = ids.map .name := by
  induction ids with
  | nil => rfl
  | cons id rest ih => exact congrArg (Leaf.name id :: ·) ih

/-- The names that an expression uses are leaves of it; fields are left out. -/
theorem Expr.uses_sublist (expr : Expr) :
    (expr.uses.map Leaf.name).Sublist expr.leaves := by
  induction expr using Expr.induct with
  | int span value => exact List.nil_sublist _
  | str span text => exact List.nil_sublist _
  | bool span value => exact List.nil_sublist _
  | name id => exact List.Sublist.refl _
  | dot loc field ih =>
      rw [Expr.uses, List.map_append, Expr.leaves]
      exact ih.append (List.Sublist.refl _)
  | assign lhs rhs ihlhs ihrhs =>
      rw [Expr.uses, List.map_append, Expr.leaves]
      exact ihlhs.append ihrhs
  | call callee args ih =>
      rw [Expr.uses, Expr.usesOfList_eq, List.map_cons, Expr.leaves,
        Expr.leavesOfList_eq, List.map_flatMap]
      exact (List.Sublist.flatMap_right args ih).cons_cons _
  | unary op operand ih => exact ih
  | binary op lhs rhs ihlhs ihrhs =>
      rw [Expr.uses, List.map_append, Expr.leaves]
      exact ihlhs.append ihrhs

theorem namesOf_decls_sublist {decls : List Decl} {scope : ScopePath}
    (h : ∀ decl ∈ decls, ∀ scope index,
      (namesOf (decl.occurrences scope index)).Sublist decl.leaves) (index : Nat) :
    (namesOf (Decl.occurrencesOfList scope index decls)).Sublist
      (decls.flatMap Decl.leaves) := by
  induction decls generalizing index with
  | nil => exact List.nil_sublist _
  | cons decl rest ih =>
      obtain ⟨hdecl, hrest⟩ := List.forall_mem_cons.mp h
      rw [Decl.occurrencesOfList, namesOf_append, List.flatMap_cons]
      exact (hdecl scope index).append (ih hrest (index + 1))

theorem namesOf_stmts_sublist {stmts : List Stmt} {scope : ScopePath}
    (h : ∀ stmt ∈ stmts, ∀ scope index,
      (namesOf (stmt.occurrences scope index)).Sublist stmt.leaves) (index : Nat) :
    (namesOf (Stmt.occurrencesOfList scope index stmts)).Sublist
      (stmts.flatMap Stmt.leaves) := by
  induction stmts generalizing index with
  | nil => exact List.nil_sublist _
  | cons stmt rest ih =>
      obtain ⟨hstmt, hrest⟩ := List.forall_mem_cons.mp h
      rw [Stmt.occurrencesOfList, namesOf_append, List.flatMap_cons]
      exact (hstmt scope index).append (ih hrest (index + 1))

theorem namesOf_block_sublist {decls : List Decl} {stmts : List Stmt}
    {scope : ScopePath}
    (hdecls : ∀ decl ∈ decls, ∀ scope index,
      (namesOf (decl.occurrences scope index)).Sublist decl.leaves)
    (hstmts : ∀ stmt ∈ stmts, ∀ scope index,
      (namesOf (stmt.occurrences scope index)).Sublist stmt.leaves) :
    (namesOf ((Block.mk decls stmts).occurrences scope)).Sublist
      (Block.mk decls stmts).leaves := by
  rw [Block.occurrences, namesOf_append, Block.leaves, Decl.leavesOfList_eq,
    Stmt.leavesOfList_eq]
  exact (namesOf_decls_sublist hdecls 0).append (namesOf_stmts_sublist hstmts 0)

theorem namesOf_formals_sublist (scope : ScopePath) (formals : List Formal) :
    (namesOf (occurrencesOfFormals scope formals)).Sublist
      (formals.flatMap Formal.leaves) := by
  rw [namesOf, occurrencesOfFormals, List.flatMap_map]
  exact List.Sublist.flatMap_right formals fun _ _ => List.sublist_append_right _ _

theorem names_of_fields_sublist (fields : List Decl) :
    (((fields.filterMap Decl.field?).map Formal.id).map Leaf.name).Sublist
      (fields.flatMap Decl.leaves) := by
  induction fields with
  | nil => exact List.nil_sublist _
  | cons field rest ih =>
      rw [List.flatMap_cons]
      cases field with
      | var type id =>
          have hname : [Leaf.name id].Sublist (Decl.var type id).leaves :=
            List.sublist_append_right _ _
          exact hname.append ih
      | _ => exact ih.trans (List.sublist_append_right _ _)

/-- A walk meets the names of a tree from the left to the right. -/
theorem namesOf_sublist_both :
    (∀ decl : Decl, ∀ scope index,
      (namesOf (decl.occurrences scope index)).Sublist decl.leaves) ∧
    ∀ stmt : Stmt, ∀ scope index,
      (namesOf (stmt.occurrences scope index)).Sublist stmt.leaves := by
  apply Stmt.inductBoth
  case var =>
    exact fun type id scope index => List.sublist_append_right _ _
  case func =>
    intro result id formals decls stmts ihdecls ihstmts scope index
    have hheading : [Leaf.name id].Sublist (result.leaves ++ [.name id]) :=
      List.sublist_append_right _ _
    have hformals := namesOf_formals_sublist (.function index :: scope) formals
    have hbody : (namesOf ((Block.mk decls stmts).occurrences
        (.function index :: scope))).Sublist (Block.mk decls stmts).leaves :=
      namesOf_block_sublist ihdecls ihstmts
    have hall := (hheading.append hformals).append hbody
    rw [Decl.occurrences, namesOf_append]
    rw [List.append_assoc result.leaves] at hall
    exact hall
  case struct =>
    intro id fields _ scope index
    have hall := (names_of_fields_sublist fields).cons_cons (Leaf.name id)
    rw [Decl.occurrences, Decl.leaves, Decl.leavesOfList_eq]
    simpa [namesOf, Site.ids, Site.declaring] using hall
  case assign =>
    intro expr scope index
    rw [Stmt.occurrences, namesOf_uses]
    exact expr.uses_sublist
  case inc =>
    intro loc scope index
    rw [Stmt.occurrences, namesOf_uses]
    exact loc.uses_sublist
  case dec =>
    intro loc scope index
    rw [Stmt.occurrences, namesOf_uses]
    exact loc.uses_sublist
  case read =>
    intro loc scope index
    rw [Stmt.occurrences, namesOf_uses]
    exact loc.uses_sublist
  case write =>
    intro expr scope index
    rw [Stmt.occurrences, namesOf_uses]
    exact expr.uses_sublist
  case ifThen =>
    intro cond decls stmts ihdecls ihstmts scope index
    rw [Stmt.occurrences, namesOf_append, namesOf_uses]
    exact cond.uses_sublist.append (namesOf_block_sublist ihdecls ihstmts)
  case ifElse =>
    intro cond decls stmts decls' stmts' ihdecls ihstmts ihdecls' ihstmts' scope index
    rw [Stmt.occurrences, namesOf_append, namesOf_append, namesOf_uses]
    exact (cond.uses_sublist.append (namesOf_block_sublist ihdecls ihstmts)).append
      (namesOf_block_sublist ihdecls' ihstmts')
  case while_ =>
    intro cond decls stmts ihdecls ihstmts scope index
    rw [Stmt.occurrences, namesOf_append, namesOf_uses]
    exact cond.uses_sublist.append (namesOf_block_sublist ihdecls ihstmts)
  case call =>
    intro callee args scope index
    have hcall := (Expr.call callee args).uses_sublist
    rw [Expr.uses, Expr.usesOfList_eq, Expr.leaves, Expr.leavesOfList_eq] at hcall
    rw [Stmt.occurrences, namesOf_uses]
    exact hcall
  case ret =>
    intro value scope index
    cases value with
    | none => exact List.nil_sublist _
    | some value =>
        rw [Stmt.occurrences, namesOf_uses]
        exact value.uses_sublist

theorem Program.names_sublist (program : Program) :
    (namesOf program.occurrences).Sublist program.leaves :=
  namesOf_decls_sublist (fun decl _ => namesOf_sublist_both.1 decl) 0

theorem name_mem_namesOf {occurrences : List Occurrence} {occurrence : Occurrence}
    (h : occurrence ∈ occurrences) {id : Ident} (hid : id ∈ occurrence.site.ids) :
    Leaf.name id ∈ namesOf occurrences :=
  List.mem_flatMap.mpr ⟨occurrence, h, List.mem_map_of_mem hid⟩

theorem Site.declaring_subset_ids (site : Site) : site.declaring ⊆ site.ids := by
  cases site with
  | use id => exact List.nil_subset _
  | _ => exact List.Subset.refl _

theorem DerivesVarDecl.field {part : Derivation} {decl : Decl}
    (h : DerivesVarDecl part decl) : decl.field?.isSome = true := by
  cases h with
  | var _ _ _ => rfl

theorem DerivesVarDecl.hasPlainStructs {part : Derivation} {decl : Decl}
    (h : DerivesVarDecl part decl) : decl.hasPlainStructs = true := by
  cases h with
  | var _ _ _ => rfl

theorem BlockParts.Framed.hasPlainStructs {parts : BlockParts} (h : parts.Framed)
    (hstmts : ∀ stmt ∈ parts.stmts, stmt.2.hasPlainStructs = true) :
    parts.block.hasPlainStructs = true := by
  rw [BlockParts.block, Block.hasPlainStructs, Decl.havePlainStructs_eq,
    Stmt.havePlainStructs_eq, Bool.and_eq_true, List.all_eq_true, List.all_eq_true]
  exact ⟨List.forall_mem_map.mpr fun decl hdecl => (h.decls decl hdecl).hasPlainStructs,
    List.forall_mem_map.mpr hstmts⟩

theorem DerivesStmt.hasPlainStructs {part : Derivation} {stmt : Stmt}
    (h : DerivesStmt part stmt) : stmt.hasPlainStructs = true := by
  induction h with
  | ifThen _ _ _ _ hbody _ ih | while_ _ _ _ _ hbody _ ih =>
      exact hbody.hasPlainStructs ih
  | ifElse _ _ _ _ hthen _ _ helse _ ihthen ihelse =>
      exact Bool.and_eq_true_iff.mpr
        ⟨hthen.hasPlainStructs ihthen, helse.hasPlainStructs ihelse⟩
  | _ => rfl

theorem DerivesDecl.hasPlainStructs {part : Derivation} {decl : Decl}
    (h : DerivesDecl part decl) : decl.hasPlainStructs = true := by
  cases h with
  | struct _ _ _ _ hfields _ _ =>
      exact List.all_eq_true.mpr
        (List.forall_mem_map.mpr fun field hfield => (hfields field hfield).field)
  | var hpart => exact hpart.hasPlainStructs
  | func _ _ _ _ _ _ _ hbody =>
      cases hbody with
      | block hframed hstmts =>
          exact hframed.hasPlainStructs fun stmt hstmt =>
            (hstmts stmt hstmt).hasPlainStructs

/-- Names that are words of the language are neither empty nor reserved. -/
theorem IsName.plain {name : String} (h : IsName name) :
    name ≠ "" ∧ isReservedTypeName name = false := by
  obtain ⟨c, rest, hname, _, _, hword⟩ := h
  constructor
  · rintro rfl
    exact absurd hname nofun
  · rw [isReservedTypeName, ← Bool.not_eq_true, List.contains_iff_mem]
    intro hreserved
    obtain ⟨word, _, rfl⟩ := List.mem_map.mp hreserved
    cases word <;> exact absurd hword (by decide)

/-- The names in a parsed program are words of the language that are not linked. -/
theorem Program.names_of_parse {source : String} {program : Program}
    (h : parseTokens (scan source).tokens = .ok program) {id : Ident}
    (hid : Leaf.name id ∈ program.leaves) : IsName id.name ∧ id.symbol = none := by
  obtain ⟨part, hpart, htokens⟩ := parseTokens_scan_iff.mp h
  exact plain_of_mem_leaves hpart htokens _ hid

/-- The names of a parsed program have not been resolved. -/
theorem Program.raw_of_parse {source : String} {program : Program}
    (h : parseTokens (scan source).tokens = .ok program) : program.Raw := by
  refine ⟨fun id hid => (Program.names_of_parse h hid).2, ?_, ?_⟩
  · intro id hid
    obtain ⟨occurrence, hoccurrence, hdeclaring⟩ := List.mem_flatMap.mp hid
    have hname := name_mem_namesOf hoccurrence
      (Site.declaring_subset_ids occurrence.site hdeclaring)
    exact (Program.names_of_parse h (program.names_sublist.subset hname)).1.plain.1
  · obtain ⟨part, hpart, _⟩ := parseTokens_scan_iff.mp h
    cases hpart with
    | program hdecls =>
        exact List.all_eq_true.mpr
          (List.forall_mem_map.mpr fun decl hdecl => (hdecls decl hdecl).hasPlainStructs)

theorem Token.span_of_leaf? {token : Token} {leaf : Leaf}
    (h : token.leaf? = some leaf) : leaf.span = token.span := by
  unfold Token.leaf? at h
  split at h
  case h_6 => exact absurd h nofun
  all_goals
    obtain rfl := Option.some.inj h
    rfl

/-- A walk over a parsed program meets names that stand behind each other. -/
theorem Program.names_ascend {source : String} {program : Program}
    (h : parseTokens (scan source).tokens = .ok program) :
    (namesOf program.occurrences).Pairwise fun leaf other =>
      leaf.span.start.Before other.span.start := by
  obtain ⟨part, hpart, htokens⟩ := parseTokens_scan_iff.mp h
  refine List.Pairwise.sublist program.names_sublist ?_
  rw [hpart.leaves, htokens]
  refine (wordsOf_ascend source).filterMap Token.leaf? ?_
  intro token other hbefore leaf hleaf next hnext
  rw [Token.span_of_leaf? hleaf, Token.span_of_leaf? hnext]
  exact hbefore

end MiniLang
