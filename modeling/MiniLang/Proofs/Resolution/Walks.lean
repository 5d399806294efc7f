/-
Walks over whole trees. Resolving a program walks over its occurrences: it ends behind
them, and it answers the program with their names linked.
-/
import MiniLang.Proofs.Resolution.Declarations
import MiniLang.Proofs.Resolution.Places

namespace MiniLang

/-- Whether every declared name has a character. -/
def Named (occurrences : List Occurrence) : Prop :=
  ∀ occurrence ∈ occurrences, ∀ id ∈ occurrence.site.declaring, id.name ≠ ""

/-- Whether a declaration is walked over in every scope where its function opens a new
scope. -/
def Decl.Walked (decl : Decl) : Prop :=
  ∀ {scope index before}, Named (decl.occurrences scope index) →
    Untouched before (.function index :: scope) →
    Links decl.resolve (fun answer => answer.1.occurrences scope index) scope before
      (decl.occurrences scope index)

def Stmt.Walked (stmt : Stmt) : Prop :=
  ∀ {scope index before}, Named (stmt.occurrences scope index) →
    Untouched before (.body index :: scope) →
    Untouched before (.elseBody index :: scope) →
    Links stmt.resolve (fun answer => answer.occurrences scope index) scope before
      (stmt.occurrences scope index)

theorem headingSignature_congr (result : TypeNode) {formals others : List Formal}
    (h : others.map Formal.type = formals.map Formal.type) :
    headingSignature result others = headingSignature result formals := by
  have htypes := congrArg (List.map TypeNode.type) h
  rw [List.map_map, List.map_map] at htypes
  rw [headingSignature, headingSignature]
  exact congrArg (Signature.mk · result.type) htypes

section Walked

variable {scope : ScopePath} {before : List Occurrence}

theorem Decl.links_list {decls : List Decl} (h : ∀ decl ∈ decls, decl.Walked)
    {index : Nat} (hnamed : Named (Decl.occurrencesOfList scope index decls))
    (hnew : ∀ other, index ≤ other → Untouched before (.function other :: scope)) :
    Links (Decl.resolveList decls)
      (fun answer => Decl.occurrencesOfList scope index answer.1) scope before
      (Decl.occurrencesOfList scope index decls) := by
  induction decls generalizing index before with
  | nil => exact .pure rfl
  | cons decl rest ih =>
      obtain ⟨hdecl, hrest⟩ := List.forall_mem_cons.mp h
      obtain ⟨hfirstNamed, hrestNamed⟩ := List.forall_mem_append.mp hnamed
      have hfirst := hdecl hfirstNamed (hnew index (by omega))
      refine hfirst.pair (ih hrest hrestNamed fun other hless => ?_) fun _ _ => rfl
      refine (hnew other (by omega)).append ((within_both.1 decl scope index).untouched ?_)
      intro hsame
      obtain rfl : other = index := by simpa using hsame
      omega

theorem Stmt.links_list {stmts : List Stmt} (h : ∀ stmt ∈ stmts, stmt.Walked)
    {index : Nat} (hnamed : Named (Stmt.occurrencesOfList scope index stmts))
    (hbody : ∀ other, index ≤ other → Untouched before (.body other :: scope))
    (helse : ∀ other, index ≤ other → Untouched before (.elseBody other :: scope)) :
    Links (Stmt.resolveList stmts)
      (fun answer => Stmt.occurrencesOfList scope index answer) scope before
      (Stmt.occurrencesOfList scope index stmts) := by
  induction stmts generalizing index before with
  | nil => exact .pure rfl
  | cons stmt rest ih =>
      obtain ⟨hstmt, hrest⟩ := List.forall_mem_cons.mp h
      obtain ⟨hfirstNamed, hrestNamed⟩ := List.forall_mem_append.mp hnamed
      have hwithin := within_both.2 stmt scope index
      have hfirst := hstmt hfirstNamed (hbody index (by omega)) (helse index (by omega))
      refine hfirst.pair
        (ih hrest hrestNamed (fun other hless => ?_) fun other hless => ?_)
        fun _ _ => rfl
      · refine (hbody other (by omega)).append (hwithin.untouched ?_)
        rintro (hsame | hsame)
        · obtain rfl : other = index := by simpa using hsame
          omega
        · exact absurd hsame nofun
      · refine (helse other (by omega)).append (hwithin.untouched ?_)
        rintro (hsame | hsame)
        · exact absurd hsame nofun
        · obtain rfl : other = index := by simpa using hsame
          omega

theorem Block.links {decls : List Decl} {stmts : List Stmt}
    (hdecls : ∀ decl ∈ decls, decl.Walked) (hstmts : ∀ stmt ∈ stmts, stmt.Walked)
    (hnamed : Named ((Block.mk decls stmts).occurrences scope))
    (hnew : ∀ step, Untouched before (step :: scope)) :
    Links (Block.mk decls stmts).resolve (Block.occurrences scope) scope before
      ((Block.mk decls stmts).occurrences scope) := by
  obtain ⟨hdeclNamed, hstmtNamed⟩ := List.forall_mem_append.mp hnamed
  have hwithin : Within scope (fun step => ∃ other, 0 ≤ other ∧ step = .function other)
      (Decl.occurrencesOfList scope 0 decls) :=
    Decl.within_list (fun decl _ => within_both.1 decl) 0
  have hfirst := Decl.links_list hdecls hdeclNamed fun other _ => hnew (.function other)
  refine hfirst.pair (Stmt.links_list hstmts hstmtNamed ?_ ?_) fun _ _ => rfl
  · exact fun other _ => (hnew (.body other)).append (hwithin.untouched (by simp))
  · exact fun other _ => (hnew (.elseBody other)).append (hwithin.untouched (by simp))

/-- A block in a scope of its own. -/
theorem Block.links_scoped {decls : List Decl} {stmts : List Stmt} {step : ScopeStep}
    (hdecls : ∀ decl ∈ decls, decl.Walked) (hstmts : ∀ stmt ∈ stmts, stmt.Walked)
    (hnamed : Named ((Block.mk decls stmts).occurrences (step :: scope)))
    (hnew : Untouched before (step :: scope)) :
    Links (Resolver.scoped (Block.mk decls stmts).resolve)
      (Block.occurrences (step :: scope)) scope before
      ((Block.mk decls stmts).occurrences (step :: scope)) :=
  Resolves.scoped (bindings_of_untouched hnew)
    (Block.links hdecls hstmts hnamed fun inner => hnew.step inner)

/-- Declaring a function is walking over its heading, and then over its parameters and
its body in a scope of their own. -/
theorem Decl.links_func {result : TypeNode} {id : Ident} {formals : List Formal}
    {decls : List Decl} {stmts : List Stmt} {index : Nat}
    (hdecls : ∀ decl ∈ decls, decl.Walked) (hstmts : ∀ stmt ∈ stmts, stmt.Walked)
    (hnamed : Named
      ((Decl.func result id formals (.mk decls stmts)).occurrences scope index))
    (hnew : Untouched before (.function index :: scope)) :
    Links (Decl.func result id formals (.mk decls stmts)).resolve
      (fun answer => answer.1.occurrences scope index) scope before
      ((Decl.func result id formals (.mk decls stmts)).occurrences scope index) := by
  let inside : ScopePath := .function index :: scope
  let heading : Occurrence := ⟨scope, .function (headingSignature result formals) id⟩
  obtain ⟨hfrontNamed, hbodyNamed⟩ := List.forall_mem_append.mp hnamed
  obtain ⟨hheading, hformalNamed⟩ := List.forall_mem_cons.mp hfrontNamed
  have hnames : ∀ formal ∈ formals, formal.id.name ≠ "" := fun formal hformal =>
    hformalNamed _ (List.mem_map_of_mem hformal) formal.id (by simp [Site.declaring])
  have hfresh : Untouched (before ++ [heading]) inside :=
    hnew.append (untouched_of_scope (by simp [heading]) _)
  let params : List Occurrence := occurrencesOfFormals inside formals
  let body : List Occurrence := (Block.mk decls stmts).occurrences inside
  have hparams : ∀ occurrence ∈ params, occurrence.scope = inside :=
    List.forall_mem_map.mpr fun _ _ => rfl
  have hbody : Links (Block.mk decls stmts).resolve (Block.occurrences inside) inside
      (before ++ [heading] ++ params) body :=
    Block.links hdecls hstmts hbodyNamed fun step =>
      (hfresh.step step).append (untouched_of_scope hparams step)
  have hinner : Resolves (do
        let formals ← Resolver.declareFormals formals
        return (formals, ← (Block.mk decls stmts).resolve))
      (fun inner => inner.1.map Formal.type = formals.map Formal.type ∧
        occurrencesOfFormals inside inner.1 ++ inner.2.occurrences inside =
          linked (before ++ [heading]) (params ++ body))
      inside (before ++ [heading]) (params ++ body) := by
    refine (Resolver.declareFormals_resolves hnames _).bind fun answer hanswer =>
      hbody.last fun block hblock => ⟨hanswer.2, ?_⟩
    rw [linked_append, hanswer.1, hblock]
  rw [Decl.resolve]
  have hname : id.name ≠ "" := hheading id (by simp [Site.declaring])
  refine (Resolver.declareFunction_links result formals hname).bind fun answer hanswer =>
    (Resolves.scoped (bindings_of_untouched hfresh) hinner).last fun inner hinner => ?_
  have hsignature := headingSignature_congr result hinner.1
  calc (Decl.func result answer inner.1 inner.2).occurrences scope index
      = [⟨scope, .function (headingSignature result inner.1) answer⟩]
          ++ (occurrencesOfFormals inside inner.1 ++ inner.2.occurrences inside) := rfl
    _ = linked before [heading] ++ linked (before ++ [heading]) (params ++ body) := by
        rw [hsignature, hinner.2]
        exact congrArg (· ++ _) hanswer
    _ = linked before ([heading] ++ (params ++ body)) :=
        (linked_append before [heading] (params ++ body)).symm

end Walked

theorem Block.plain_mk {decls : List Decl} {stmts : List Stmt}
    (h : (Block.mk decls stmts).hasPlainStructs = true) :
    (∀ decl ∈ decls, decl.hasPlainStructs = true) ∧
      ∀ stmt ∈ stmts, stmt.hasPlainStructs = true := by
  rw [Block.hasPlainStructs, Bool.and_eq_true, Decl.havePlainStructs_eq,
    Stmt.havePlainStructs_eq, List.all_eq_true, List.all_eq_true] at h
  exact h

/-- A body in a scope of its own whose trees are walked over where the fields of their
structs are plain. -/
theorem Block.links_body {decls : List Decl} {stmts : List Stmt} {step : ScopeStep}
    (ihdecls : ∀ decl ∈ decls, decl.hasPlainStructs = true → decl.Walked)
    (ihstmts : ∀ stmt ∈ stmts, stmt.hasPlainStructs = true → stmt.Walked)
    (hplain : (Block.mk decls stmts).hasPlainStructs = true)
    (hnamed : Named ((Block.mk decls stmts).occurrences (step :: scope)))
    (hnew : Untouched before (step :: scope)) :
    Links (Resolver.scoped (Block.mk decls stmts).resolve)
      (Block.occurrences (step :: scope)) scope before
      ((Block.mk decls stmts).occurrences (step :: scope)) := by
  obtain ⟨hdecls, hstmts⟩ := Block.plain_mk hplain
  apply Block.links_scoped
  · exact fun decl hdecl => ihdecls decl hdecl (hdecls decl hdecl)
  · exact fun stmt hstmt => ihstmts stmt hstmt (hstmts stmt hstmt)
  · exact hnamed
  · exact hnew

/-- Every tree whose structs have plain fields is walked over. -/
theorem walked_both :
    (∀ decl : Decl, decl.hasPlainStructs = true → decl.Walked) ∧
    ∀ stmt : Stmt, stmt.hasPlainStructs = true → stmt.Walked := by
  apply Stmt.inductBoth
  case var =>
    intro type id _ scope index before hnamed _
    rw [Decl.resolve]
    refine (Resolver.declareVariable_links .variable type ?_).one fun _ => rfl
    exact hnamed _ (List.mem_singleton.mpr rfl) id (by simp [Site.declaring])
  case func =>
    intro result id formals decls stmts ihdecls ihstmts hplain scope index before hnamed
      hnew
    obtain ⟨hdecls, hstmts⟩ := Block.plain_mk hplain
    exact Decl.links_func (fun decl hdecl => ihdecls decl hdecl (hdecls decl hdecl))
      (fun stmt hstmt => ihstmts stmt hstmt (hstmts stmt hstmt)) hnamed hnew
  case struct =>
    intro id fields _ hplain scope index before hnamed _
    obtain ⟨formals, rfl⟩ : ∃ formals, fields = List.map Formal.asDecl formals :=
      ⟨_, eq_map_asDecl hplain⟩
    rw [Decl.occurrences, filterMap_asDecl] at hnamed ⊢
    obtain ⟨hname, hnames⟩ :=
      List.forall_mem_cons.mp (hnamed _ (List.mem_singleton.mpr rfl))
    exact Decl.links_struct hname
      (fun field hfield => hnames field.id (List.mem_map_of_mem hfield)) index
  case assign =>
    intro expr _ scope index before _ _ _
    rw [Stmt.resolve]
    exact (expr.links scope before).one fun _ => rfl
  case inc =>
    intro loc _ scope index before _ _ _
    rw [Stmt.resolve]
    exact (loc.links scope before).one fun _ => rfl
  case dec =>
    intro loc _ scope index before _ _ _
    rw [Stmt.resolve]
    exact (loc.links scope before).one fun _ => rfl
  case read =>
    intro loc _ scope index before _ _ _
    rw [Stmt.resolve]
    exact (loc.links scope before).one fun _ => rfl
  case write =>
    intro expr _ scope index before _ _ _
    rw [Stmt.resolve]
    exact (expr.links scope before).one fun _ => rfl
  case ifThen =>
    intro cond decls stmts ihdecls ihstmts hplain scope index before hnamed hnew _
    have hbody := Block.links_body ihdecls ihstmts hplain
      (List.forall_mem_append.mp hnamed).2
      (hnew.append (untouched_uses scope cond.uses _))
    rw [Stmt.resolve]
    exact (cond.links scope before).pair hbody fun _ _ => rfl
  case ifElse =>
    intro cond decls stmts decls' stmts' ihdecls ihstmts ihdecls' ihstmts' hplain scope
      index before hnamed hnew hnew'
    obtain ⟨hthenPlain, helsePlain⟩ := Bool.and_eq_true_iff.mp hplain
    obtain ⟨hfrontNamed, helseNamed⟩ := List.forall_mem_append.mp hnamed
    have hthen := Block.links_body ihdecls ihstmts hthenPlain
      (List.forall_mem_append.mp hfrontNamed).2
      (hnew.append (untouched_uses scope cond.uses _))
    have hwithin : Within scope (· = .body index)
        ((Block.mk decls stmts).occurrences (.body index :: scope)) :=
      (Block.within (fun decl _ => within_both.1 decl)
        fun stmt _ => within_both.2 stmt).outside rfl
    have helse := Block.links_body ihdecls' ihstmts' helsePlain helseNamed
      ((hnew'.append (untouched_uses scope cond.uses _)).append
        (hwithin.untouched (by simp)))
    rw [Stmt.resolve, Stmt.occurrences, List.append_assoc]
    refine (cond.links scope before).bind fun answer hanswer =>
      Resolves.bind hthen fun first hfirst => helse.last fun last hlast => ?_
    simp only [Stmt.occurrences] at hanswer hfirst hlast ⊢
    rw [hanswer, hfirst, hlast, List.append_assoc, linked_append, linked_append]
  case while_ =>
    intro cond decls stmts ihdecls ihstmts hplain scope index before hnamed hnew _
    have hbody := Block.links_body ihdecls ihstmts hplain
      (List.forall_mem_append.mp hnamed).2
      (hnew.append (untouched_uses scope cond.uses _))
    rw [Stmt.resolve]
    exact (cond.links scope before).pair hbody fun _ _ => rfl
  case call =>
    intro callee args _ scope index before _ _ _
    rw [Stmt.resolve, Stmt.occurrences, ← List.singleton_append,
      occurrencesOfUses_append]
    refine (callee.links scope before).pair
      (Expr.links_list (fun arg _ => arg.links scope) _) fun answer other => ?_
    rw [Stmt.occurrences, ← List.singleton_append, occurrencesOfUses_append]
  case ret =>
    intro value _ scope index before _ _ _
    cases value with
    | none => exact .pure rfl
    | some value =>
        rw [Stmt.resolve]
        exact (value.links scope before).one fun _ => rfl

def Program.hasPlainStructs (program : Program) : Bool :=
  program.decls.all Decl.hasPlainStructs

/-- Resolving a program links the names of its occurrences and reports their errors. -/
theorem Program.resolve_walks {program : Program}
    (hplain : program.hasPlainStructs = true) (hnamed : Named program.occurrences) :
    program.resolve.program.occurrences = linked [] program.occurrences ∧
    program.resolve.errors = errorsAfter program.occurrences ∧
    program.resolve.outcome = .ok ⟨registryAfter program.occurrences,
      (Walk.after program.occurrences []).table.innermostSymbols,
      (errorsAfter program.occurrences).length⟩ := by
  have hwalked : ∀ decl ∈ program.decls, decl.Walked := fun decl hdecl =>
    walked_both.1 decl (List.all_eq_true.mp hplain decl hdecl)
  have hlinks : Links (Decl.resolveList program.decls)
      (fun answer => Decl.occurrencesOfList [] 0 answer.1) [] [] program.occurrences :=
    Decl.links_list hwalked hnamed fun _ _ => List.forall_mem_nil _
  obtain ⟨answer, hrun, hanswer⟩ := hlinks
  rw [Walk.after_nil, List.nil_append] at hrun
  rw [Program.resolve, hrun]
  exact ⟨hanswer, rfl, rfl⟩

end MiniLang
