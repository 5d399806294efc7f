/-
Where the occurrences of a tree stand: in its scope or in one of the scopes that it
opens there. A scope that is opened was not open before, so nothing is bound in it.
-/
import MiniLang.Proofs.Resolution.Frames
import MiniLang.Tree.Induction

namespace MiniLang

/-- Whether no occurrence stands in a scope or inside of it. -/
def Untouched (occurrences : List Occurrence) (scope : ScopePath) : Prop :=
  ∀ occurrence ∈ occurrences, ¬ scope <:+ occurrence.scope

/-- Whether occurrences stand in a scope, or inside a scope that one of the given steps
leads into. -/
def Within (scope : ScopePath) (steps : ScopeStep → Prop)
    (occurrences : List Occurrence) : Prop :=
  ∀ occurrence ∈ occurrences, occurrence.scope = scope ∨
    ∃ step, steps step ∧ (step :: scope) <:+ occurrence.scope

theorem bindings_of_untouched {occurrences : List Occurrence} {scope : ScopePath}
    (h : Untouched occurrences scope) : bindings occurrences scope = [] := by
  induction occurrences using List.reverseRecOn with
  | nil => rfl
  | append_singleton before occurrence ih =>
      obtain ⟨hbefore, hlast⟩ := List.forall_mem_append.mp h
      have hne : occurrence.scope ≠ scope := by
        rintro rfl
        exact hlast occurrence (by simp) List.suffix_rfl
      rw [bindings_append_singleton, ih hbefore, if_neg hne, List.append_nil]

theorem Untouched.step {occurrences : List Occurrence} {scope : ScopePath}
    (h : Untouched occurrences scope) (step : ScopeStep) :
    Untouched occurrences (step :: scope) :=
  fun occurrence hoccurrence hsuffix =>
    h occurrence hoccurrence ((List.suffix_cons step scope).trans hsuffix)

theorem Untouched.append {front back : List Occurrence} {scope : ScopePath}
    (hfront : Untouched front scope) (hback : Untouched back scope) :
    Untouched (front ++ back) scope := List.forall_mem_append.mpr ⟨hfront, hback⟩

section Within

variable {scope : ScopePath} {steps more : ScopeStep → Prop}
  {occurrences back : List Occurrence}

theorem Within.nil : Within scope steps [] := List.forall_mem_nil _

theorem Within.append (h : Within scope steps occurrences)
    (hback : Within scope steps back) :
    Within scope steps (occurrences ++ back) := List.forall_mem_append.mpr ⟨h, hback⟩

theorem Within.mono (h : Within scope steps occurrences)
    (hsteps : ∀ step, steps step → more step) : Within scope more occurrences := by
  intro occurrence hoccurrence
  rcases h occurrence hoccurrence with hscope | ⟨step, hstep, hsuffix⟩
  · exact .inl hscope
  · exact .inr ⟨step, hsteps step hstep, hsuffix⟩

theorem within_of_scope (h : ∀ occurrence ∈ occurrences, occurrence.scope = scope) :
    Within scope steps occurrences :=
  fun occurrence hoccurrence => .inl (h occurrence hoccurrence)

theorem within_uses (ids : List Ident) :
    Within scope steps (occurrencesOfUses scope ids) :=
  within_of_scope (List.forall_mem_map.mpr fun _ _ => rfl)

/-- What stands within a scope that a step leads into stands within the scope around. -/
theorem Within.outside {step : ScopeStep} (h : Within (step :: scope) more occurrences)
    (hstep : steps step) : Within scope steps occurrences := by
  intro occurrence hoccurrence
  refine .inr ⟨step, hstep, ?_⟩
  rcases h occurrence hoccurrence with hscope | ⟨inner, _, hsuffix⟩
  · exact hscope ▸ List.suffix_rfl
  · exact (List.suffix_cons inner (step :: scope)).trans hsuffix

/-- Occurrences do not touch the scopes that no step of theirs leads into. -/
theorem Within.untouched (h : Within scope steps occurrences) {step : ScopeStep}
    (hstep : ¬ steps step) : Untouched occurrences (step :: scope) := by
  intro occurrence hoccurrence hsuffix
  rcases h occurrence hoccurrence with hscope | ⟨other, hother, hsuffix'⟩
  · rw [hscope] at hsuffix
    have hlength := hsuffix.length_le
    rw [List.length_cons] at hlength
    omega
  · have hsame : step :: scope = other :: scope :=
      (List.suffix_of_suffix_length_le hsuffix hsuffix' (by simp)).eq_of_length (by simp)
    obtain ⟨rfl, _⟩ := List.cons.inj hsame
    exact hstep hother

end Within

theorem untouched_of_scope {occurrences : List Occurrence} {scope : ScopePath}
    (h : ∀ occurrence ∈ occurrences, occurrence.scope = scope) (step : ScopeStep) :
    Untouched occurrences (step :: scope) := by
  have hwithin : Within scope (fun _ => False) occurrences := within_of_scope h
  exact hwithin.untouched not_false

theorem untouched_uses (scope : ScopePath) (ids : List Ident) (step : ScopeStep) :
    Untouched (occurrencesOfUses scope ids) (step :: scope) :=
  untouched_of_scope (by simp [occurrencesOfUses]) step

theorem Decl.within_list {decls : List Decl} {scope : ScopePath}
    (h : ∀ decl ∈ decls, ∀ scope index,
      Within scope (· = .function index) (decl.occurrences scope index)) (index : Nat) :
    Within scope (fun step => ∃ other, index ≤ other ∧ step = .function other)
      (Decl.occurrencesOfList scope index decls) := by
  induction decls generalizing index with
  | nil => exact .nil
  | cons decl rest ih =>
      obtain ⟨hdecl, hrest⟩ := List.forall_mem_cons.mp h
      refine ((hdecl scope index).mono ?_).append ((ih hrest (index + 1)).mono ?_)
      · rintro _ rfl
        exact ⟨index, by omega, rfl⟩
      · rintro _ ⟨other, hless, rfl⟩
        exact ⟨other, by omega, rfl⟩

theorem Stmt.within_list {stmts : List Stmt} {scope : ScopePath}
    (h : ∀ stmt ∈ stmts, ∀ scope index,
      Within scope (fun step => step = .body index ∨ step = .elseBody index)
        (stmt.occurrences scope index)) (index : Nat) :
    Within scope (fun step => ∃ other, index ≤ other ∧
        (step = .body other ∨ step = .elseBody other))
      (Stmt.occurrencesOfList scope index stmts) := by
  induction stmts generalizing index with
  | nil => exact .nil
  | cons stmt rest ih =>
      obtain ⟨hstmt, hrest⟩ := List.forall_mem_cons.mp h
      refine ((hstmt scope index).mono ?_).append ((ih hrest (index + 1)).mono ?_)
      · intro step hstep
        exact ⟨index, by omega, hstep⟩
      · rintro _ ⟨other, hless, hstep⟩
        exact ⟨other, by omega, hstep⟩

/-- The occurrences of a block stand in its scope or inside of it. -/
theorem Block.within {decls : List Decl} {stmts : List Stmt} {scope : ScopePath}
    (hdecls : ∀ decl ∈ decls, ∀ scope index,
      Within scope (· = .function index) (decl.occurrences scope index))
    (hstmts : ∀ stmt ∈ stmts, ∀ scope index,
      Within scope (fun step => step = .body index ∨ step = .elseBody index)
        (stmt.occurrences scope index)) :
    Within scope (fun _ => True) ((Block.mk decls stmts).occurrences scope) :=
  ((Decl.within_list hdecls 0).mono fun _ _ => trivial).append
    ((Stmt.within_list hstmts 0).mono fun _ _ => trivial)

/-- A declaration opens the scope of its function only, and a statement those of its
bodies. -/
theorem within_both :
    (∀ decl : Decl, ∀ scope index,
      Within scope (· = .function index) (decl.occurrences scope index)) ∧
    ∀ stmt : Stmt, ∀ scope index,
      Within scope (fun step => step = .body index ∨ step = .elseBody index)
        (stmt.occurrences scope index) := by
  apply Stmt.inductBoth
  case var =>
    exact fun type id scope index => within_of_scope (by simp [Decl.occurrences])
  case func =>
    intro result id formals decls stmts ihdecls ihstmts scope index
    have hformals : Within (.function index :: scope) (fun _ => True)
        (occurrencesOfFormals (.function index :: scope) formals) :=
      within_of_scope (List.forall_mem_map.mpr fun _ _ => rfl)
    have hbody : Within (.function index :: scope) (fun _ => True)
        ((Block.mk decls stmts).occurrences (.function index :: scope)) :=
      Block.within ihdecls ihstmts
    rw [Decl.occurrences]
    exact Within.append (List.forall_mem_cons.mpr ⟨.inl rfl, hformals.outside rfl⟩)
      (hbody.outside rfl)
  case struct =>
    exact fun id fields _ scope index => within_of_scope (by simp [Decl.occurrences])
  case assign =>
    intro expr scope index
    rw [Stmt.occurrences]
    exact within_uses expr.uses
  case inc =>
    intro loc scope index
    rw [Stmt.occurrences]
    exact within_uses loc.uses
  case dec =>
    intro loc scope index
    rw [Stmt.occurrences]
    exact within_uses loc.uses
  case read =>
    intro loc scope index
    rw [Stmt.occurrences]
    exact within_uses loc.uses
  case write =>
    intro expr scope index
    rw [Stmt.occurrences]
    exact within_uses expr.uses
  case ifThen =>
    intro cond decls stmts ihdecls ihstmts scope index
    rw [Stmt.occurrences]
    exact (within_uses cond.uses).append
      ((Block.within ihdecls ihstmts).outside (.inl rfl))
  case ifElse =>
    intro cond decls stmts decls' stmts' ihdecls ihstmts ihdecls' ihstmts' scope index
    rw [Stmt.occurrences]
    exact ((within_uses cond.uses).append
      ((Block.within ihdecls ihstmts).outside (.inl rfl))).append
        ((Block.within ihdecls' ihstmts').outside (.inr rfl))
  case while_ =>
    intro cond decls stmts ihdecls ihstmts scope index
    rw [Stmt.occurrences]
    exact (within_uses cond.uses).append
      ((Block.within ihdecls ihstmts).outside (.inl rfl))
  case call =>
    intro callee args scope index
    rw [Stmt.occurrences]
    exact within_uses (callee :: args.flatMap Expr.uses)
  case ret =>
    intro value scope index
    cases value with
    | none => exact .nil
    | some value =>
        rw [Stmt.occurrences]
        exact within_uses value.uses

end MiniLang
