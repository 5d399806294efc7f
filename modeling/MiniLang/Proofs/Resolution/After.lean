/-
A walk behind occurrences. The scopes that are open, the struct types and the errors
are told by what was walked over, so a step is described by the occurrences that it
walks over and by the tree that it answers.
-/
import MiniLang.Proofs.Resolution.Frames
import MiniLang.Tree.Induction

namespace MiniLang

variable {α β : Type}

/-- The frames of the scopes around a scope, behind some occurrences. -/
def outerAfter (occurrences : List Occurrence) (scope : ScopePath) : List Frame :=
  (enclosing scope).map fun around => frameOf (bindings occurrences around)

/-- The struct types that were registered by some occurrences. -/
def registryAfter (occurrences : List Occurrence) : StructRegistry :=
  ⟨inOrder (fun before occurrence => occurrence.structs before) [] occurrences⟩

def errorsAfter (occurrences : List Occurrence) : List NameError :=
  inOrder (fun before occurrence => occurrence.errors before) [] occurrences

/-- A walk in a scope, behind some occurrences. -/
def Walk.after (occurrences : List Occurrence) (scope : ScopePath) : Walk :=
  .offered (bindings occurrences scope) (outerAfter occurrences scope)
    (registryAfter occurrences) (errorsAfter occurrences)

theorem Walk.after_nil : Walk.after [] [] = Walk.start := rfl

theorem length_lt_of_mem_enclosing {around scope : ScopePath}
    (h : around ∈ enclosing scope) : around.length < scope.length := by
  induction scope with
  | nil => exact absurd h List.not_mem_nil
  | cons step outer ih =>
      rw [List.length_cons]
      rcases List.mem_cons.mp h with rfl | hmore
      · omega
      · have hless := ih hmore
        omega

theorem outerAfter_append_singleton (before : List Occurrence) (occurrence : Occurrence) :
    outerAfter (before ++ [occurrence]) occurrence.scope =
      outerAfter before occurrence.scope := by
  refine List.map_congr_left fun around haround => ?_
  have hless := length_lt_of_mem_enclosing haround
  have hne : occurrence.scope ≠ around := by
    rintro rfl
    omega
  rw [bindings_append_singleton, if_neg hne, List.append_nil]

/-- A walk over one more occurrence offers its symbols to the scope. -/
theorem Walk.after_append_singleton (before : List Occurrence) (occurrence : Occurrence) :
    Walk.after (before ++ [occurrence]) occurrence.scope =
      .offered (bindings before occurrence.scope ++ occurrence.symbols before)
        (outerAfter before occurrence.scope)
        ⟨(registryAfter before).entries ++ occurrence.structs before⟩
        (errorsAfter before ++ occurrence.errors before) := by
  rw [Walk.after, bindings_append_singleton, if_pos rfl, outerAfter_append_singleton,
    registryAfter, inOrder_append, errorsAfter, inOrder_append, List.nil_append,
    inOrder_singleton, inOrder_singleton, registryAfter, errorsAfter]

theorem Walk.lookup_after (before : List Occurrence) (scope : ScopePath)
    (name : String) :
    (Walk.after before scope).table.lookup name = visible before scope name := by
  have hframes : (Walk.after before scope).table.frames =
      (scope :: enclosing scope).map fun around => frameOf (bindings before around) := rfl
  rw [SymbolTable.lookup, hframes, List.findSome?_map, visible]
  congr 1
  funext around
  exact lookup_frameOf name (bindings before around)

/-- Whether a step in a scope walks over some occurrences. -/
def Resolves (step : Resolver α) (post : α → Prop) (scope : ScopePath)
    (before occurrences : List Occurrence) : Prop :=
  ∃ answer, step.run (.after before scope) =
    (answer, .after (before ++ occurrences) scope) ∧ post answer

section Resolves

variable {step : Resolver α} {post : α → Prop} {post' : β → Prop} {scope : ScopePath}
  {before occurrences : List Occurrence}

theorem Resolves.pure {answer : α} (h : post answer) :
    Resolves (pure answer) post scope before [] :=
  ⟨answer, by rw [List.append_nil]; rfl, h⟩

theorem Resolves.bind {next : α → Resolver β} {more : List Occurrence}
    (h : Resolves step post scope before occurrences)
    (hnext : ∀ answer, post answer →
      Resolves (next answer) post' scope (before ++ occurrences) more) :
    Resolves (step >>= next) post' scope before (occurrences ++ more) := by
  obtain ⟨answer, hstep, hpost⟩ := h
  obtain ⟨last, hlast, hpost'⟩ := hnext answer hpost
  rw [List.append_assoc] at hlast
  exact ⟨last, (Resolver.run_bind hstep).trans hlast, hpost'⟩

theorem Resolves.last {answerOf : α → β}
    (h : Resolves step post scope before occurrences)
    (hpost : ∀ answer, post answer → post' (answerOf answer)) :
    Resolves (step >>= fun answer => Pure.pure (answerOf answer)) post' scope before
      occurrences := by
  have hpure : ∀ answer, post answer →
      Resolves (Pure.pure (answerOf answer)) post' scope (before ++ occurrences) [] :=
    fun answer hanswer => .pure (hpost answer hanswer)
  have hbind := h.bind hpure
  rwa [List.append_nil] at hbind

/-- A step in a scope of its own leaves the scopes around it as they are. -/
theorem Resolves.scoped {inner : ScopeStep}
    (hnew : bindings before (inner :: scope) = [])
    (h : Resolves step post (inner :: scope) before occurrences) :
    Resolves (Resolver.scoped step) post scope before occurrences := by
  obtain ⟨answer, hstep, hpost⟩ := h
  have hpush : (modify fun walk => { walk with table := walk.table.push } :
      Resolver Unit).run (.after before scope) = ((), .after before (inner :: scope)) := by
    rw [Walk.after, Walk.after, hnew]
    rfl
  refine ⟨answer, ?_, hpost⟩
  rw [Resolver.scoped, Resolver.run_bind hpush, Resolver.run_bind hstep]
  rfl

end Resolves

/-- Whether a step walks over some occurrences and answers a tree with their names
linked. -/
def Links (step : Resolver α) (occurrencesOf : α → List Occurrence) (scope : ScopePath)
    (before occurrences : List Occurrence) : Prop :=
  Resolves step (fun answer => occurrencesOf answer = linked before occurrences) scope
    before occurrences

section Links

variable {γ : Type} {first : Resolver α} {second : Resolver β}
  {firstOf : α → List Occurrence} {secondOf : β → List Occurrence}
  {bothOf : γ → List Occurrence} {scope : ScopePath}
  {before front back : List Occurrence}

theorem Links.pure {answer : α} (h : firstOf answer = []) :
    Links (Pure.pure answer) firstOf scope before [] := Resolves.pure h

theorem Links.one {answerOf : α → γ} (h : Links first firstOf scope before front)
    (hof : ∀ answer, bothOf (answerOf answer) = firstOf answer) :
    Links (first >>= fun answer => Pure.pure (answerOf answer)) bothOf scope before
      front :=
  h.last fun answer hanswer => (hof answer).trans hanswer

/-- Two trees behind each other make up a tree. -/
theorem Links.pair {answerOf : α → β → γ} (h : Links first firstOf scope before front)
    (hmore : Links second secondOf scope (before ++ front) back)
    (hof : ∀ answer other,
      bothOf (answerOf answer other) = firstOf answer ++ secondOf other) :
    Links (do
      let answer ← first
      let other ← second
      return answerOf answer other) bothOf scope before (front ++ back) := by
  refine Resolves.bind h fun answer hanswer => hmore.last fun other hother => ?_
  rw [hof, hanswer, hother, linked_append]

end Links

theorem Resolver.run_get {next : Walk → Resolver α} {walk : Walk} :
    (get >>= next).run walk = (next walk).run walk := rfl

/-- Linking a name is walking over its use. -/
theorem Ident.links (id : Ident) (scope : ScopePath) (before : List Occurrence) :
    Links id.resolve (fun answer => occurrencesOfUses scope [answer]) scope before
      (occurrencesOfUses scope [id]) := by
  have hafter : Walk.after (before ++ [⟨scope, .use id⟩]) scope = _ :=
    Walk.after_append_singleton before ⟨scope, .use id⟩
  simp only [Occurrence.symbols, Occurrence.structs, Occurrence.errors,
    Occurrence.faults, clashes, inOrder_nil, List.append_nil] at hafter
  refine ⟨id.linkTo (visible before scope id.name), ?_, rfl⟩
  rw [occurrencesOfUses, List.map_cons, List.map_nil, hafter, Ident.resolve,
    Resolver.run_unlessHalted _ _ rfl, Resolver.run_get, Walk.lookup_after]
  have hreport := Resolver.report_offered (bindings before scope)
    (outerAfter before scope) (registryAfter before) (errorsAfter before)
    .undeclaredIdentifier id.name id.span
  cases visible before scope id.name with
  | none => exact Resolver.run_bind hreport
  | some symbol =>
      rw [List.append_nil]
      rfl

theorem Expr.links_list {exprs : List Expr} {scope : ScopePath}
    (h : ∀ expr ∈ exprs, ∀ before, Links expr.resolve
      (fun answer => occurrencesOfUses scope answer.uses) scope before
      (occurrencesOfUses scope expr.uses)) (before : List Occurrence) :
    Links (Expr.resolveList exprs)
      (fun answer => occurrencesOfUses scope (answer.flatMap Expr.uses)) scope before
      (occurrencesOfUses scope (exprs.flatMap Expr.uses)) := by
  induction exprs generalizing before with
  | nil => exact .pure rfl
  | cons expr rest ih =>
      obtain ⟨hexpr, hrest⟩ := List.forall_mem_cons.mp h
      rw [Expr.resolveList, List.flatMap_cons, occurrencesOfUses_append]
      refine (hexpr before).pair (ih hrest _) fun answer other => ?_
      rw [List.flatMap_cons, occurrencesOfUses_append]

/-- Linking the names in an expression is walking over their uses. -/
theorem Expr.links (expr : Expr) (scope : ScopePath) (before : List Occurrence) :
    Links expr.resolve (fun answer => occurrencesOfUses scope answer.uses) scope before
      (occurrencesOfUses scope expr.uses) := by
  induction expr using Expr.induct generalizing before with
  | int span value => exact .pure rfl
  | str span text => exact .pure rfl
  | bool span value => exact .pure rfl
  | name id =>
      rw [Expr.resolve]
      exact (id.links scope before).one fun _ => rfl
  | dot loc field ih =>
      rw [Expr.resolve, Expr.uses, occurrencesOfUses_append]
      refine (ih before).pair (field.links scope _) fun answer other => ?_
      rw [Expr.uses, occurrencesOfUses_append]
  | assign lhs rhs ihlhs ihrhs =>
      rw [Expr.resolve, Expr.uses, occurrencesOfUses_append]
      refine (ihlhs before).pair (ihrhs _) fun answer other => ?_
      rw [Expr.uses, occurrencesOfUses_append]
  | call callee args ih =>
      rw [Expr.resolve, Expr.uses, Expr.usesOfList_eq, ← List.singleton_append,
        occurrencesOfUses_append]
      refine (callee.links scope before).pair (Expr.links_list ih _)
        fun answer other => ?_
      rw [Expr.uses, Expr.usesOfList_eq, ← List.singleton_append,
        occurrencesOfUses_append]
  | unary op operand ih =>
      rw [Expr.resolve]
      exact (ih before).one fun _ => rfl
  | binary op lhs rhs ihlhs ihrhs =>
      rw [Expr.resolve, Expr.uses, occurrencesOfUses_append]
      refine (ihlhs before).pair (ihrhs _) fun answer other => ?_
      rw [Expr.uses, occurrencesOfUses_append]

end MiniLang
