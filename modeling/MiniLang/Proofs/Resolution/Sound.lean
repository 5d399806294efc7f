/-
What holds of a walk that goes on: its scopes are open, they bind the symbols of declared
names under their own names, and a struct is refused when it is rejected by the visits
behind the walk. A step keeps to this, unless it comes to a name that halts the walk; a
walk that has halted rests.
-/
import MiniLang.Proofs.Resolution.Discipline
import MiniLang.Proofs.Resolution.Visits
import Mathlib.Data.List.Forall2

namespace MiniLang

variable {α β : Type}

/-- The symbols of the names that are declared. -/
def symbolsOf (visits : List Visit) : List Symbol := visits.filterMap Visit.symbol?

/-- Whether every error of a walk is about a name that is visited. -/
def Walk.Blames (all : List Visit) (walk : Walk) : Prop :=
  ∀ error ∈ walk.errors, ∃ visit ∈ all,
    error.name = visit.id.name ∧ error.span = visit.id.span

/-- What holds of a walk that has not halted: `before` are the visits behind it, and `all`
those of the whole program. -/
structure Walk.Sound (all before : List Visit) (walk : Walk) : Prop where
  going : walk.halted = none
  opened : walk.table.frames ≠ []
  bound : ∀ frame ∈ walk.table.frames, ∀ entry ∈ frame,
    entry.1 ≠ "" ∧ entry.2.name = entry.1 ∧ entry.2 ∈ symbolsOf all
  refused : ∀ name, (walk.structs.refusal? name).isSome = rejectsStruct before name
  nameless : rejectsStruct before "" = false
  blames : walk.Blames all

/-- Where a walk stands behind some visits: it has halted if a name halts it, and goes on
otherwise. -/
inductive Walk.After (all before visits : List Visit) (walk : Walk) : Prop where
  | halted (hhalts : visits.any Visit.halts = true)
      (hhalted : walk.halted = some .absentName) (hblames : walk.Blames all)
  | going (hnone : visits.any Visit.halts = false)
      (hsound : walk.Sound all (before ++ visits))

/-- Whether a step does nothing in a walk that has halted. -/
def Resolver.Rests (step : Resolver α) (post : α → Prop) : Prop :=
  ∀ walk : Walk, walk.halted.isSome = true →
    (step.run walk).2 = walk ∧ post (step.run walk).1

/-- Whether a step makes some visits in a walk that goes on. -/
def Resolver.Goes (all before : List Visit) (step : Resolver α) (visits : List Visit)
    (post : α → Prop) : Prop :=
  visits ⊆ all → ∀ walk : Walk, walk.Sound all before →
    (step.run walk).2.After all before visits ∧ post (step.run walk).1

/-- Whether a step makes some visits, unless the walk has halted. -/
structure Resolver.Visits (all before : List Visit) (step : Resolver α)
    (visits : List Visit) (post : α → Prop) : Prop where
  rests : Resolver.Rests step post
  goes : Resolver.Goes all before step visits post

theorem rejectsStruct_append_declared {kind : SymbolKind} (hkind : kind ≠ .struct)
    (before : List Visit) (id : Ident) (name : String) :
    rejectsStruct (before ++ [.declared id kind]) name = rejectsStruct before name := by
  have hnone : Visit.isStructNamed name (.declared id kind) = false := by
    cases kind with
    | struct => exact absurd rfl hkind
    | _ => rfl
  rw [rejectsStruct, List.any_append, List.any_cons, hnone, List.any_nil, Bool.or_false,
    Bool.or_false, rejectsStruct]

theorem rejectsStruct_append_struct (before : List Visit) (id : Ident) (name : String) :
    rejectsStruct (before ++ [.declared id .struct]) name =
      (rejectsStruct before name || id.name == name) := by
  rw [rejectsStruct, List.any_append, ← Bool.or_assoc, ← rejectsStruct, List.any_cons,
    List.any_nil, Bool.or_false]
  rfl

section Sound

variable {all before visits : List Visit} {walk : Walk}

/-- Of a sound walk, nothing but its errors and its scopes may change. -/
theorem Walk.Sound.passing (h : walk.Sound all before) (hvisits : Passive visits) :
    walk.Sound all (before ++ visits) where
  going := h.going
  opened := h.opened
  bound := h.bound
  refused name := (h.refused name).trans (hvisits.rejects before name).symm
  nameless := (hvisits.rejects before "").trans h.nameless
  blames := h.blames

theorem Walk.Sound.declared (h : walk.Sound all before) {kind : SymbolKind}
    (hkind : kind ≠ .struct) (id : Ident) :
    walk.Sound all (before ++ [.declared id kind]) where
  going := h.going
  opened := h.opened
  bound := h.bound
  refused name :=
    (h.refused name).trans (rejectsStruct_append_declared hkind before id name).symm
  nameless := (rejectsStruct_append_declared hkind before id "").trans h.nameless
  blames := h.blames

/-- A struct that is rejected changes nothing for the structs behind it. -/
theorem Walk.Sound.rejected (h : walk.Sound all before) {id : Ident}
    (hrejected : rejectsStruct before id.name = true) :
    walk.Sound all (before ++ [.declared id .struct]) := by
  have hsame (name : String) :
      rejectsStruct (before ++ [.declared id .struct]) name =
        rejectsStruct before name := by
    rw [rejectsStruct_append_struct]
    by_cases hname : id.name = name
    · rw [← hname, hrejected, Bool.true_or]
    · rw [beq_eq_false_iff_ne.mpr hname, Bool.or_false]
  exact {
    going := h.going
    opened := h.opened
    bound := h.bound
    refused := fun name => (h.refused name).trans (hsame name).symm
    nameless := (hsame "").trans h.nameless
    blames := h.blames }

/-- An error at a visited name is reported. -/
theorem Walk.Sound.report (h : walk.Sound all before) {visit : Visit} (hvisit : visit ∈ all)
    (fault : NameFault) {name : String} {span : Span} (hname : name = visit.id.name)
    (hspan : span = visit.id.span) :
    ((Resolver.report fault name span).run walk).2.Sound all before where
  going := h.going
  opened := h.opened
  bound := h.bound
  refused := h.refused
  nameless := h.nameless
  blames := by
    refine List.forall_mem_append.mpr ⟨h.blames, ?_⟩
    exact List.forall_mem_singleton.mpr ⟨visit, hvisit, hname, hspan⟩

/-- A new scope declares nothing. -/
theorem Walk.Sound.openScope (h : walk.Sound all before) : walk.opened.Sound all before :=
  { h with
    opened := List.cons_ne_nil _ _
    bound := List.forall_mem_cons.mpr ⟨List.forall_mem_nil _, h.bound⟩ }

/-- A new table declares nothing. -/
theorem Walk.Sound.newTable (h : walk.Sound all before) :
    Walk.Sound all before { walk with table := .new } :=
  { h with
    opened := List.cons_ne_nil _ _
    bound := List.forall_mem_singleton.mpr (List.forall_mem_nil _) }

theorem mem_symbolsOf {symbol : Symbol} (h : symbol ∈ symbolsOf all) :
    ∃ visit ∈ all, symbol.name = visit.id.name ∧ symbol.span = visit.id.span := by
  obtain ⟨visit, hvisit, hsymbol⟩ := List.mem_filterMap.mp h
  cases visit with
  | declared id kind =>
      obtain rfl := Option.some.inj hsymbol
      exact ⟨_, hvisit, rfl, rfl⟩
  | _ => cases hsymbol

theorem forall_mem_none {α : Type} (post : α → Prop) :
    ∀ answer ∈ (none : Option α), post answer :=
  fun _ hmem => absurd hmem (Option.not_mem_none _)

theorem mem_of_lookup {frame : Frame} {name : String} {symbol : Symbol}
    (h : frame.lookup name = some symbol) : (name, symbol) ∈ frame := by
  obtain ⟨front, back, hframe, _⟩ := List.lookup_eq_some_iff.mp h
  rw [hframe]
  exact List.mem_append_right front List.mem_cons_self

/-- What is found under a name has the name. -/
theorem Walk.Sound.lookup (h : walk.Sound all before) {name : String} {symbol : Symbol}
    (hfound : walk.table.lookup name = some symbol) :
    symbol.name = name ∧ symbol ∈ symbolsOf all := by
  obtain ⟨frame, hframe, hlookup⟩ := List.exists_of_findSome?_eq_some hfound
  exact (h.bound frame hframe _ (mem_of_lookup hlookup)).2

/-- A symbol without a name is not declared: the walk halts. -/
theorem Walk.Sound.declare_nameless (h : walk.Sound all before) {symbol : Symbol}
    (hname : symbol.name = "") :
    (Resolver.declare symbol).run walk =
      (none, { walk with halted := some .absentName }) := by
  obtain ⟨⟨frames⟩, structs, errors, reported, halted⟩ := walk
  obtain ⟨frame, outer, rfl⟩ := List.exists_cons_of_ne_nil h.opened
  have hfree : frame.lookup "" = none := by
    by_contra hfound
    obtain ⟨other, hother⟩ := Option.ne_none_iff_exists'.mp hfound
    exact (h.bound frame List.mem_cons_self _ (mem_of_lookup hother)).1 rfl
  rw [Resolver.declare, Resolver.run_get]
  simp only [SymbolTable.lookupInnermost, SymbolTable.declare, hname, hfree, true_or,
    if_true]
  rfl

/-- A symbol with a name is declared, or an error is reported at it. -/
theorem Walk.Sound.declare (h : walk.Sound all before) {symbol : Symbol}
    (hsymbol : symbol ∈ symbolsOf all) (hname : symbol.name ≠ "") :
    ((Resolver.declare symbol).run walk).2.Sound all before ∧
      ∀ found ∈ ((Resolver.declare symbol).run walk).1, found = symbol := by
  obtain ⟨visit, hvisit, hvisitName, hvisitSpan⟩ := mem_symbolsOf hsymbol
  have hreport := h.report hvisit .duplicateDeclaration hvisitName hvisitSpan
  obtain ⟨⟨frames⟩, structs, errors, reported, halted⟩ := walk
  obtain ⟨frame, outer, rfl⟩ := List.exists_cons_of_ne_nil h.opened
  rw [Resolver.declare, Resolver.run_get]
  cases htaken : frame.lookup symbol.name with
  | some other =>
      simp only [SymbolTable.lookupInnermost, htaken]
      exact ⟨hreport, forall_mem_none _⟩
  | none =>
      simp only [SymbolTable.lookupInnermost, SymbolTable.declare, htaken, hname, or_self,
        if_false, Option.isSome_none, Bool.false_eq_true]
      refine ⟨?_, fun found hfound => (Option.some.inj hfound).symm⟩
      exact {
        going := h.going
        opened := List.cons_ne_nil _ _
        bound := by
          obtain ⟨hframe, houter⟩ := List.forall_mem_cons.mp h.bound
          exact List.forall_mem_cons.mpr
            ⟨List.forall_mem_cons.mpr ⟨⟨hname, rfl, hsymbol⟩, hframe⟩, houter⟩
        refused := h.refused
        nameless := h.nameless
        blames := h.blames }

end Sound

section Visits

variable {all before visits more : List Visit} {step : Resolver α}
  {post : α → Prop} {final : β → Prop}

theorem Resolver.Visits.pure {answer : α} (h : post answer) :
    Resolver.Visits all before (Pure.pure answer) [] post where
  rests _ _ := ⟨rfl, h⟩
  goes _ walk hwalk := ⟨.going rfl (by rwa [List.append_nil]), h⟩

theorem Resolver.Rests.bind {next : α → Resolver β} (h : Resolver.Rests step post)
    (hnext : ∀ answer, post answer → Resolver.Rests (next answer) final) :
    Resolver.Rests (step >>= next) final := by
  intro walk hwalk
  obtain ⟨hstep, hpost⟩ := h walk hwalk
  have hrun : step.run walk = ((step.run walk).1, walk) := Prod.ext rfl hstep
  rw [Resolver.run_bind hrun]
  exact hnext _ hpost walk hwalk

theorem Resolver.Goes.bind {next : α → Resolver β}
    (h : Resolver.Goes all before step visits post)
    (hnext : ∀ answer, post answer →
      Resolver.Visits all (before ++ visits) (next answer) more final) :
    Resolver.Goes all before (step >>= next) (visits ++ more) final := by
  intro hall walk hwalk
  obtain ⟨hvisits, hmore⟩ := List.append_subset.mp hall
  obtain ⟨hafter, hpost⟩ := h hvisits walk hwalk
  rw [Resolver.run_bind (Prod.eta _).symm]
  cases hafter with
  | halted hhalts hhalted hblames =>
      have hsome : (step.run walk).2.halted.isSome = true := by rw [hhalted]; rfl
      obtain ⟨hrest, hfinal⟩ := (hnext _ hpost).rests _ hsome
      rw [hrest]
      refine ⟨.halted ?_ hhalted hblames, hfinal⟩
      rw [List.any_append, hhalts, Bool.true_or]
  | going hnone hsound =>
      obtain ⟨hafter, hfinal⟩ := (hnext _ hpost).goes hmore _ hsound
      refine ⟨?_, hfinal⟩
      cases hafter with
      | halted hhalts hhalted hblames =>
          refine .halted ?_ hhalted hblames
          rw [List.any_append, hhalts, Bool.or_true]
      | going hnone' hsound' =>
          refine .going ?_ (by rwa [List.append_assoc] at hsound')
          rw [List.any_append, hnone, hnone', Bool.or_false]

theorem Resolver.Visits.bind {next : α → Resolver β}
    (h : Resolver.Visits all before step visits post)
    (hnext : ∀ answer, post answer →
      Resolver.Visits all (before ++ visits) (next answer) more final) :
    Resolver.Visits all before (step >>= next) (visits ++ more) final where
  rests := h.rests.bind fun answer hanswer => (hnext answer hanswer).rests
  goes := h.goes.bind hnext

theorem Resolver.Visits.last {answerOf : α → β}
    (h : Resolver.Visits all before step visits post)
    (hfinal : ∀ answer, post answer → final (answerOf answer)) :
    Resolver.Visits all before (step >>= fun answer => Pure.pure (answerOf answer)) visits
      final := by
  have hpure : ∀ answer, post answer →
      Resolver.Visits all (before ++ visits) (Pure.pure (answerOf answer)) [] final :=
    fun answer hanswer => .pure (hfinal answer hanswer)
  have hbind := h.bind hpure
  rwa [List.append_nil] at hbind

theorem Resolver.Goes.unlessHalted {idle : α}
    (h : Resolver.Goes all before step visits post) (hidle : post idle) :
    Resolver.Visits all before (Resolver.unlessHalted idle step) visits post where
  rests walk hwalk := by
    rw [Resolver.run_idle idle step hwalk]
    exact ⟨rfl, hidle⟩
  goes hall walk hwalk := by
    rw [Resolver.run_unlessHalted idle step hwalk.going]
    exact h hall walk hwalk

/-- Names at which nothing is declared may be passed before a step. -/
theorem Resolver.Visits.passing (h : Resolver.Visits all (before ++ visits) step more post)
    (hvisits : Passive visits) :
    Resolver.Visits all before step (visits ++ more) post where
  rests := h.rests
  goes hall walk hwalk := by
    obtain ⟨hafter, hpost⟩ :=
      h.goes (List.append_subset.mp hall).2 walk (hwalk.passing hvisits)
    refine ⟨?_, hpost⟩
    cases hafter with
    | halted hhalts hhalted hblames =>
        refine .halted ?_ hhalted hblames
        rw [List.any_append, hhalts, Bool.or_true]
    | going hnone hsound =>
        refine .going ?_ (by rwa [List.append_assoc] at hsound)
        rw [List.any_append, hvisits.halts, hnone, Bool.or_false]

/-- A step in a scope of its own makes the visits that it makes anywhere. -/
theorem Resolver.Visits.scoped (h : Resolver.Visits all before step visits post)
    (hkeeps : Resolver.Keeps SymbolTable.Extends step) :
    Resolver.Visits all before (Resolver.scoped step) visits post where
  rests walk hwalk := by
    obtain ⟨hrest, hpost⟩ := h.rests walk.opened hwalk
    rw [Resolver.run_scoped hkeeps, hrest]
    exact ⟨rfl, hpost⟩
  goes hall walk hwalk := by
    obtain ⟨hafter, hpost⟩ := h.goes hall walk.opened hwalk.openScope
    rw [Resolver.run_scoped hkeeps]
    refine ⟨?_, hpost⟩
    cases hafter with
    | halted hhalts hhalted hblames => exact .halted hhalts hhalted hblames
    | going hnone hsound =>
        exact .going hnone { hsound with opened := hwalk.opened, bound := hwalk.bound }

/-- A step in a new table makes the visits that it makes anywhere. -/
theorem Resolver.Visits.withTable (h : Resolver.Visits all before step visits post) :
    Resolver.Visits all before (Resolver.withTable .new step) visits
      fun answer => post answer.2 where
  rests walk hwalk := by
    obtain ⟨hrest, hpost⟩ := h.rests { walk with table := .new } hwalk
    rw [Resolver.run_withTable walk (Prod.eta _).symm, hrest]
    exact ⟨rfl, hpost⟩
  goes hall walk hwalk := by
    obtain ⟨hafter, hpost⟩ := h.goes hall { walk with table := .new } hwalk.newTable
    rw [Resolver.run_withTable walk (Prod.eta _).symm]
    refine ⟨?_, hpost⟩
    cases hafter with
    | halted hhalts hhalted hblames => exact .halted hhalts hhalted hblames
    | going hnone hsound =>
        exact .going hnone { hsound with opened := hwalk.opened, bound := hwalk.bound }

end Visits

end MiniLang
