/-
Two walks that part. They go the same way up to a step where the first one halts; the other
one goes on from there, so it reports what the first one has reported, and perhaps more.
-/
import MiniLang.Proofs.Resolution.Agreement
import MiniLang.Proofs.Resolution.Sound

namespace MiniLang

variable {α β γ δ : Type}

/-- Whether a walk has halted or is sound for some program. -/
def Walk.Regular (walk : Walk) : Prop :=
  walk.halted.isSome = true ∨ ∃ all before, walk.Sound all before

/-- Whether a walk has halted, and another one reports its errors first. -/
structure Walk.Leads (walk other : Walk) : Prop where
  halted : walk.halted.isSome = true
  errors : walk.errors <+: other.errors

/-- Whether a step rests in a walk that has halted, and only ever adds errors. -/
structure Resolver.Calm (step : Resolver α) : Prop where
  rests : Resolver.Rests step fun _ => True
  reports : ∀ walk : Walk, walk.errors <+: (step.run walk).2.errors

/-- Whether a step leads from regular walks to regular walks. -/
def Resolver.Regular (step : Resolver α) : Prop :=
  ∀ walk : Walk, walk.Regular → (step.run walk).2.Regular

/-- Whether two steps lead from a walk to the same walk, with answers that are related, or
part there. -/
def Resolver.PartsAt (relate : α → β → Prop) (step : Resolver α) (other : Resolver β)
    (walk : Walk) : Prop :=
  ((step.run walk).2 = (other.run walk).2 ∧ relate (step.run walk).1 (other.run walk).1) ∨
    (step.run walk).2.Leads (other.run walk).2

/-- Whether two steps agree or part in every regular walk. -/
def Resolver.Parts (relate : α → β → Prop) (step : Resolver α) (other : Resolver β) :
    Prop :=
  ∀ walk : Walk, walk.Regular → Resolver.PartsAt relate step other walk

section Regular

variable {all before visits : List Visit} {walk : Walk}

/-- What is sound for a program is sound for a larger one. -/
theorem Walk.Sound.mono (h : walk.Sound all before) (more : List Visit) :
    walk.Sound (all ++ more) before where
  going := h.going
  opened := h.opened
  bound frame hframe entry hentry := by
    obtain ⟨hname, hsame, hmem⟩ := h.bound frame hframe entry hentry
    refine ⟨hname, hsame, ?_⟩
    rw [symbolsOf, List.filterMap_append]
    exact List.mem_append_left _ hmem
  refused := h.refused
  nameless := h.nameless
  blames error herror := by
    obtain ⟨visit, hvisit, hat⟩ := h.blames error herror
    exact ⟨visit, List.mem_append_left _ hvisit, hat⟩

theorem Walk.After.regular (h : walk.After all before visits) : walk.Regular := by
  cases h with
  | halted _ hhalted _ => exact .inl (by rw [hhalted]; rfl)
  | going _ hsound => exact .inr ⟨all, _, hsound⟩

/-- The visits of a step, whatever it answers. -/
theorem Resolver.Visits.any {step : Resolver α} {post : α → Prop}
    (h : Resolver.Visits all before step visits post) :
    Resolver.Visits all before step visits fun _ => True where
  rests walk hwalk := ⟨(h.rests walk hwalk).1, trivial⟩
  goes hall walk hwalk := ⟨(h.goes hall walk hwalk).1, trivial⟩

/-- Steps that make visits in every program lead to regular walks. -/
theorem Resolver.Regular.of_visits {step : Resolver α} {visitsOf : List Visit → List Visit}
    (h : ∀ all before, Resolver.Visits all before step (visitsOf before) fun _ => True) :
    Resolver.Regular step := by
  rintro walk (hhalted | ⟨all, before, hsound⟩)
  · rw [((h [] []).rests walk hhalted).1]
    exact .inl hhalted
  · have hvisits := h (all ++ visitsOf before) before
    exact (hvisits.goes (List.subset_append_right _ _) walk (hsound.mono _)).1.regular

end Regular

section Calm

variable {scopes : SymbolTable → SymbolTable → Prop} {step : Resolver α}

theorem Resolver.Keeps.reports (h : Resolver.Keeps scopes step) (walk : Walk) :
    walk.errors <+: (step.run walk).2.errors := by
  obtain ⟨errors, herrors, _⟩ := (h walk).reports
  exact ⟨errors, herrors.symm⟩

/-- Steps that make visits in every program are calm. -/
theorem Resolver.Calm.of_visits {visitsOf : List Visit → List Visit}
    (h : ∀ all before, Resolver.Visits all before step (visitsOf before) fun _ => True)
    (hkeeps : Resolver.Keeps scopes step) : Resolver.Calm step where
  rests := (h [] []).rests
  reports := hkeeps.reports

theorem Resolver.Calm.unlessHalted {idle : α}
    (hkeeps : Resolver.Keeps scopes (Resolver.unlessHalted idle step)) :
    Resolver.Calm (Resolver.unlessHalted idle step) where
  rests walk hwalk := by
    rw [Resolver.run_idle idle step hwalk]
    exact ⟨rfl, trivial⟩
  reports := hkeeps.reports

theorem Resolver.Calm.pure (answer : α) :
    Resolver.Calm (Pure.pure answer : Resolver α) where
  rests _ _ := ⟨rfl, trivial⟩
  reports _ := List.prefix_rfl

theorem Resolver.Calm.bind {next : α → Resolver β} (h : Resolver.Calm step)
    (hnext : ∀ answer, Resolver.Calm (next answer)) : Resolver.Calm (step >>= next) where
  rests := h.rests.bind fun answer _ => (hnext answer).rests
  reports walk := (h.reports walk).trans ((hnext _).reports _)

theorem Resolver.Calm.last {answerOf : α → β} (h : Resolver.Calm step) :
    Resolver.Calm (step >>= fun answer => Pure.pure (answerOf answer)) :=
  h.bind fun _ => .pure _

theorem Resolver.Calm.scoped (h : Resolver.Calm step)
    (hkeeps : Resolver.Keeps SymbolTable.Extends step) :
    Resolver.Calm (Resolver.scoped step) where
  rests walk hwalk := by
    rw [Resolver.run_scoped hkeeps, (h.rests walk.opened hwalk).1]
    exact ⟨rfl, trivial⟩
  reports := hkeeps.scoped.reports

end Calm

section Parts

variable {relate : α → β → Prop} {final : γ → δ → Prop} {step : Resolver α}
  {other : Resolver β} {walk : Walk}

theorem Resolver.Agrees.parts (h : Resolver.Agrees relate step other) :
    Resolver.PartsAt relate step other walk := .inl (h walk)

/-- Two steps part if the first one only halts. -/
theorem Resolver.PartsAt.stops
    (h : (step.run walk).2 = { walk with halted := some .absentName })
    (hother : walk.errors <+: (other.run walk).2.errors) :
    Resolver.PartsAt relate step other walk := by
  refine .inr ⟨?_, ?_⟩
  · rw [h]
    rfl
  · rw [h]
    exact hother

/-- Behind steps that part, the first walk rests. -/
theorem Resolver.PartsAt.bind {next : α → Resolver γ} {next' : β → Resolver δ}
    (h : Resolver.PartsAt relate step other walk)
    (hnext : ∀ answer twin, relate answer twin →
      Resolver.Agrees final (next answer) (next' twin))
    (hcalm : ∀ answer, Resolver.Calm (next answer))
    (hcalm' : ∀ twin, Resolver.Calm (next' twin)) :
    Resolver.PartsAt final (step >>= next) (other >>= next') walk := by
  rw [Resolver.PartsAt, Resolver.run_bind (Prod.eta (step.run walk)).symm,
    Resolver.run_bind (Prod.eta (other.run walk)).symm]
  rcases h with ⟨hwalk, hrelate⟩ | ⟨hhalted, herrors⟩
  · rw [hwalk]
    exact .inl (hnext _ _ hrelate _)
  · refine .inr ?_
    rw [((hcalm _).rests _ hhalted).1]
    exact ⟨hhalted, herrors.trans ((hcalm' _).reports _)⟩

/-- Steps that part behind the same step. -/
theorem Resolver.PartsAt.behind {next : α → Resolver γ} {next' : α → Resolver δ}
    (h : Resolver.PartsAt final (next (step.run walk).1) (next' (step.run walk).1)
      (step.run walk).2) :
    Resolver.PartsAt final (step >>= next) (step >>= next') walk := h

/-- Steps that look at the walk see the same one. -/
theorem Resolver.PartsAt.get {next : Walk → Resolver α} {next' : Walk → Resolver β}
    (h : Resolver.PartsAt relate (next walk) (next' walk) walk) :
    Resolver.PartsAt relate (MonadState.get >>= next) (MonadState.get >>= next') walk := h

theorem Resolver.Parts.bind {next : α → Resolver γ} {next' : β → Resolver δ}
    (h : Resolver.Parts relate step other)
    (hnext : ∀ answer twin, relate answer twin →
      Resolver.Agrees final (next answer) (next' twin))
    (hcalm : ∀ answer, Resolver.Calm (next answer))
    (hcalm' : ∀ twin, Resolver.Calm (next' twin)) :
    Resolver.Parts final (step >>= next) (other >>= next') :=
  fun walk hwalk => (h walk hwalk).bind hnext hcalm hcalm'

theorem Resolver.Parts.behind {next : α → Resolver γ} {next' : α → Resolver δ}
    (hstep : Resolver.Regular step)
    (h : ∀ answer, Resolver.Parts final (next answer) (next' answer)) :
    Resolver.Parts final (step >>= next) (step >>= next') :=
  fun walk hwalk => .behind (h _ _ (hstep walk hwalk))

theorem Resolver.Parts.last {answerOf : α → γ} {twinOf : β → δ}
    (h : Resolver.Parts relate step other)
    (hfinal : ∀ answer twin, relate answer twin → final (answerOf answer) (twinOf twin)) :
    Resolver.Parts final (step >>= fun answer => Pure.pure (answerOf answer))
      (other >>= fun twin => Pure.pure (twinOf twin)) := by
  intro walk hwalk
  rcases h walk hwalk with ⟨hsame, hrelate⟩ | hleads
  · exact .inl ⟨hsame, hfinal _ _ hrelate⟩
  · exact .inr hleads

/-- Steps that are not taken in a walk that has halted part in the walks that go on. -/
theorem Resolver.Parts.unlessHalted {idle : α} {idle' : β} (hidle : relate idle idle')
    (h : ∀ {all before walk}, Walk.Sound all before walk →
      Resolver.PartsAt relate step other walk) :
    Resolver.Parts relate (Resolver.unlessHalted idle step)
      (Resolver.unlessHalted idle' other) := by
  rintro walk (hhalted | ⟨all, before, hsound⟩)
  · rw [Resolver.PartsAt, Resolver.run_idle idle step hhalted,
      Resolver.run_idle idle' other hhalted]
    exact .inl ⟨rfl, hidle⟩
  · rw [Resolver.PartsAt, Resolver.run_unlessHalted idle step hsound.going,
      Resolver.run_unlessHalted idle' other hsound.going]
    exact h hsound

theorem Resolver.Parts.scoped (h : Resolver.Parts relate step other)
    (hstep : Resolver.Keeps SymbolTable.Extends step)
    (hother : Resolver.Keeps SymbolTable.Extends other) :
    Resolver.Parts relate (Resolver.scoped step) (Resolver.scoped other) := by
  intro walk hwalk
  have hopened : walk.opened.Regular :=
    hwalk.imp_right fun ⟨all, before, hsound⟩ => ⟨all, before, hsound.openScope⟩
  rw [Resolver.PartsAt, Resolver.run_scoped hstep, Resolver.run_scoped hother]
  rcases h _ hopened with ⟨hsame, hrelate⟩ | ⟨hhalted, herrors⟩
  · rw [hsame]
    exact .inl ⟨rfl, hrelate⟩
  · exact .inr ⟨hhalted, herrors⟩

theorem Resolver.Parts.withTable (h : Resolver.Parts relate step other) :
    Resolver.Parts (fun answer twin => answer.1 = twin.1 ∧ relate answer.2 twin.2)
      (Resolver.withTable .new step) (Resolver.withTable .new other) := by
  intro walk hwalk
  have hnew : Walk.Regular { walk with table := .new } :=
    hwalk.imp_right fun ⟨all, before, hsound⟩ => ⟨all, before, hsound.newTable⟩
  rw [Resolver.PartsAt, Resolver.run_withTable walk (Prod.eta _).symm,
    Resolver.run_withTable walk (Prod.eta _).symm]
  rcases h _ hnew with ⟨hsame, hrelate⟩ | ⟨hhalted, herrors⟩
  · rw [hsame]
    exact .inl ⟨rfl, rfl, hrelate⟩
  · exact .inr ⟨hhalted, herrors⟩

end Parts

end MiniLang
