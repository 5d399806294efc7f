/-
Two steps of a walk side by side. They agree if they lead from every walk to the same
walk; their answers may differ, but have to be related.
-/
import MiniLang.Proofs.Resolution.Discipline

namespace MiniLang

variable {α β γ δ : Type}

/-- Whether two steps lead from every walk to the same walk, with answers that are
related. -/
def Resolver.Agrees (relate : α → β → Prop) (step : Resolver α) (other : Resolver β) :
    Prop :=
  ∀ walk, (step.run walk).2 = (other.run walk).2 ∧
    relate (step.run walk).1 (other.run walk).1

section Agrees

variable {relate : α → β → Prop} {final : γ → δ → Prop} {step : Resolver α}
  {other : Resolver β}

theorem Resolver.Agrees.refl (step : Resolver α) : Resolver.Agrees Eq step step :=
  fun _ => ⟨rfl, rfl⟩

theorem Resolver.Agrees.pure {answer : α} {twin : β} (h : relate answer twin) :
    Resolver.Agrees relate (Pure.pure answer) (Pure.pure twin) := fun _ => ⟨rfl, h⟩

theorem Resolver.Agrees.bind {next : α → Resolver γ} {next' : β → Resolver δ}
    (h : Resolver.Agrees relate step other)
    (hnext : ∀ answer twin, relate answer twin →
      Resolver.Agrees final (next answer) (next' twin)) :
    Resolver.Agrees final (step >>= next) (other >>= next') := by
  intro walk
  obtain ⟨hwalk, hrelate⟩ := h walk
  have hrun : step.run walk = ((step.run walk).1, (other.run walk).2) := Prod.ext rfl hwalk
  rw [Resolver.run_bind hrun, Resolver.run_bind (Prod.eta (other.run walk)).symm]
  exact hnext _ _ hrelate _

theorem Resolver.Agrees.last {answerOf : α → γ} {twinOf : β → δ}
    (h : Resolver.Agrees relate step other)
    (hfinal : ∀ answer twin, relate answer twin → final (answerOf answer) (twinOf twin)) :
    Resolver.Agrees final (step >>= fun answer => Pure.pure (answerOf answer))
      (other >>= fun twin => Pure.pure (twinOf twin)) :=
  h.bind fun answer twin hrelate => .pure (hfinal answer twin hrelate)

/-- Steps that look at the walk agree if they agree whatever they see. -/
theorem Resolver.Agrees.get {next : Walk → Resolver α} {next' : Walk → Resolver β}
    (h : ∀ walk, Resolver.Agrees relate (next walk) (next' walk)) :
    Resolver.Agrees relate (MonadState.get >>= next) (MonadState.get >>= next') :=
  fun walk => h walk walk

theorem Resolver.Agrees.unlessHalted {idle : α} {idle' : β}
    (h : Resolver.Agrees relate step other) (hidle : relate idle idle') :
    Resolver.Agrees relate (Resolver.unlessHalted idle step)
      (Resolver.unlessHalted idle' other) := by
  refine .get fun walk => ?_
  split
  · exact .pure hidle
  · exact h

theorem Resolver.Agrees.scoped (h : Resolver.Agrees relate step other)
    (hstep : Resolver.Keeps SymbolTable.Extends step)
    (hother : Resolver.Keeps SymbolTable.Extends other) :
    Resolver.Agrees relate (Resolver.scoped step) (Resolver.scoped other) := by
  intro walk
  obtain ⟨hwalk, hrelate⟩ := h walk.opened
  rw [Resolver.run_scoped hstep, Resolver.run_scoped hother, hwalk]
  exact ⟨rfl, hrelate⟩

theorem Resolver.Agrees.withTable (h : Resolver.Agrees relate step other)
    (table : SymbolTable) :
    Resolver.Agrees (fun answer twin => answer.1 = twin.1 ∧ relate answer.2 twin.2)
      (Resolver.withTable table step) (Resolver.withTable table other) := by
  intro walk
  obtain ⟨hwalk, hrelate⟩ := h { walk with table := table }
  rw [Resolver.run_withTable walk (Prod.eta _).symm,
    Resolver.run_withTable walk (Prod.eta _).symm, hwalk]
  exact ⟨rfl, rfl, hrelate⟩

end Agrees

end MiniLang
