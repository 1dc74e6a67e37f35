import DecisionCore.Lib.Transition

/-!
# Runs that spend a measure

A measure that every allowed step makes smaller bounds the length of the runs.  Where an allowed step is enabled in
every state that is not done, every run can be continued until it is done.
-/

namespace DecisionCore

variable {σ ℓ : Type} {step : σ → ℓ → Option σ}

/-- The allowed steps that runs from the state can take make the measure smaller. -/
def Spends (step : σ → ℓ → Option σ) (start : σ) (allowed : σ → ℓ → Prop) (work : σ → ℕ) : Prop :=
  ∀ ⦃trace last label next⦄, Run step start trace last → Along allowed trace → allowed last label →
    step last label = some next → work next < work last

namespace Spends

variable {start last : σ} {trace : List (σ × ℓ)} {allowed : σ → ℓ → Prop} {work : σ → ℕ}

/-- A run is not longer than what it has spent. -/
theorem length_add_le (spends : Spends step start allowed work) (run : Run step start trace last)
    (along : Along allowed trace) : trace.length + work last ≤ work start := by
  induction run with
  | nil => exact Nat.le_of_eq (Nat.zero_add _)
  | snoc hrun hstep ih =>
    obtain ⟨hbefore, hallowed⟩ := along_snoc.mp along
    have hspent := spends hrun hbefore hallowed hstep
    have hlength := ih hbefore
    rw [List.length_append, List.length_singleton]
    omega

theorem exists_done {done : σ → Prop} (spends : Spends step start allowed work)
    (goes : ∀ ⦃state⦄, ¬ done state → ∃ label next, allowed state label ∧ step state label = some next)
    (run : Run step start trace last) (along : Along allowed trace) :
    ∃ rest final, Run step last rest final ∧ Along allowed rest ∧ done final := by
  induction hwork : work last using Nat.strongRecOn generalizing trace last with
  | ind spent ih =>
    by_cases hdone : done last
    · exact ⟨[], last, .nil, along_nil, hdone⟩
    · obtain ⟨label, next, hallowed, hstep⟩ := goes hdone
      have hspent := spends run along hallowed hstep
      obtain ⟨rest, final, hrest, hothers, hfinal⟩ :=
        ih (work next) (hwork ▸ hspent) (run.snoc hstep) (along_snoc.mpr ⟨along, hallowed⟩) rfl
      refine ⟨_, final, (Run.nil.snoc hstep).append hrest, ?_, hfinal⟩
      intro entry hentry
      obtain hfirst | hlater := List.mem_append.mp hentry
      · obtain rfl := List.mem_singleton.mp hfirst
        exact hallowed
      · exact hothers entry hlater

end Spends

end DecisionCore
