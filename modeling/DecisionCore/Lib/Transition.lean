import Mathlib.Data.List.Basic
import Mathlib.Tactic.Common

/-!
# Runs of a labelled transition function

A run records the state and the label of each of its steps.  An invariant is shown to hold in every
state of a run from its first state and from one step; the step may assume a condition that all
steps of the run meet.
-/

namespace DecisionCore

variable {σ ℓ : Type} {step : σ → ℓ → Option σ}

/-- Runs from a state, extended at their end. -/
inductive Run (step : σ → ℓ → Option σ) (start : σ) : List (σ × ℓ) → σ → Prop
  | nil : Run step start [] start
  | snoc {trace : List (σ × ℓ)} {last next : σ} {label : ℓ} :
    Run step start trace last → step last label = some next →
    Run step start (trace ++ [(last, label)]) next

/-- Every step of the trace meets the condition. -/
def Along (allowed : σ → ℓ → Prop) (trace : List (σ × ℓ)) : Prop :=
  ∀ entry ∈ trace, allowed entry.1 entry.2

theorem along_nil {allowed : σ → ℓ → Prop} : Along allowed [] := by simp [Along]

theorem along_true {trace : List (σ × ℓ)} : Along (fun _ _ ↦ True) trace := fun _ _ ↦ trivial

theorem along_snoc {allowed : σ → ℓ → Prop} {trace : List (σ × ℓ)} {state : σ} {label : ℓ} :
    Along allowed (trace ++ [(state, label)]) ↔ Along allowed trace ∧ allowed state label := by
  simp [Along, or_imp, forall_and]

namespace Run

variable {start last : σ} {trace : List (σ × ℓ)} {allowed : σ → ℓ → Prop}

/-- What holds at the start and is kept by every allowed step that a run can take holds at the end. -/
theorem invariant {inv : σ → Prop} (run : Run step start trace last) (along : Along allowed trace)
    (initial : inv start)
    (preserved : ∀ {before state label next}, Run step start before state → Along allowed before →
      allowed state label → step state label = some next → inv state → inv next) : inv last := by
  induction run with
  | nil => exact initial
  | snoc hrun hstep ih =>
    obtain ⟨hbefore, hallowed⟩ := along_snoc.mp along
    exact preserved hrun hbefore hallowed hstep (ih hbefore)

/-- Every step of a run is taken from a state that an earlier part of the run leads to. -/
theorem exists_before {entry : σ × ℓ} (run : Run step start trace last) (h : entry ∈ trace) :
    ∃ before next, Run step start before entry.1 ∧ (∀ earlier ∈ before, earlier ∈ trace) ∧
      step entry.1 entry.2 = some next := by
  induction run with
  | nil => cases h
  | snoc hrun hstep ih =>
    obtain hold | hnew := List.mem_append.mp h
    · obtain ⟨before, next, hbefore, hsub, hnext⟩ := ih hold
      exact ⟨before, next, hbefore, fun earlier hearlier ↦ List.mem_append_left _ (hsub earlier hearlier), hnext⟩
    · obtain rfl := List.mem_singleton.mp hnew
      exact ⟨_, _, hrun, fun earlier hearlier ↦ List.mem_append_left _ hearlier, hstep⟩

/-- Where every step keeps a property exactly when it meets a condition, the property holds in every state of a run
exactly when all steps meet the condition. -/
theorem always_iff {good : σ → Prop} {kept : σ → ℓ → Prop} (run : Run step start trace last)
    (along : Along allowed trace) (initial : good start)
    (kept_iff : ∀ {before state label next}, Run step start before state → Along allowed before →
      allowed state label → step state label = some next → good state → (good next ↔ kept state label)) :
    (∀ state ∈ last :: trace.map Prod.fst, good state) ↔ Along kept trace := by
  induction run with
  | nil => simp [initial, along_nil]
  | snoc hrun hstep ih =>
    obtain ⟨hbefore, hallowed⟩ := along_snoc.mp along
    have hstates := ih hbefore
    rw [along_snoc]
    simp only [List.map_append, List.map_cons, List.map_nil, List.forall_mem_cons, List.forall_mem_append,
      List.not_mem_nil, IsEmpty.forall_iff, implies_true, and_true] at hstates ⊢
    constructor
    · rintro ⟨hnext, hearlier, hlast⟩
      exact ⟨hstates.mp ⟨hlast, hearlier⟩, (kept_iff hrun hbefore hallowed hstep hlast).mp hnext⟩
    · rintro ⟨hkept, hlabel⟩
      obtain ⟨hlast, hearlier⟩ := hstates.mpr hkept
      exact ⟨(kept_iff hrun hbefore hallowed hstep hlast).mpr hlabel, hearlier, hlast⟩

theorem append {middle : σ} {rest : List (σ × ℓ)} (first : Run step start trace middle)
    (second : Run step middle rest last) : Run step start (trace ++ rest) last := by
  induction second with
  | nil => simpa using first
  | snoc _ hstep ih =>
    rw [← List.append_assoc]
    exact ih.snoc hstep

end Run

/-! ## Following given labels -/

/-- The state the labels lead to, when all of them are enabled. -/
def follow (step : σ → ℓ → Option σ) (start : σ) : List ℓ → Option σ
  | [] => some start
  | label :: rest => do
    let next ← step start label
    follow step next rest

/-- The trace of the labels that are enabled. -/
def traceOf (step : σ → ℓ → Option σ) (start : σ) : List ℓ → List (σ × ℓ)
  | [] => []
  | label :: rest =>
    match step start label with
    | some next => (start, label) :: traceOf step next rest
    | none => []

/-- What an evaluation finds at the end of the labels. -/
theorem exists_follow {start : σ} {labels : List ℓ} {p : σ → Prop} [DecidablePred p]
    (h : (follow step start labels).any (fun last ↦ decide (p last)) = true) :
    ∃ last, follow step start labels = some last ∧ p last := by
  obtain ⟨last, hlast, hp⟩ := (Option.any_eq_true _ _).mp h
  exact ⟨last, hlast, of_decide_eq_true hp⟩

theorem Run.of_follow {start last : σ} {labels : List ℓ} (h : follow step start labels = some last) :
    Run step start (traceOf step start labels) last := by
  induction labels generalizing start with
  | nil =>
    obtain rfl := Option.some.inj h
    exact .nil
  | cons label rest ih =>
    obtain ⟨next, hstep, hrest⟩ := Option.bind_eq_some_iff.mp h
    rw [traceOf, hstep]
    exact Run.append (Run.snoc .nil hstep) (ih hrest)

theorem along_traceOf {allowed : ℓ → Prop} {start : σ} {labels : List ℓ}
    (h : ∀ label ∈ labels, allowed label) : Along (fun _ label ↦ allowed label) (traceOf step start labels) := by
  induction labels generalizing start with
  | nil => exact along_nil
  | cons label rest ih =>
    rw [traceOf]
    split
    · rintro entry (_ | ⟨_, hentry⟩)
      · exact h label List.mem_cons_self
      · exact ih (fun other hother ↦ h other (List.mem_cons_of_mem _ hother)) entry hentry
    · exact along_nil

/-- Labels that leave the related state of another run alone can be left out of that run. -/
theorem follow_filter {related : σ → σ → Prop} {allowed : ℓ → Prop} {kept : ℓ → Bool}
    (keeps : ∀ {state other label next}, related state other → allowed label → kept label = true →
      step state label = some next → ∃ after, step other label = some after ∧ related next after)
    (skips : ∀ {state other label next}, related state other → allowed label → kept label = false →
      step state label = some next → related next other)
    {labels : List ℓ} (hlabels : ∀ label ∈ labels, allowed label) {start other last : σ}
    (hrelated : related start other) (h : follow step start labels = some last) :
    ∃ after, follow step other (labels.filter kept) = some after ∧ related last after := by
  induction labels generalizing start other with
  | nil =>
    obtain rfl := Option.some.inj h
    exact ⟨other, rfl, hrelated⟩
  | cons label rest ih =>
    obtain ⟨next, hstep, hrest⟩ := Option.bind_eq_some_iff.mp h
    obtain ⟨hlabel, hothers⟩ := List.forall_mem_cons.mp hlabels
    cases hkept : kept label with
    | false =>
      rw [List.filter_cons_of_neg (by rw [hkept]; exact Bool.false_ne_true)]
      exact ih hothers (skips hrelated hlabel hkept hstep) hrest
    | true =>
      obtain ⟨after, hafter, hnext⟩ := keeps hrelated hlabel hkept hstep
      obtain ⟨final, hfinal, hlast⟩ := ih hothers hnext hrest
      rw [List.filter_cons_of_pos hkept]
      exact ⟨final, Option.bind_eq_some_iff.mpr ⟨after, hafter, hfinal⟩, hlast⟩

end DecisionCore
