import Mathlib.Data.List.Perm.Basic
import DecisionCore.Lib.Transition

/-!
# Components over a shared state

Components that are started at any time act on one shared state and on a local state of their own, in any
interleaving, and may stop for good at any point.  The rules split an invariant of such a system into what
one component guarantees of its own steps and what it relies on of the steps of the others.
-/

namespace DecisionCore

/-- The local state of a component; one that has stopped keeps the state it had. -/
structure Component (κ : Type) where
  own : κ
  running : Bool

/-- A shared state with the components started so far, in the order of their starts. -/
structure Components (σ κ : Type) where
  shared : σ
  parts : List (Component κ)

namespace Components

inductive Action (ι ℓ : Type) where
  | boot (config : ι)
  | act (index : ℕ) (label : ℓ)
  | stop (index : ℕ)

variable {σ κ ι ℓ : Type}

def initial (shared : σ) : Components σ κ := ⟨shared, []⟩

def step (boot : ι → κ) (act : σ → κ → ℓ → Option (σ × κ)) (sys : Components σ κ) :
    Action ι ℓ → Option (Components σ κ)
  | .boot config => some { sys with parts := sys.parts ++ [⟨boot config, true⟩] }
  | .act index label => do
    let part ← sys.parts[index]?
    if part.running then
      let (shared, own) ← act sys.shared part.own label
      return { shared, parts := sys.parts.set index ⟨own, true⟩ }
    else none
  | .stop index => do
    let part ← sys.parts[index]?
    return { sys with parts := sys.parts.set index ⟨part.own, false⟩ }

variable {boot : ι → κ} {act : σ → κ → ℓ → Option (σ × κ)}

/-- Everything a step can do. -/
inductive Stepped (boot : ι → κ) (act : σ → κ → ℓ → Option (σ × κ)) (sys : Components σ κ) :
    Action ι ℓ → Components σ κ → Prop
  | booted (config : ι) :
    Stepped boot act sys (.boot config) { sys with parts := sys.parts ++ [⟨boot config, true⟩] }
  | acted {index : ℕ} {label : ℓ} {own next : κ} {shared : σ} :
    sys.parts[index]? = some ⟨own, true⟩ → act sys.shared own label = some (shared, next) →
    Stepped boot act sys (.act index label) { shared, parts := sys.parts.set index ⟨next, true⟩ }
  | stopped {index : ℕ} {part : Component κ} : sys.parts[index]? = some part →
    Stepped boot act sys (.stop index) { sys with parts := sys.parts.set index ⟨part.own, false⟩ }

theorem stepped {sys next : Components σ κ} {action : Action ι ℓ}
    (h : step boot act sys action = some next) : Stepped boot act sys action next := by
  cases action with
  | boot config =>
    obtain rfl := Option.some.inj h
    exact .booted config
  | act index label =>
    obtain ⟨⟨own, running⟩, hpart, hnext⟩ := Option.bind_eq_some_iff.mp h
    cases running with
    | false => cases hnext
    | true =>
      obtain ⟨⟨shared, after⟩, hact, hsome⟩ := Option.bind_eq_some_iff.mp hnext
      obtain rfl := Option.some.inj hsome
      exact .acted hpart hact
  | stop index =>
    obtain ⟨part, hpart, hnext⟩ := Option.bind_eq_some_iff.mp h
    obtain rfl := Option.some.inj hnext
    exact .stopped hpart

/-! ## Relying and guaranteeing -/

/-- The shared state has its invariant, and every component has its own under it. -/
structure Holds (shared : σ → Prop) (own : σ → κ → Prop) (sys : Components σ κ) : Prop where
  shared : shared sys.shared
  own : ∀ part ∈ sys.parts, own sys.shared part.own

/-- What the steps of a component keep and guarantee, and what the invariants of the others survive. -/
structure Rules (boot : ι → κ) (act : σ → κ → ℓ → Option (σ × κ)) (shared : σ → Prop) (own : σ → κ → Prop)
    (guarantee : σ → σ → Prop) : Prop where
  boots : ∀ state config, shared state → own state (boot config)
  keeps : ∀ {state next label before after}, shared state → own state before →
    act state before label = some (next, after) → shared next ∧ own next after ∧ guarantee state next
  stable : ∀ {state next part}, guarantee state next → own state part → own next part

variable {shared : σ → Prop} {own : σ → κ → Prop} {guarantee : σ → σ → Prop}

theorem Holds.stepped (rules : Rules boot act shared own guarantee) {sys next : Components σ κ}
    {action : Action ι ℓ} (holds : Holds shared own sys) (h : Stepped boot act sys action next) :
    Holds shared own next := by
  cases h with
  | booted config =>
    refine ⟨holds.shared, ?_⟩
    intro part hpart
    obtain hold | hnew := List.mem_append.mp hpart
    · exact holds.own part hold
    · rw [List.mem_singleton.mp hnew]
      exact rules.boots _ config holds.shared
  | acted hpart hact =>
    obtain ⟨hshared, hown, hguarantee⟩ :=
      rules.keeps holds.shared (holds.own _ (List.mem_of_getElem? hpart)) hact
    refine ⟨hshared, ?_⟩
    intro part hmem
    obtain hold | rfl := List.mem_or_eq_of_mem_set hmem
    · exact rules.stable hguarantee (holds.own part hold)
    · exact hown
  | @stopped index part hpart =>
    refine ⟨holds.shared, ?_⟩
    intro other hmem
    obtain hold | rfl := List.mem_or_eq_of_mem_set hmem
    · exact holds.own other hold
    · exact holds.own part (List.mem_of_getElem? hpart)

/-- What every component guarantees and relies on holds in every reachable state. -/
theorem holds_of_run (rules : Rules boot act shared own guarantee) {start : σ} (initial : shared start)
    {trace : List (Components σ κ × Action ι ℓ)} {last : Components σ κ}
    (run : Run (step boot act) (.initial start) trace last) : Holds shared own last := by
  apply run.invariant along_true
  · exact ⟨initial, List.forall_mem_nil _⟩
  · intro before sys action next _ _ _ hstep holds
    exact holds.stepped rules (stepped hstep)

/-! ## Later states -/

/-- The components of a state are still there in a later one, at their places. -/
def Follows (related : Component κ → Component κ → Prop) (sys later : Components σ κ) : Prop :=
  ∀ (index : ℕ) (part : Component κ), sys.parts[index]? = some part →
    ∃ after, later.parts[index]? = some after ∧ related part after

/-- A component after some of its steps: it is as it was once it has stopped. -/
def Component.Evolves (grows : κ → κ → Prop) (part after : Component κ) : Prop :=
  grows part.own after.own ∧ (part.running = false → after = part)

section Later

variable {grows : κ → κ → Prop}

theorem follows_stepped (refl : ∀ own, grows own own)
    (acts : ∀ {state next label before after}, act state before label = some (next, after) → grows before after)
    {sys next : Components σ κ} {action : Action ι ℓ} (h : Stepped boot act sys action next) :
    Follows (Component.Evolves grows) sys next := by
  intro index part hpart
  cases h with
  | booted config =>
    refine ⟨part, ?_, refl _, fun _ ↦ rfl⟩
    obtain ⟨hlt, -⟩ := List.getElem?_eq_some_iff.mp hpart
    rwa [List.getElem?_append_left hlt]
  | @acted changed label before after shared hbefore hact =>
    obtain rfl | hne := eq_or_ne changed index
    · obtain rfl := Option.some.inj (hpart.symm.trans hbefore)
      obtain ⟨hlt, -⟩ := List.getElem?_eq_some_iff.mp hpart
      refine ⟨⟨after, true⟩, List.getElem?_set_self hlt, acts hact, ?_⟩
      intro hstopped
      cases hstopped
    · exact ⟨part, (List.getElem?_set_ne hne).trans hpart, refl _, fun _ ↦ rfl⟩
  | @stopped changed before hbefore =>
    obtain rfl | hne := eq_or_ne changed index
    · obtain rfl := Option.some.inj (hpart.symm.trans hbefore)
      obtain ⟨hlt, -⟩ := List.getElem?_eq_some_iff.mp hpart
      refine ⟨⟨part.own, false⟩, List.getElem?_set_self hlt, refl _, ?_⟩
      intro hstopped
      rw [← hstopped]
    · exact ⟨part, (List.getElem?_set_ne hne).trans hpart, refl _, fun _ ↦ rfl⟩

theorem follows_of_run (refl : ∀ own, grows own own)
    (trans : ∀ {first second third}, grows first second → grows second third → grows first third)
    (acts : ∀ {state next label before after}, act state before label = some (next, after) → grows before after)
    {sys later : Components σ κ} {trace : List (Components σ κ × Action ι ℓ)}
    (run : Run (step boot act) sys trace later) : Follows (Component.Evolves grows) sys later := by
  induction run with
  | nil => exact fun _ part hpart ↦ ⟨part, hpart, refl _, fun _ ↦ rfl⟩
  | snoc _ hstep ih =>
    intro index part hpart
    obtain ⟨middle, hmiddle, hgrown, hkept⟩ := ih index part hpart
    obtain ⟨after, hafter, hgrows, hstays⟩ := follows_stepped refl acts (stepped hstep) index middle hmiddle
    refine ⟨after, hafter, trans hgrown hgrows, ?_⟩
    intro hstopped
    obtain rfl := hkept hstopped
    exact hstays hstopped

end Later

/-! ## What the components hold together -/

variable {α : Type}

theorem flatMap_perm_of_getElem? {parts : List (Component κ)} {index : ℕ} {part : Component κ}
    (h : parts[index]? = some part) (held : κ → List α) :
    (parts.flatMap fun other ↦ held other.own).Perm
      (held part.own ++ (parts.eraseIdx index).flatMap fun other ↦ held other.own) := by
  obtain ⟨hlt, rfl⟩ := List.getElem?_eq_some_iff.mp h
  exact (List.getElem_cons_eraseIdx_perm hlt).symm.flatMap_right _

theorem flatMap_set_perm {parts : List (Component κ)} {index : ℕ} (h : index < parts.length)
    (part : Component κ) (held : κ → List α) :
    ((parts.set index part).flatMap fun other ↦ held other.own).Perm
      (held part.own ++ (parts.eraseIdx index).flatMap fun other ↦ held other.own) :=
  (List.set_perm_cons_eraseIdx h part).flatMap_right _

/-- What is added to the shared state by a step is with the component that has taken it. -/
theorem total_perm_of_run {total : σ → List α} {held : κ → List α} {start : σ} (initial : total start = [])
    (boots : ∀ config, held (boot config) = [])
    (adds : ∀ {before : List (Components σ κ × Action ι ℓ)} {sys : Components σ κ} {index : ℕ} {label : ℓ}
      {part after : κ} {shared : σ},
      Run (step boot act) (.initial start) before sys → sys.parts[index]? = some ⟨part, true⟩ →
      act sys.shared part label = some (shared, after) →
      ∃ new, (total shared).Perm (total sys.shared ++ new) ∧ (held after).Perm (held part ++ new))
    {trace : List (Components σ κ × Action ι ℓ)} {last : Components σ κ}
    (run : Run (step boot act) (.initial start) trace last) :
    (total last.shared).Perm (last.parts.flatMap fun part ↦ held part.own) := by
  apply run.invariant along_true
  · rw [Components.initial, initial]
    exact .nil
  · intro before sys action next hrun _ _ hstep hperm
    cases stepped hstep with
    | booted config => simpa [boots] using hperm
    | @acted index label part after shared hpart hact =>
      obtain ⟨hlt, -⟩ := List.getElem?_eq_some_iff.mp hpart
      obtain ⟨new, htotal, hheld⟩ := adds hrun hpart hact
      let others := (sys.parts.eraseIdx index).flatMap fun other ↦ held other.own
      have hafter : ((held part ++ new) ++ others).Perm (held after ++ others) := hheld.symm.append_right others
      have hswap : ((held part ++ others) ++ new).Perm ((held part ++ new) ++ others) := by
        rw [List.append_assoc, List.append_assoc]
        exact List.perm_append_comm.append_left _
      have hbefore : (total sys.shared).Perm (held part ++ others) :=
        hperm.trans (flatMap_perm_of_getElem? hpart held)
      apply htotal.trans
      apply (hbefore.append_right new).trans
      apply hswap.trans
      exact hafter.trans (flatMap_set_perm hlt ⟨after, true⟩ held).symm
    | @stopped index part hpart =>
      obtain ⟨hlt, -⟩ := List.getElem?_eq_some_iff.mp hpart
      apply (hperm.trans (flatMap_perm_of_getElem? hpart held)).trans
      exact (flatMap_set_perm hlt ⟨part.own, false⟩ held).symm

theorem exists_mem_of_getElem? {parts : List (Component κ)} {index : ℕ} {part : Component κ}
    (h : parts[index]? = some part) (held : κ → Prop) :
    (∃ other ∈ parts, held other.own) ↔ held part.own ∨ ∃ other ∈ parts.eraseIdx index, held other.own := by
  obtain ⟨hlt, rfl⟩ := List.getElem?_eq_some_iff.mp h
  simp only [← (List.getElem_cons_eraseIdx_perm hlt).mem_iff, List.mem_cons, exists_eq_or_imp]

theorem exists_mem_set {parts : List (Component κ)} {index : ℕ} (h : index < parts.length) (part : Component κ)
    (held : κ → Prop) :
    (∃ other ∈ parts.set index part, held other.own) ↔
      held part.own ∨ ∃ other ∈ parts.eraseIdx index, held other.own := by
  simp only [(List.set_perm_cons_eraseIdx h part).mem_iff, List.mem_cons, exists_eq_or_imp]

/-- What holds of the shared state by a step holds of the component that has taken it. -/
theorem total_iff_of_run {total : σ → Prop} {held : κ → Prop} {start : σ} (initial : ¬ total start)
    (boots : ∀ config, ¬ held (boot config))
    (adds : ∀ {before : List (Components σ κ × Action ι ℓ)} {sys : Components σ κ} {index : ℕ} {label : ℓ}
      {part after : κ} {shared : σ},
      Run (step boot act) (.initial start) before sys → sys.parts[index]? = some ⟨part, true⟩ →
      act sys.shared part label = some (shared, after) →
      ∃ new : Prop, (total shared ↔ total sys.shared ∨ new) ∧ (held after ↔ held part ∨ new))
    {trace : List (Components σ κ × Action ι ℓ)} {last : Components σ κ}
    (run : Run (step boot act) (.initial start) trace last) :
    total last.shared ↔ ∃ part ∈ last.parts, held part.own := by
  apply run.invariant along_true
  · exact iff_of_false initial fun ⟨_, hpart, _⟩ ↦ List.not_mem_nil hpart
  · intro before sys action next hrun _ _ hstep hiff
    cases stepped hstep with
    | booted config => simpa [boots, or_and_right, exists_or] using hiff
    | @acted index label part after shared hpart hact =>
      obtain ⟨hlt, -⟩ := List.getElem?_eq_some_iff.mp hpart
      obtain ⟨new, htotal, hheld⟩ := adds hrun hpart hact
      rw [exists_mem_of_getElem? hpart] at hiff
      rw [exists_mem_set hlt, htotal, hiff, hheld]
      exact or_right_comm
    | @stopped index part hpart =>
      obtain ⟨hlt, -⟩ := List.getElem?_eq_some_iff.mp hpart
      rw [exists_mem_of_getElem? hpart] at hiff
      rw [exists_mem_set hlt]
      exact hiff

end Components

end DecisionCore
