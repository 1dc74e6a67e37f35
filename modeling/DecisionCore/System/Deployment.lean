import DecisionCore.Lib.Components
import DecisionCore.System.ExactlyOnce

/-!
# Processes over one trail

The service is deployed as several processes, the REST and the gRPC server among them, that share the trail
and the projection store; the open batch and the staged proposals are each process's own.  A process that
stops takes its open batch, its calls and its staged proposals with it, and a restart is the start of
another process.  The trail appends as the in-memory adapter does, which is how the Postgres adapter appends.
-/

namespace DecisionCore

open CommandHandler MerkleAnchorService

/-- What the processes share; an identifier is drawn by no two of them. -/
structure Shared where
  auditTrail : MemoryAuditTrail
  projectionStore : ProjectionStore
  drawn : ℕ

/-- What is one process's own, with a history of what it did. -/
structure Process where
  merkleBuilder : MerkleBatchBuilder
  staging : Staging
  tasks : List Task
  history : History
  /-- The events its steps have appended to the trail. -/
  stored : List Entry

def AppState.shared (state : AppState) : Shared := ⟨state.auditTrail, state.projectionStore, state.drawn⟩

namespace Process

/-- `build_app_state` with the limits of the builder. -/
def boot (limits : ℤ × ℚ) : Process :=
  ⟨.new limits.1 limits.2, .empty, [], ⟨[], [], [], [], []⟩, []⟩

/-- The process over the shared state, which it takes for its own. -/
def system (process : Process) (shared : Shared) : System where
  state := ⟨shared.auditTrail, process.merkleBuilder, process.staging, shared.projectionStore, shared.drawn⟩
  tasks := process.tasks
  history := process.history

/-- The process after a step that leaves this system behind. -/
def after (process : Process) (shared : Shared) (next : System) : Process where
  merkleBuilder := next.state.merkleBuilder
  staging := next.state.staging
  tasks := next.tasks
  history := next.history
  stored := process.stored ++ next.state.auditTrail.events.drop shared.auditTrail.events.length

def act (env : Env) (shared : Shared) (process : Process) (label : Label) : Option (Shared × Process) :=
  ((process.system shared).step env label).map fun next ↦ (next.state.shared, process.after shared next)

/-- The calls the process was given, in flight or answered. -/
def calls (process : Process) : List Call :=
  process.tasks.map (·.call) ++ process.history.answers.map Prod.fst

end Process

abbrev Deployment := Components Shared Process

namespace Deployment

def initial : Deployment := Components.initial ⟨.empty, .empty, 0⟩

def step (env : Env) : Deployment → Components.Action (ℤ × ℚ) Label → Option Deployment :=
  Components.step Process.boot (Process.act env)

end Deployment

variable {env : Env} {shared next : Shared} {process after : Process} {label : Label}

/-! ## Steps of a process -/

theorem Process.act_cases (sound : ∀ task ∈ process.tasks, task.Sound env)
    (h : Process.act env shared process label = some (next, after)) :
    ∃ sys, Stepped env (process.system shared) label sys ∧ next = sys.state.shared ∧
      after = process.after shared sys := by
  obtain ⟨sys, hstep, hpair⟩ := Option.map_eq_some_iff.mp h
  obtain ⟨rfl, rfl⟩ := Prod.mk.inj hpair
  exact ⟨sys, stepped sound hstep, rfl, rfl⟩

/-- The events that a step appends. -/
theorem Stepped.stored_eq {sys : System} {stored : List Entry}
    (hevents : sys.state.auditTrail.events = shared.auditTrail.events ++ stored) :
    (process.after shared sys).stored = process.stored ++ stored := by
  rw [Process.after, hevents, List.drop_left]

/-- What a process has at least in later states. -/
structure Process.Grows (first second : Process) : Prop where
  stored : first.stored <+: second.stored
  answers : first.history.answers <+: second.history.answers

theorem Process.Grows.refl (process : Process) : process.Grows process := ⟨List.prefix_rfl, List.prefix_rfl⟩

theorem Process.Grows.trans {first second third : Process} (h₁ : first.Grows second) (h₂ : second.Grows third) :
    first.Grows third :=
  ⟨h₁.stored.trans h₂.stored, h₁.answers.trans h₂.answers⟩

theorem Process.Grows.of_act (h : Process.act env shared process label = some (next, after)) :
    process.Grows after := by
  obtain ⟨sys, hstep, hpair⟩ := Option.map_eq_some_iff.mp h
  obtain ⟨-, rfl⟩ := Prod.mk.inj hpair
  refine ⟨List.prefix_append _ _, ?_⟩
  cases label with
  | start call =>
    obtain rfl := Option.some.inj hstep
    exact List.prefix_rfl
  | resume index now =>
    obtain ⟨task, -, hsome⟩ := Option.bind_eq_some_iff.mp hstep
    obtain rfl := Option.some.inj hsome
    simp only [Process.after, System.advance]
    split
    · exact List.prefix_rfl
    · exact List.prefix_append _ _
  | fail index took =>
    obtain ⟨task, -, hsome⟩ := Option.bind_eq_some_iff.mp hstep
    split at hsome
    · obtain rfl := Option.some.inj hsome
      exact List.prefix_append _ _
    · cases hsome

/-- A call stays one of the calls of its process. -/
theorem Stepped.calls_subset {sys : System} (h : Stepped env (process.system shared) label sys) :
    ∀ call ∈ process.calls, call ∈ (process.after shared sys).calls := by
  intro call hcall
  rw [Process.calls, List.mem_append] at hcall ⊢
  cases h with
  | started =>
    apply hcall.imp_left
    intro hold
    exact List.map_append ▸ List.mem_append_left _ hold
  | @resumed index now task state move htask _ _ _ =>
    obtain hflight | hanswered := hcall
    · obtain ⟨other, hother, rfl⟩ := List.mem_map.mp hflight
      obtain rfl | hrest := List.mem_cons.mp ((System.tasks_perm htask).mem_iff.mp hother)
      · cases move with
        | next pc =>
          have hmem : { other with pc } ∈ ((process.system shared).advance index other state (.next pc)).tasks :=
            (System.advance_tasks_perm htask).mem_iff.mpr (List.mem_append_left _ List.mem_cons_self)
          exact .inl (List.mem_map.mpr ⟨_, hmem, rfl⟩)
        | finish answer =>
          apply Or.inr
          exact List.mem_map.mpr ⟨(other.call, answer), List.mem_append_right _ List.mem_cons_self, rfl⟩
      · have hmem : other ∈ ((process.system shared).advance index task state move).tasks :=
          (System.advance_tasks_perm htask).mem_iff.mpr (List.mem_append_right _ hrest)
        exact .inl (List.mem_map.mpr ⟨other, hmem, rfl⟩)
    · apply Or.inr
      obtain ⟨pair, hpair, rfl⟩ := List.mem_map.mp hanswered
      cases move with
      | next pc => exact List.mem_map.mpr ⟨pair, hpair, rfl⟩
      | finish answer => exact List.mem_map.mpr ⟨pair, List.mem_append_left _ hpair, rfl⟩
  | @failed index took task htask _ _ =>
    obtain hflight | hanswered := hcall
    · obtain ⟨other, hother, rfl⟩ := List.mem_map.mp hflight
      obtain rfl | hrest := List.mem_cons.mp ((System.tasks_perm htask).mem_iff.mp hother)
      · apply Or.inr
        exact List.mem_map.mpr ⟨(other.call, .error .external), List.mem_append_right _ List.mem_cons_self, rfl⟩
      · exact .inl (List.mem_map.mpr ⟨other, hrest, rfl⟩)
    · apply Or.inr
      obtain ⟨pair, hpair, rfl⟩ := List.mem_map.mp hanswered
      exact List.mem_map.mpr ⟨pair, List.mem_append_left _ hpair, rfl⟩

/-- A step appends one event at most, and for a call of its process. -/
theorem Stepped.stores {sys : System} (h : Stepped env (process.system shared) label sys) :
    ∃ stored : Option Entry, sys.state.auditTrail.events = shared.auditTrail.events ++ stored.toList ∧
      ∀ entry ∈ stored, ∃ call ∈ process.calls, call.Stores env entry := by
  have hcall {task : Task} {index : ℕ} (htask : (process.system shared).tasks[index]? = some task) :
      task.call ∈ process.calls :=
    List.mem_append_left _ (List.mem_map.mpr ⟨task, List.mem_of_getElem? htask, rfl⟩)
  cases h with
  | started => exact ⟨none, (List.append_nil _).symm, by simp⟩
  | resumed htask hsound hres =>
    obtain ⟨stored, hevents, hstores⟩ := hres.stores hsound
    exact ⟨stored, hevents, fun entry hentry ↦ ⟨_, hcall htask, hstores entry hentry⟩⟩
  | @failed index took task htask hsound _ =>
    cases took with
    | false => exact ⟨none, (List.append_nil _).symm, by simp⟩
    | true =>
      obtain ⟨stored, hevents, hstores⟩ : ∃ stored : Option Entry,
          (failedEffect env (process.system shared).state task).auditTrail.events =
            shared.auditTrail.events ++ stored.toList ∧ ∀ entry ∈ stored, task.call.Stores env entry :=
        failedEffect_stores hsound
      exact ⟨stored, hevents, fun entry hentry ↦ ⟨_, hcall htask, hstores entry hentry⟩⟩

/-! ## The ledger of one process -/

/-- The process over a trail that holds its own events and marks only. -/
def Process.ownSystem (process : Process) : System where
  state := ⟨⟨process.stored, .empty, (eventIdsOf process.history.marked).toFinset⟩, process.merkleBuilder,
    process.staging, .empty, 0⟩
  tasks := process.tasks
  history := process.history

theorem Stepped.ledger_own {sys : System} (h : Stepped env (process.system shared) label sys)
    (ledger : Ledger env process.ownSystem) : Ledger env (process.after shared sys).ownSystem := by
  -- The own trail after a step that appends `stored` and marks `marked`.
  have hstate (stored : Option Entry) (marked : List AnchorJob)
      (hevents : sys.state.auditTrail.events = shared.auditTrail.events ++ stored.toList)
      (hmarked : sys.history.marked = process.history.marked ++ marked) :
      (process.after shared sys).ownSystem.state =
        ⟨⟨process.stored ++ stored.toList, .empty, (eventIdsOf (process.history.marked ++ marked)).toFinset⟩,
          sys.state.merkleBuilder, sys.state.staging, .empty, 0⟩ := by
    simp only [Process.ownSystem, stored_eq hevents]
    simp only [Process.after, hmarked]
  cases h with
  | @started call =>
    have hstarted := ledger.started call
    have hstored : (process.after shared { process.system shared with
        tasks := (process.system shared).tasks ++ [⟨call, .entry⟩] }).stored = process.stored := by
      rw [stored_eq (List.append_nil shared.auditTrail.events).symm, List.append_nil]
    simp only [Process.ownSystem] at hstarted ⊢
    rw [hstored]
    exact hstarted
  | @resumed index now task state move htask hsound hres _ =>
    obtain ⟨stored, hbooked⟩ := hres.booked hsound
    have hown := hstate stored task.marks?.toList hbooked.events rfl
    have hbatched : (eventIdsOf (process.history.marked ++ task.marks?.toList)).toFinset =
        (eventIdsOf process.history.marked).toFinset ∪ (eventIdsOf task.marks?.toList).toFinset := by
      rw [eventIdsOf_append, List.toFinset_append]
    have hbookedOwn : Booked process.ownSystem.state
        (process.after shared ((process.system shared).advance index task state move)).ownSystem.state task move
        stored := by
      refine ⟨?_, hbooked.leaves, hbooked.keys, hbooked.jobs, hbooked.pending, ?_⟩
      · exact congrArg (·.auditTrail.events) hown
      · exact (congrArg (·.auditTrail.batched) hown).trans hbatched
    exact ledger.advanced htask hbookedOwn
  | @failed index took task htask hsound hcloser =>
    obtain ⟨stored, hspoiled⟩ := Spoiled.of_fail (process.system shared).state hsound hcloser took
    have hown := hstate stored (task.markedBy took).toList hspoiled.events rfl
    have hbatched : (eventIdsOf (process.history.marked ++ (task.markedBy took).toList)).toFinset =
        (eventIdsOf process.history.marked).toFinset ∪ (eventIdsOf (task.markedBy took).toList).toFinset := by
      rw [eventIdsOf_append, List.toFinset_append]
    have hspoiledOwn : Spoiled process.ownSystem.state
        (process.after shared ((process.system shared).drop index task took
          (if took then failedEffect env (process.system shared).state task
            else (process.system shared).state))).ownSystem.state task took stored := by
      refine ⟨?_, hspoiled.leaves, hspoiled.keys, hspoiled.adding, hspoiled.addingKey, hspoiled.pending, ?_⟩
      · exact congrArg (·.auditTrail.events) hown
      · exact (congrArg (·.auditTrail.batched) hown).trans hbatched
    exact ledger.dropped htask hspoiledOwn

end DecisionCore
