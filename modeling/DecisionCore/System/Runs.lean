import DecisionCore.System.Steps

/-!
# Runs of the system

Inversion of a step, the effects a step can have on the state, and the invariants of the trail that
follow from them: identifiers and idempotency keys occur once, and what was stored stays.
-/

namespace DecisionCore

open CommandHandler MerkleAnchorService

variable {env : Env}

/-! ## The task list -/

/-- What is left of a task after a move. -/
def Task.after (task : Task) : Move → List Task
  | .next pc => [{ task with pc }]
  | .finish _ => []

namespace System

variable {sys : System} {index : ℕ} {task : Task} {state : AppState} {move : Move}

theorem tasks_perm (h : sys.tasks[index]? = some task) :
    sys.tasks.Perm (task :: sys.tasks.eraseIdx index) := by
  obtain ⟨hlt, rfl⟩ := List.getElem?_eq_some_iff.mp h
  exact (List.getElem_cons_eraseIdx_perm hlt).symm

theorem count_tasks {α : Type} [DecidableEq α] (h : sys.tasks[index]? = some task) (f : Task → Option α)
    (a : α) :
    (sys.tasks.filterMap f).count a =
      (f task).toList.count a + ((sys.tasks.eraseIdx index).filterMap f).count a := by
  rw [((tasks_perm h).filterMap f).count_eq, List.filterMap_cons]
  cases f task <;> simp [List.count_cons, Nat.add_comm]

theorem advance_tasks_perm (h : sys.tasks[index]? = some task) :
    (sys.advance index task state move).tasks.Perm (task.after move ++ sys.tasks.eraseIdx index) := by
  obtain ⟨hlt, -⟩ := List.getElem?_eq_some_iff.mp h
  cases move with
  | next pc => exact List.set_perm_cons_eraseIdx hlt _
  | finish answer => exact .refl _

theorem count_advance {α : Type} [DecidableEq α] (h : sys.tasks[index]? = some task)
    (f : Task → Option α) (a : α) :
    ((sys.advance index task state move).tasks.filterMap f).count a =
      ((task.after move).filterMap f).count a + ((sys.tasks.eraseIdx index).filterMap f).count a := by
  rw [((advance_tasks_perm h).filterMap f).count_eq, List.filterMap_append, List.count_append]

/-- A property of all tasks survives a move when what is left of the task has it. -/
theorem forall_advance {p : Task → Prop} (h : sys.tasks[index]? = some task)
    (hall : ∀ other ∈ sys.tasks, p other) (hafter : ∀ other ∈ task.after move, p other) :
    ∀ other ∈ (sys.advance index task state move).tasks, p other := by
  intro other hother
  rcases List.mem_append.mp ((advance_tasks_perm h).mem_iff.mp hother) with hnew | hold
  · exact hafter other hnew
  · exact hall other (List.mem_of_mem_eraseIdx hold)

end System

/-! ## Sound tasks -/

def System.Sound (env : Env) (sys : System) : Prop := ∀ task ∈ sys.tasks, task.Sound env

theorem Task.sound_entry (call : Call) : Task.Sound env ⟨call, .entry⟩ := by
  constructor <;> simp

theorem Resumed.sound {now : Instant} {state next : AppState} {task : Task} {move : Move}
    (h : Resumed env now state task next move) (hsound : task.Sound env) :
    ∀ other ∈ task.after move, other.Sound env := by
  intro other hother
  cases h with
  | quiet _ _ _ _ hcalm =>
    cases hcalm with
    | gate hcall =>
      obtain rfl := List.mem_singleton.mp hother
      constructor <;> simp [hcall]
    | board hrebuild =>
      obtain rfl := List.mem_singleton.mp hother
      constructor <;> simp [hrebuild]
    | _ => cases hother
  | @committed _ commit hcommits _ _ _ =>
    obtain rfl := List.mem_singleton.mp hother
    constructor <;> simp
    exact ⟨commit, hcommits, _, rfl⟩
  | closed _ hcloser hjob _ _ =>
    obtain rfl := List.mem_singleton.mp hother
    constructor <;> simp [hcloser, hjob]
  | signed hpc =>
    obtain rfl := List.mem_singleton.mp hother
    obtain ⟨hcloser, hjob⟩ := hsound.sign _ hpc
    constructor <;> simp [hcloser, hjob]
  | @stamped job signature hpc =>
    obtain rfl := List.mem_singleton.mp hother
    obtain ⟨hcloser, hjob, hsignature⟩ := hsound.stamp _ _ hpc
    have hstamp : StampOk env ⟨job, signature, env.isoformat now⟩ := ⟨hjob, hsignature, now, rfl⟩
    constructor <;> simp [hcloser, hstamp, anchorOps]
  | @anchored stamped op todo next hpc _ =>
    obtain ⟨hcloser, hstamp, -, hsuffix⟩ := hsound.anchoring _ _ hpc
    cases todo with
    | nil => cases hother
    | cons op' todo =>
      obtain rfl := List.mem_singleton.mp hother
      have htail : op' :: todo <:+ anchorOps stamped.job := (List.suffix_cons _ _).trans hsuffix
      constructor <;> simp [hcloser, hstamp, htail]
  | _ => cases hother

/-! ## Inversion of a step -/

/-- Everything a step can do. -/
inductive Stepped (env : Env) (sys : System) : Label → System → Prop
  | started {call : Call} :
    Stepped env sys (.start call) { sys with tasks := sys.tasks ++ [⟨call, .entry⟩] }
  | resumed {index : ℕ} {now : Instant} {task : Task} {state : AppState} {move : Move} :
    sys.tasks[index]? = some task → task.Sound env → Resumed env now sys.state task state move →
    resume env now sys.state task = (state, move) →
    Stepped env sys (.resume index now) (sys.advance index task state move)
  | failed {index : ℕ} {took : Bool} {task : Task} :
    sys.tasks[index]? = some task → task.Sound env → task.call.isCloser = true →
    Stepped env sys (.fail index took)
      (sys.drop index task took (if took then failedEffect env sys.state task else sys.state))

theorem stepped {sys next : System} {label : Label} (hsound : sys.Sound env)
    (h : sys.step env label = some next) : Stepped env sys label next := by
  cases label with
  | start call =>
    obtain rfl := Option.some.inj h
    exact .started
  | resume index now =>
    obtain ⟨task, htask, hnext⟩ := Option.bind_eq_some_iff.mp h
    obtain rfl := Option.some.inj hnext
    have hmem := hsound task (List.mem_of_getElem? htask)
    exact .resumed htask hmem (resume_cases hmem) rfl
  | fail index took =>
    obtain ⟨task, htask, hnext⟩ := Option.bind_eq_some_iff.mp h
    by_cases hcloser : task.call.isCloser = true
    · rw [if_pos hcloser] at hnext
      obtain rfl := Option.some.inj hnext
      exact .failed htask (hsound task (List.mem_of_getElem? htask)) hcloser
    · rw [if_neg hcloser] at hnext
      cases hnext

theorem Stepped.sound {sys next : System} {label : Label} (h : Stepped env sys label next)
    (hsound : sys.Sound env) : next.Sound env := by
  cases h with
  | started =>
    intro task htask
    rcases List.mem_append.mp htask with hold | hnew
    · exact hsound task hold
    · obtain rfl := List.mem_singleton.mp hnew
      exact Task.sound_entry _
  | resumed htask htaskSound hres => exact System.forall_advance htask hsound (hres.sound htaskSound)
  | failed htask _ _ => exact fun task hmem ↦ hsound task (List.mem_of_mem_eraseIdx hmem)

section Invariants

variable {maxLeaves : ℤ} {maxSeconds : ℚ} {trace : List (System × Label)} {last : System}

theorem Run.sound (run : Run (System.step env) (System.initial maxLeaves maxSeconds) trace last) :
    last.Sound env := by
  apply run.invariant along_true
  · simp [System.Sound, System.initial]
  · intro before sys label next _ _ _ hstep hsound
    exact (stepped hsound hstep).sound hsound

/-- An invariant needs to be kept by the allowed steps from states that allowed runs reach. -/
theorem Run.keeps {allowed : System → Label → Prop}
    (run : Run (System.step env) (System.initial maxLeaves maxSeconds) trace last) (inv : System → Prop)
    (along : Along allowed trace) (initial : inv (System.initial maxLeaves maxSeconds))
    (preserved : ∀ {before sys label next},
      Run (System.step env) (System.initial maxLeaves maxSeconds) before sys → Along allowed before →
      allowed sys label → Stepped env sys label next → inv sys → inv next) :
    inv last :=
  run.invariant along initial
    fun hrun hbefore hallowed hstep ↦ preserved hrun hbefore hallowed (stepped hrun.sound hstep)

/-- An invariant of every run. -/
theorem Run.always
    (run : Run (System.step env) (System.initial maxLeaves maxSeconds) trace last) (inv : System → Prop)
    (initial : inv (System.initial maxLeaves maxSeconds))
    (preserved : ∀ {before sys label next},
      Run (System.step env) (System.initial maxLeaves maxSeconds) before sys →
      Stepped env sys label next → inv sys → inv next) :
    inv last :=
  run.keeps inv along_true initial
    fun hrun _ _ hstepped hinv ↦ preserved hrun hstepped hinv

end Invariants

/-! ## Effects on the state -/

/-- The effects a step can have on the state. -/
inductive Changes (env : Env) (state : AppState) : AppState → Prop
  | appended {next : AppState} {stored : Option Entry} :
    Appends env state next stored → Changes env state next
  | added (step : AddLeafStep) : Changes env state (commitFinish state step).1
  | wrote (key : String) (row : StoreRow) :
    Changes env state { state with projectionStore := state.projectionStore.set key row }
  | closed : Changes env state
      { state with
        merkleBuilder := { state.merkleBuilder with pending := [], firstLeafTs := none }
        drawn := state.drawn + 1 }
  | marked (eventIds : List String) :
    Changes env state { state with auditTrail := state.auditTrail.markBatched eventIds }

theorem Changes.refl (state : AppState) : Changes env state state := .appended (.refl state)

theorem Ran.changes {state : AppState} {stamped : StampedJob} {op : AnchorOp}
    {outcome : AppState × Except PyError Unit} (h : Ran env state stamped op outcome) :
    Changes env state outcome.1 := by
  cases h with
  | unproved _ => exact .refl state
  | row _ => exact .wrote _ _
  | published happends => exact .appended happends
  | marked => exact .marked _

theorem Resumed.changes {now : Instant} {state next : AppState} {task : Task} {move : Move}
    (h : Resumed env now state task next move) : Changes env state next := by
  cases h with
  | quiet happends _ _ _ _ => exact .appended happends
  | committed _ _ _ happends => exact .appended happends
  | added _ => exact .added _
  | stored _ => exact .wrote _ _
  | closed _ _ _ _ _ => exact .closed
  | signed _ => exact .refl state
  | stamped _ => exact .refl state
  | anchored _ hran => exact hran.changes

theorem failedEffect_changes (state : AppState) (task : Task) :
    Changes env state (failedEffect env state task) := by
  unfold failedEffect
  split
  · exact (runOp_cases env state _ _).changes
  · exact .refl state

theorem Stepped.changes {sys next : System} {label : Label} (h : Stepped env sys label next) :
    Changes env sys.state next.state := by
  cases h with
  | started => exact .refl _
  | resumed _ _ hres => exact hres.changes
  | @failed index took task _ _ _ =>
    cases took with
    | false => exact .refl _
    | true => exact failedEffect_changes sys.state task

/-! ## The trail -/

/-- Identifiers and idempotency keys of the trail occur once, and the index knows the keys. -/
structure TrailOk (env : Env) (state : AppState) : Prop where
  drawn : ∀ entry ∈ state.auditTrail.events, ∃ n < state.drawn, entry.eventId = env.uuid4 n
  ids : (state.auditTrail.events.map (·.eventId)).Nodup
  keys : (state.auditTrail.events.filterMap (·.idempotencyKey)).Nodup
  indexed : ∀ key, state.auditTrail.idempotencyIndex.get? key = none ↔
    key ∉ state.auditTrail.events.filterMap (·.idempotencyKey)

theorem TrailOk.initial (maxLeaves : ℤ) (maxSeconds : ℚ) :
    TrailOk env (AppState.initial maxLeaves maxSeconds) := by
  constructor <;> simp [AppState.initial, MemoryAuditTrail.empty]

theorem TrailOk.appended {state next : AppState} {stored : Option Entry} (h : TrailOk env state)
    (happends : Appends env state next stored) : TrailOk env next := by
  cases stored with
  | none =>
    have hevents : next.auditTrail.events = state.auditTrail.events := by simpa using happends.events
    have hdrawn : state.drawn ≤ next.drawn := by simpa using happends.drawn
    refine ⟨?_, by rw [hevents]; exact h.ids, by rw [hevents]; exact h.keys, ?_⟩
    · intro entry hentry
      obtain ⟨n, hn, hid⟩ := h.drawn entry (hevents ▸ hentry)
      exact ⟨n, hn.trans_le hdrawn, hid⟩
    · intro key
      rw [happends.index, hevents, ← h.indexed key]
      simp
  | some entry =>
    have hevents : next.auditTrail.events = state.auditTrail.events ++ [entry] := by
      simpa using happends.events
    have hid := happends.eventId entry rfl
    have hdrawn : state.drawn + 1 ≤ next.drawn := by simpa using happends.drawn
    have hnew : ∀ old ∈ state.auditTrail.events, old.eventId ≠ entry.eventId := by
      intro old hold heq
      obtain ⟨n, hn, hidold⟩ := h.drawn old hold
      have := env.uuid4_injective (hidold.symm.trans (heq.trans hid))
      omega
    refine ⟨?_, ?_, ?_, ?_⟩
    · intro other hother
      rw [hevents, List.mem_append, List.mem_singleton] at hother
      rcases hother with hold | rfl
      · obtain ⟨n, hn, hidold⟩ := h.drawn other hold
        exact ⟨n, by omega, hidold⟩
      · exact ⟨state.drawn, hdrawn, hid⟩
    · rw [hevents, List.map_append, List.nodup_append]
      refine ⟨h.ids, List.nodup_singleton _, ?_⟩
      intro first hfirst second hsecond
      obtain ⟨old, hold, rfl⟩ := List.mem_map.mp hfirst
      obtain rfl : second = entry.eventId := by simpa using hsecond
      exact hnew old hold
    · rw [hevents, List.filterMap_append, List.nodup_append]
      refine ⟨h.keys, ?_, ?_⟩
      · cases hkey : entry.idempotencyKey <;> simp [hkey]
      · intro first hfirst second hsecond heq
        obtain ⟨other, hother, hkey⟩ := List.mem_filterMap.mp hsecond
        obtain rfl : other = entry := List.mem_singleton.mp hother
        exact (h.indexed second).mp (happends.unseen other rfl second hkey) (heq ▸ hfirst)
    · intro key
      rw [happends.index, hevents, List.filterMap_append]
      by_cases hkey : entry.idempotencyKey = some key
      · simp [hkey]
      · have hindexed := h.indexed key
        cases hentry : entry.idempotencyKey with
        | none => simpa [hentry] using hindexed
        | some other =>
          have hne : other ≠ key := by
            rintro rfl
            exact hkey hentry
          simpa [hentry, hne, Ne.symm hne] using hindexed

theorem TrailOk.changed {state next : AppState} (h : TrailOk env state)
    (hchanges : Changes env state next) : TrailOk env next := by
  cases hchanges with
  | appended happends => exact h.appended happends
  | added step => exact ⟨h.drawn, h.ids, h.keys, h.indexed⟩
  | wrote key row => exact ⟨h.drawn, h.ids, h.keys, h.indexed⟩
  | closed =>
    refine ⟨?_, h.ids, h.keys, h.indexed⟩
    intro entry hentry
    obtain ⟨n, hn, hid⟩ := h.drawn entry hentry
    exact ⟨n, hn.trans (Nat.lt_succ_self _), hid⟩
  | marked eventIds => exact ⟨h.drawn, h.ids, h.keys, h.indexed⟩

/-- What later states keep of a state: its events in place, its rows' keys and its marks. -/
structure Persists (state next : AppState) : Prop where
  events : state.auditTrail.events <+: next.auditTrail.events
  rows : ∀ key, (state.projectionStore.get? key).isSome = true →
    (next.projectionStore.get? key).isSome = true
  batched : state.auditTrail.batched ⊆ next.auditTrail.batched

theorem Persists.refl (state : AppState) : Persists state state :=
  ⟨List.prefix_rfl, fun _ h ↦ h, subset_rfl⟩

theorem Persists.trans {first second third : AppState} (h₁ : Persists first second)
    (h₂ : Persists second third) : Persists first third :=
  ⟨h₁.events.trans h₂.events, fun key h ↦ h₂.rows key (h₁.rows key h), h₁.batched.trans h₂.batched⟩

theorem Changes.persists {state next : AppState} (h : Changes env state next) : Persists state next := by
  cases h with
  | appended happends =>
    refine ⟨?_, ?_, ?_⟩
    · rw [happends.events]
      exact List.prefix_append _ _
    · rw [happends.store]
      exact fun _ h ↦ h
    · rw [happends.batched]
  | added step => exact ⟨List.prefix_rfl, fun _ h ↦ h, subset_rfl⟩
  | wrote key row =>
    refine ⟨List.prefix_rfl, ?_, subset_rfl⟩
    intro other hother
    rw [Dict.get?_set]
    split
    · rfl
    · exact hother
  | closed => exact ⟨List.prefix_rfl, fun _ h ↦ h, subset_rfl⟩
  | marked eventIds => exact ⟨List.prefix_rfl, fun _ h ↦ h, Finset.subset_union_left⟩

section Runs

variable {maxLeaves : ℤ} {maxSeconds : ℚ} {trace : List (System × Label)} {last : System}

theorem Run.trailOk (run : Run (System.step env) (System.initial maxLeaves maxSeconds) trace last) :
    TrailOk env last.state :=
  run.always (fun sys ↦ TrailOk env sys.state) (TrailOk.initial maxLeaves maxSeconds)
    fun _ hstepped h ↦ h.changed hstepped.changes

/-- Later states of a run keep what a state of it has. -/
theorem Run.persists {rest : List (System × Label)} {later : System}
    (run : Run (System.step env) (System.initial maxLeaves maxSeconds) trace last)
    (after : Run (System.step env) last rest later) : Persists last.state later.state := by
  induction after with
  | nil => exact .refl _
  | snoc hafter hstep ih => exact ih.trans (stepped (run.append hafter).sound hstep).changes.persists

end Runs

end DecisionCore
