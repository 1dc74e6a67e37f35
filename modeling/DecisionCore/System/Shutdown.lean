import DecisionCore.Lib.Termination
import DecisionCore.System.Timely

/-!
# Shutdown

When the service stops it takes no more calls and flushes the open batch.  Whatever is in flight then has only so many
segments left, in whatever order they are run: a leaf in the open batch stands for the proof row and the publication it
costs the closer that takes it.
-/

namespace DecisionCore

open CommandHandler MerkleAnchorService

variable {env : Env}

/-! ## Work -/

/-- A bound on the segments a suspended call has left, apart from those for the leaves it will find in the batch. -/
def Pc.work : Pc → ℕ
  | entry => 5
  | reconciledGate _ => 4
  | addLeaf _ => 3
  | storeBoard _ => 1
  | sign job => (anchorOps job).length + 2
  | stamp job _ => (anchorOps job).length + 1
  | anchoring _ todo => todo.length

def Move.work : Move → ℕ
  | next pc => pc.work
  | finish _ => 0

/-- A bound on the segments all calls in flight have left. -/
def System.work (sys : System) : ℕ :=
  (sys.tasks.map (·.pc.work)).sum + 2 * sys.state.merkleBuilder.pending.length

theorem length_anchorOps_le {job : AnchorJob} (h : JobOk env job) :
    (anchorOps job).length ≤ 2 * job.pending.length + 2 := by
  have hcovered : (coveredDecisions job).length ≤ job.pending.length := by
    have hdedup := (List.dedup_sublist (job.pending.map (·.decisionId))).length_le
    rw [List.length_map] at hdedup
    rwa [coveredDecisions, sortedSet, sorted, List.length_insertionSort]
  simp only [anchorOps, h.leaves, List.length_append, List.length_mapIdx, List.length_map, List.length_cons,
    List.length_nil]
  omega

theorem Calm.work_le {call : Call} {move : Move} (h : Calm call move) : move.work ≤ 4 := by
  cases h <;> simp [Move.work, Pc.work]

section Segments

variable {now : Instant} {state next : AppState} {task : Task} {move : Move}

/-- The first segment of a call. -/
theorem Resumed.entry_spends (h : Resumed env now state task next move) (hpc : task.pc = .entry) :
    move.work + 2 * next.merkleBuilder.pending.length < 5 + 2 * state.merkleBuilder.pending.length := by
  cases h with
  | quiet happends _ _ _ hcalm =>
    have := hcalm.work_le
    rw [happends.builder]
    omega
  | committed _ _ _ happends =>
    rw [happends.builder]
    simp only [Move.work, Pc.work]
    omega
  | closed _ _ hjob hpending _ =>
    have hlength := length_anchorOps_le hjob
    rw [hpending] at hlength
    simp only [Move.work, Pc.work, List.length_nil]
    omega
  | added hother => cases hpc.symm.trans hother
  | stored hother => cases hpc.symm.trans hother
  | signed hother => cases hpc.symm.trans hother
  | stamped hother => cases hpc.symm.trans hother
  | anchored hother _ => cases hpc.symm.trans hother

theorem Move.work_ofProgress (progress : Except PyError Progress) : (Move.ofProgress progress).work ≤ 3 := by
  cases progress with
  | error error => exact Nat.zero_le 3
  | ok progress => cases progress <;> simp [Move.ofProgress, Move.work, Pc.work]

/-- A segment behind the first one leaves the open batch alone, unless it adds a leaf. -/
theorem Resumed.builder_eq (h : Resumed env now state task next move) (hadd : task.addLeaf? = none)
    (hpc : task.pc ≠ .entry) : next.merkleBuilder = state.merkleBuilder := by
  cases h with
  | quiet happends _ _ _ _ => exact happends.builder
  | committed _ _ _ happends => exact happends.builder
  | added hother => simp [Task.addLeaf?, hother] at hadd
  | stored _ => rfl
  | closed hentry _ _ _ _ => exact absurd hentry hpc
  | signed _ => rfl
  | stamped _ => rfl
  | anchored _ hran => exact hran.builder

/-- An await of the straight line leaves those behind it. -/
theorem anchoring_work {stamped : StampedJob} {todo : List AnchorOp} (hsound : task.Sound env)
    (hpc : task.pc = .anchoring stamped todo) : (resume env now state task).2.work < todo.length := by
  obtain ⟨-, hstamp, hne, hsuffix⟩ := hsound.anchoring stamped todo hpc
  cases todo with
  | nil => exact absurd rfl hne
  | cons op todo =>
    obtain ⟨after, hrun, -⟩ := hstamp.ran state (hsuffix.subset List.mem_cons_self)
    simp only [resume, hpc, hrun, List.length_cons]
    apply Nat.lt_succ_of_le
    split
    · exact Nat.zero_le _
    · exact le_rfl

/-- Every segment behind the first one goes on to a later one, or ends the call. -/
theorem resume_work (hsound : task.Sound env) (hentry : task.pc ≠ .entry) :
    (resume env now state task).2.work < task.pc.work := by
  cases hpc : task.pc with
  | entry => exact absurd hpc hentry
  | reconciledGate payload =>
    simp only [resume, hpc]
    exact Nat.lt_succ_of_le (Move.work_ofProgress _)
  | anchoring stamped todo => exact anchoring_work hsound hpc
  | addLeaf step => simp [resume, hpc, Move.work, Pc.work]
  | storeBoard board => simp [resume, hpc, Move.work, Pc.work]
  | sign job => simp [resume, hpc, Move.work, Pc.work]
  | stamp job signature => simp [resume, hpc, Move.work, Pc.work]

/-- Every segment leaves less to do. -/
theorem resume_spends (hsound : task.Sound env) (h : resume env now state task = (next, move)) :
    move.work + 2 * next.merkleBuilder.pending.length < task.pc.work + 2 * state.merkleBuilder.pending.length := by
  have hres : Resumed env now state task next move := by
    have hcases : Resumed env now state task (resume env now state task).1 (resume env now state task).2 :=
      resume_cases hsound
    rwa [h] at hcases
  cases hpc : task.pc with
  | entry => exact hres.entry_spends hpc
  | addLeaf step =>
    rw [resume, hpc] at h
    obtain ⟨rfl, rfl⟩ := Prod.mk.inj h
    simp only [MerkleBatchBuilder.addLeaf, Move.work, Pc.work, List.length_append, List.length_singleton]
    omega
  | _ =>
    have hentry : task.pc ≠ .entry := by simp [hpc]
    have hwork : (resume env now state task).2.work < task.pc.work := resume_work hsound hentry
    rw [hres.builder_eq (by simp [Task.addLeaf?, hpc]) hentry, ← hpc]
    rw [h] at hwork
    exact Nat.add_lt_add_right hwork _

end Segments

/-! ## Runs of segments -/

/-- The step runs a segment: no call comes in and no await fails. -/
def Label.Resumes : Label → Prop
  | resume _ _ => True
  | _ => False

section Work

variable {sys : System} {index : ℕ} {task : Task} {state : AppState} {move : Move}

theorem System.work_of_task (h : sys.tasks[index]? = some task) :
    sys.work = task.pc.work + ((sys.tasks.eraseIdx index).map (·.pc.work)).sum +
      2 * sys.state.merkleBuilder.pending.length := by
  rw [System.work, ((tasks_perm h).map (·.pc.work)).sum_eq, List.map_cons, List.sum_cons]

theorem System.work_advance (h : sys.tasks[index]? = some task) :
    (sys.advance index task state move).work = move.work + ((sys.tasks.eraseIdx index).map (·.pc.work)).sum +
      2 * state.merkleBuilder.pending.length := by
  have hafter : ((task.after move).map (·.pc.work)).sum = move.work := by
    cases move <;> rfl
  rw [System.work, ((advance_tasks_perm h).map (·.pc.work)).sum_eq, List.map_append, List.sum_append, hafter]
  rfl

theorem Stepped.spends {next : System} {label : Label} (h : Stepped env sys label next) (hresumes : label.Resumes) :
    next.work < sys.work := by
  cases h with
  | started => exact hresumes.elim
  | failed _ _ _ => exact hresumes.elim
  | resumed htask hsound _ hresume =>
    have hspent := resume_spends hsound hresume
    rw [System.work_advance htask, System.work_of_task htask]
    omega

end Work

section Shutdown

variable {maxLeaves : ℤ} {maxSeconds : ℚ} {before rest : List (System × Label)} {sys last : System}

/-- From every reachable state the calls in flight have only so many segments left, in whatever order they run. -/
theorem Run.spends (run : Run (System.step env) (System.initial maxLeaves maxSeconds) before sys) :
    Spends (System.step env) sys (fun _ label ↦ label.Resumes) System.work := by
  intro trace last label next hrun _ hresumes hstep
  exact (stepped (run.append hrun).sound hstep).spends hresumes

/-- While a call is in flight, a segment of it can be run. -/
theorem System.goes {sys : System} (h : sys.tasks ≠ []) :
    ∃ label next, label.Resumes ∧ sys.step env label = some next := by
  obtain ⟨task, tasks, htasks⟩ := List.exists_cons_of_ne_nil h
  have hfirst : sys.tasks[0]? = some task := by rw [htasks]; rfl
  exact ⟨.resume 0 0, _, trivial, Option.bind_eq_some_iff.mpr ⟨task, hfirst, rfl⟩⟩

/-! ## The flush -/

/-- The system once `force_close` has been called. -/
def System.closing (sys : System) : System := { sys with tasks := sys.tasks ++ [⟨.forceClose, .entry⟩] }

theorem System.step_closing (sys : System) : sys.step env (.start .forceClose) = some sys.closing := rfl

theorem System.work_closing (sys : System) : sys.closing.work = sys.work + 5 := by
  simp only [work, closing, List.map_append, List.map_singleton, List.sum_append, List.sum_singleton, Pc.work]
  omega

/-- The first segment of a flush leaves the open batch empty. -/
theorem System.flush_pending {next : System} {index : ℕ} {now : Instant}
    (htask : sys.tasks[index]? = some ⟨.forceClose, .entry⟩) (h : sys.step env (.resume index now) = some next) :
    next.state.merkleBuilder.pending = [] := by
  obtain ⟨task, hfound, hnext⟩ := Option.bind_eq_some_iff.mp h
  obtain rfl := Option.some.inj (htask.symm.trans hfound)
  obtain rfl := Option.some.inj hnext
  have hbuilder : (closeIf env sys.state.merkleBuilder.hasPending sys.state).1.merkleBuilder = _ :=
    closeIf_builder hasPending_pending
  change (closeIf env sys.state.merkleBuilder.hasPending sys.state).1.merkleBuilder.pending = []
  rw [hbuilder]
  split
  · rfl
  · rename_i hnone
    simpa [MerkleBatchBuilder.hasPending] using hnone

/-- The flush has not begun, or the leaves that were there are in closed batches. -/
def Flushes (start sys : System) : Prop :=
  ⟨.forceClose, .entry⟩ ∈ sys.tasks ∨
    start.history.added.length ≤ (sys.history.closed.flatMap (·.pending)).length

theorem Flushes.stepped {start next : System} {label : Label} (h : Flushes start sys)
    (hadded : start.history.added.length ≤ next.history.added.length) (hledger : Ledger env next)
    (hstepped : Stepped env sys label next) (hstep : sys.step env label = some next) (hresumes : label.Resumes) :
    Flushes start next := by
  have hgrows := hstepped.grows
  cases hstepped with
  | started => exact hresumes.elim
  | failed _ _ _ => exact hresumes.elim
  | @resumed index _ task _ _ htask _ _ _ =>
    by_cases hflush : task = ⟨.forceClose, .entry⟩
    · subst hflush
      right
      have hpending := congrArg List.length hledger.pending
      rw [System.flush_pending htask hstep, List.append_nil, List.length_map] at hpending
      omega
    · obtain hwaits | hclosed := h
      · left
        have hothers := (System.tasks_perm htask).mem_iff.mp hwaits
        have hkept : (⟨.forceClose, .entry⟩ : Task) ∈ sys.tasks.eraseIdx index :=
          (List.mem_cons.mp hothers).resolve_left (Ne.symm hflush)
        exact (System.advance_tasks_perm htask).mem_iff.mpr (List.mem_append_right _ hkept)
      · right
        obtain ⟨jobs, hjobs⟩ := hgrows.closed
        rw [← hjobs, List.flatMap_append, List.length_append]
        omega

theorem Run.flushes (run : Run (System.step env) (System.initial maxLeaves maxSeconds) before sys)
    (shutdown : Run (System.step env) sys.closing rest last) (resumes : Along (fun _ label ↦ label.Resumes) rest) :
    Flushes sys last := by
  have hclosing := run.snoc sys.step_closing
  apply shutdown.invariant resumes
  · exact .inl (List.mem_append_right _ List.mem_cons_self)
  · intro trace state label next hrun _ hresumes hstep h
    have hnext := hclosing.append (hrun.snoc hstep)
    have hadded := (run.grows ((Run.nil.snoc sys.step_closing).append (hrun.snoc hstep))).added.length_le
    exact h.stepped hadded hnext.ledger (stepped (hclosing.append hrun).sound hstep) hstep hresumes

/-- Segments lose no batch. -/
theorem Run.lost_of_resumes (run : Run (System.step env) (System.initial maxLeaves maxSeconds) before sys)
    (after : Run (System.step env) sys rest last) (resumes : Along (fun _ label ↦ label.Resumes) rest) :
    last.history.lost = sys.history.lost := by
  induction after with
  | nil => rfl
  | snoc hrun hstep ih =>
    obtain ⟨hbefore, hresumes⟩ := along_snoc.mp resumes
    rw [← ih hbefore]
    cases stepped (run.append hrun).sound hstep with
    | started => exact hresumes.elim
    | failed _ _ _ => exact hresumes.elim
    | resumed _ _ _ _ => rfl

end Shutdown

end DecisionCore
