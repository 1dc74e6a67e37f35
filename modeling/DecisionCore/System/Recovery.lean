import DecisionCore.System.Anchored

/-!
# What a failed anchoring attempt loses

`_close_and_anchor` empties the builder first and puts nothing back when a later await fails.  The
leaves of such a batch are with no one any more: they are lost exactly when the failing await comes
before the mark took effect, and no later close picks them up.
-/

namespace DecisionCore

open CommandHandler MerkleAnchorService

variable {env : Env} {maxLeaves : ℤ} {maxSeconds : ℚ} {trace : List (System × Label)} {last : System}

/-! ## Lost batches -/

/-- If an await fails in this step, then not one of a closer with an unmarked batch. -/
def Label.KeepsBatch (sys : System) : Label → Prop
  | .fail index took => ∀ task, sys.tasks[index]? = some task → task.lostBy took = none
  | _ => True

theorem Run.lost_iff (run : Run (System.step env) (System.initial maxLeaves maxSeconds) trace last) :
    last.history.lost = [] ↔ Along (fun sys label ↦ label.KeepsBatch sys) trace := by
  induction run with
  | nil => exact iff_of_true rfl along_nil
  | snoc hrun hstep ih =>
    rw [along_snoc, ← ih]
    cases stepped hrun.sound hstep with
    | started => simp [Label.KeepsBatch]
    | resumed _ _ _ => simp [System.advance, Label.KeepsBatch]
    | failed htask _ _ => simp [System.drop, Label.KeepsBatch, htask]

/-- The commit is batched, or someone will still bring it into a batch: the call that commits it,
the builder, or a closer that is anchoring it. -/
def System.Keeps (sys : System) (entry : Entry) : Prop :=
  entry.eventId ∈ sys.state.auditTrail.batched ∨ entry.eventId ∈ sys.adding.map (·.eventId) ∨
    entry.eventId ∈ sys.state.merkleBuilder.pending.map (·.eventId) ∨
    entry.eventId ∈ eventIdsOf sys.held

instance (sys : System) (entry : Entry) : Decidable (sys.Keeps entry) :=
  inferInstanceAs (Decidable (_ ∨ _ ∨ _ ∨ _))

theorem Run.keeps_iff_not_lost
    (run : Run (System.step env) (System.initial maxLeaves maxSeconds) trace last) {entry : Entry}
    (hentry : entry ∈ last.state.auditTrail.events) (htype : entry.eventType = "MetricCommitted") :
    last.Keeps entry ↔ entry.eventId ∉ eventIdsOf last.history.lost := by
  have hone := run.whereabouts hentry htype
  rw [System.Keeps, run.ledger.mem_batched]
  simp only [← List.count_pos_iff]
  omega

/-- Lost batches hold commits of the trail, so nothing is lost exactly when every commit is kept. -/
theorem Run.keeps_all_iff
    (run : Run (System.step env) (System.initial maxLeaves maxSeconds) trace last) :
    (∀ entry ∈ last.state.auditTrail.events, entry.eventType = "MetricCommitted" → last.Keeps entry) ↔
      last.history.lost = [] := by
  constructor
  · intro hall
    by_contra hne
    obtain ⟨job, hjob⟩ := List.exists_mem_of_ne_nil _ hne
    obtain ⟨leaf, hleaf⟩ := List.exists_mem_of_ne_nil _ (run.lost_ok job hjob).nonempty
    have hlost : leaf.eventId ∈ eventIdsOf last.history.lost :=
      List.mem_flatMap.mpr ⟨job, hjob, List.mem_map.mpr ⟨leaf, hleaf, rfl⟩⟩
    have hclosed : leaf.eventId ∈ eventIdsOf last.history.closed :=
      run.ledger.closedIds_perm.mem_iff.mpr (List.mem_append_right _ hlost)
    obtain ⟨entry, hentry, htype, hid⟩ := run.committed_of_added
      (run.ledger.addedIds_eq ▸ List.mem_append_left _ hclosed)
    exact (run.keeps_iff_not_lost hentry htype).mp (hall entry hentry htype) (hid ▸ hlost)
  · intro hlost entry hentry htype
    rw [run.keeps_iff_not_lost hentry htype, hlost]
    simp [eventIdsOf]

/-! ## A forced close as a run -/

/-- A segment of a lone task. -/
theorem lone_step (sys : System) {task : Task} {now : Instant} {state : AppState} {move : Move}
    (htasks : sys.tasks = [task]) (hres : resume env now sys.state task = (state, move)) :
    ∃ next, sys.step env (.resume 0 now) = some next ∧ next.state = state ∧
      next.tasks = task.after move ∧ next.history.lost = sys.history.lost := by
  refine ⟨sys.advance 0 task state move, by simp [System.step, htasks, hres], rfl, ?_, rfl⟩
  cases move <;> simp [System.advance, htasks, Task.after]

/-- The straight line of a lone closer runs to its end. -/
theorem anchoring_run {stamped : StampedJob} (hstamp : StampOk env stamped) {call : Call} (now : Instant)
    {todo : List AnchorOp} {sys : System} (hne : todo ≠ [])
    (hops : ∀ op ∈ todo, op ∈ anchorOps stamped.job)
    (htasks : sys.tasks = [⟨call, .anchoring stamped todo⟩]) :
    ∃ trace next, Run (System.step env) sys trace next ∧
      runOps env stamped sys.state todo = (next.state, .ok ()) ∧ next.tasks = [] ∧
      next.history.lost = sys.history.lost ∧ next.state.merkleBuilder = sys.state.merkleBuilder := by
  induction todo generalizing sys with
  | nil => exact absurd rfl hne
  | cons op todo ih =>
    obtain ⟨state, hout, hran⟩ := hstamp.ran sys.state (hops op List.mem_cons_self)
    have hres : resume env now sys.state ⟨call, .anchoring stamped (op :: todo)⟩ = (state,
        if todo.isEmpty then .finish (.ok none) else .next (.anchoring stamped todo)) := by
      simp only [resume, hout]
    obtain ⟨next, hstep, rfl, hnext, hlost⟩ := lone_step sys htasks hres
    cases todo with
    | nil => exact ⟨_, next, .snoc .nil hstep, by rw [runOps, hout]; rfl, hnext, hlost, hran.builder⟩
    | cons op' todo =>
      obtain ⟨trace, last, hrun, hruns, hnone, hlost', hbuilder⟩ := ih (by simp)
        (fun other hother ↦ hops other (List.mem_cons_of_mem _ hother)) hnext
      refine ⟨_, last, Run.append (.snoc .nil hstep) hrun, ?_, hnone, hlost'.trans hlost,
        hbuilder.trans hran.builder⟩
      rw [runOps, hout]
      exact hruns

/-- `force_close()` with no other call in flight is a run of the system, and it leaves no leaf
pending. -/
theorem forceClose_run (env : Env) {sys : System} (htasks : sys.tasks = []) (now : Instant) :
    ∃ trace last answer, Run (System.step env) sys trace last ∧
      forceClose env sys.state now = (last.state, .ok answer) ∧ last.tasks = [] ∧
      last.history.lost = sys.history.lost ∧ last.state.merkleBuilder.pending = [] := by
  have hstart : sys.step env (.start .forceClose) = some { sys with tasks := [⟨.forceClose, .entry⟩] } := by
    simp [System.step, htasks]
  have hrun : Run (System.step env) sys _ _ := .snoc .nil hstart
  by_cases hpending : sys.state.merkleBuilder.pending = []
  · have hguard : sys.state.merkleBuilder.hasPending = false := by
      simp [MerkleBatchBuilder.hasPending, hpending]
    have hres : resume env now sys.state ⟨.forceClose, .entry⟩ = (sys.state, .finish (.ok none)) := by
      simp [resume, enter, closeIf, hguard]
    obtain ⟨next, hstep, hstate, hnext, hlost⟩ :=
      lone_step { sys with tasks := [⟨.forceClose, .entry⟩] } rfl hres
    exact ⟨_, next, none, hrun.snoc hstep, by simp [forceClose, hguard, hstate], hnext, hlost,
      by rw [hstate]; exact hpending⟩
  · have hguard : sys.state.merkleBuilder.hasPending = true := by
      simpa [MerkleBatchBuilder.hasPending] using hpending
    obtain ⟨job, hjob, -, -, hclose⟩ := closeEntry_cases env hpending
    have hstamp : StampOk env ⟨job, env.sign job.root, env.isoformat now⟩ := ⟨hjob, rfl, now, rfl⟩
    -- The close, the signature and the timestamp, then the straight line.
    have hres : resume env now sys.state ⟨.forceClose, .entry⟩ =
        ((closeEntry env sys.state).1, .next (.sign job)) := by
      simp [resume, enter, closeIf, hguard, hclose]
    obtain ⟨closed, hstep₁, hstate₁, htasks₁, hlost₁⟩ :=
      lone_step { sys with tasks := [⟨.forceClose, .entry⟩] } rfl hres
    obtain ⟨signed, hstep₂, hstate₂, htasks₂, hlost₂⟩ := lone_step closed htasks₁ (rfl : resume env now _ _ = _)
    obtain ⟨stamped, hstep₃, hstate₃, htasks₃, hlost₃⟩ := lone_step signed htasks₂ (rfl : resume env now _ _ = _)
    obtain ⟨trace, last, hrest, hruns, hnone, hlost, hbuilder⟩ := anchoring_run hstamp now
      (by simp [anchorOps]) (fun op hop ↦ hop) htasks₃
    rw [hstate₃, hstate₂, hstate₁, hclose] at hruns hbuilder
    refine ⟨_, last, some job.batchId, (((hrun.snoc hstep₁).snoc hstep₂).snoc hstep₃).append hrest, ?_, hnone,
      hlost.trans (hlost₃.trans (hlost₂.trans hlost₁)), by rw [hbuilder]⟩
    simp only [forceClose, hguard, if_true, closeAndAnchor, hclose, hruns]

theorem Commit.entry_leafHash (commit : Commit) (eventId : String) :
    (commit.entry env eventId).payload.get? "leaf_hash" = some (.str (hex (commit.leafHash env))) := by
  simp [Commit.entry, committedPayload]

/-- When nothing is lost and no call is in flight, one forced close anchors every commit. -/
theorem Run.forceClose_anchors
    (run : Run (System.step env) (System.initial maxLeaves maxSeconds) trace last)
    (hlost : last.history.lost = []) (htasks : last.tasks = []) (now : Instant) :
    ∃ state answer, forceClose env last.state now = (state, .ok answer) ∧
      ∀ entry ∈ state.auditTrail.events, entry.eventType = "MetricCommitted" →
        entry.eventId ∈ state.auditTrail.batched ∧
          ∃ leafHash row, entry.payload.get? "leaf_hash" = some (.str leafHash) ∧
            state.projectionStore.get? (proofKey leafHash) = some (.proof row) ∧ row.leafHash = leafHash := by
  obtain ⟨rest, next, answer, hrest, hclose, hnone, hlost', hpending⟩ := forceClose_run env htasks now
  have hrun := run.append hrest
  refine ⟨next.state, answer, hclose, ?_⟩
  intro entry hentry htype
  have hkept : next.Keeps entry := hrun.keeps_all_iff.mpr (hlost'.trans hlost) entry hentry htype
  have hbatched : entry.eventId ∈ next.state.auditTrail.batched := by
    simpa [System.Keeps, System.adding, System.held, hnone, hpending, eventIdsOf] using hkept
  obtain ⟨commit, hcommit⟩ := hrun.committed_entry hentry htype
  obtain ⟨-, hall⟩ := hrun.provable entry.eventId hbatched
  obtain ⟨⟨row, hrow, hok⟩, -⟩ := hall commit (hcommit ▸ hentry)
  refine ⟨hbatched, hex (commit.leafHash env), row, ?_, hrow, hok.leafHash⟩
  rw [hcommit, Commit.entry_leafHash]

/-- A run loses no commit, and a forced close at its end anchors them all, exactly when no await of a
closer failed while its batch was neither in the builder nor marked. -/
theorem failed_anchoring_keeps_leaves_iff
    (run : Run (System.step env) (System.initial maxLeaves maxSeconds) trace last) :
    (∀ entry ∈ last.state.auditTrail.events, entry.eventType = "MetricCommitted" → last.Keeps entry) ∧
        (last.tasks = [] → ∀ now, ∃ state answer, forceClose env last.state now = (state, .ok answer) ∧
          ∀ entry ∈ state.auditTrail.events, entry.eventType = "MetricCommitted" →
            entry.eventId ∈ state.auditTrail.batched ∧
              ∃ leafHash row, entry.payload.get? "leaf_hash" = some (.str leafHash) ∧
                state.projectionStore.get? (proofKey leafHash) = some (.proof row) ∧
                row.leafHash = leafHash) ↔
      Along (fun sys label ↦ label.KeepsBatch sys) trace := by
  rw [← run.lost_iff, ← run.keeps_all_iff]
  constructor
  · exact fun h ↦ h.1
  · exact fun h ↦ ⟨h, fun htasks now ↦ run.forceClose_anchors (run.keeps_all_iff.mp h) htasks now⟩

/-- A mark that fails after it took effect loses nothing. -/
theorem failed_mark_keeps_leaf :
    ∃ last, follow (System.step .local) (System.initial 100 60)
        (commitAndClose.take 10 ++ [.fail 0 true]) = some last ∧
      last.state.auditTrail.batched.card = 1 ∧
      ∀ entry ∈ last.state.auditTrail.events, entry.eventType = "MetricCommitted" → last.Keeps entry := by
  have hsome : ((follow (System.step .local) (System.initial 100 60)
      (commitAndClose.take 10 ++ [.fail 0 true])).map fun last ↦
        decide (last.history.lost = [] ∧ last.state.auditTrail.batched.card = 1)) = some true := by
    decide +kernel
  obtain ⟨last, hlast, hfacts⟩ := Option.map_eq_some_iff.mp hsome
  obtain ⟨hlost, hcard⟩ := of_decide_eq_true hfacts
  have hrun := Run.of_follow hlast
  exact ⟨last, hlast, hcard, ((failed_anchoring_keeps_leaves_iff hrun).mpr (hrun.lost_iff.mp hlost)).1⟩

/-- The timestamp authority fails once: the leaf of the batch is kept by no one, and the forced
close of the shutdown does not anchor it. -/
theorem failed_timestamp_loses_leaf :
    ∃ last, follow (System.step .local) (System.initial 100 60)
        (commitAndClose.take 6 ++ [.fail 0 false]) = some last ∧ last.tasks = [] ∧
      ∃ entry ∈ last.state.auditTrail.events, entry.eventType = "MetricCommitted" ∧ ¬ last.Keeps entry ∧
        entry.eventId ∉ (forceClose .local last.state 0).1.auditTrail.batched := by
  have hsome : ((follow (System.step .local) (System.initial 100 60)
      (commitAndClose.take 6 ++ [.fail 0 false])).map fun last ↦
        last.tasks.isEmpty && last.state.auditTrail.events.any fun entry ↦
          decide (entry.eventType = "MetricCommitted" ∧ ¬ last.Keeps entry ∧
            entry.eventId ∉ (forceClose .local last.state 0).1.auditTrail.batched)) = some true := by
    decide +kernel
  obtain ⟨last, hlast, hfacts⟩ := Option.map_eq_some_iff.mp hsome
  obtain ⟨htasks, hany⟩ := Bool.and_eq_true_iff.mp hfacts
  obtain ⟨entry, hentry, hlost⟩ := List.any_eq_true.mp hany
  exact ⟨last, hlast, List.isEmpty_iff.mp htasks, entry, hentry, of_decide_eq_true hlost⟩

end DecisionCore
