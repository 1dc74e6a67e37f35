import DecisionCore.System.Runs

/-!
# The ledger of leaves

Every stored commit stands for one leaf, and every leaf is with exactly one holder: the call that
still has to add it, the open batch, a closer, or the history of marked and lost batches.  A step
moves leaves between holders and neither makes nor drops one.
-/

namespace DecisionCore

open CommandHandler MerkleAnchorService

variable {env : Env}

/-! ## Holders -/

/-- The leaf of a stored commit. -/
def Entry.leaf? (entry : Entry) : Option PendingLeaf :=
  if entry.eventType = "MetricCommitted" then do
    let leafHash ← (entry.payload.text? "leaf_hash").bind fromhex
    let decisionId ← entry.decisionId.asStr?
    return ⟨leafHash, entry.eventId, decisionId⟩
  else none

/-- The idempotency key of a stored commit. -/
def Entry.commitKey? (entry : Entry) : Option String :=
  if entry.eventType = "MetricCommitted" then entry.idempotencyKey else none

/-- The idempotency key a call carries. -/
def Call.key? : Call → Option String
  | .updateMetric cmd => some cmd.idempotencyKey
  | .inbound .reconciledDecision payload => payload.text? "idempotency_key"
  | .supersede args => some args.supersedingIdempotencyKey
  | _ => none

/-- The key of a finished call that was accepted. -/
def acceptedKey? : Call × Answer → Option String
  | (call, .ok (some ⟨.accepted, _⟩)) => call.key?
  | _ => none

namespace Task

def adding? (task : Task) : Option PendingLeaf := task.addLeaf?.map (·.leaf)

def addingKey? (task : Task) : Option String := task.addLeaf?.bind fun _ ↦ task.call.key?

end Task

namespace System

/-- Leaves of commits that are stored and not yet added. -/
def adding (sys : System) : List PendingLeaf := sys.tasks.filterMap Task.adding?

/-- Batches that are being anchored. -/
def held (sys : System) : List AnchorJob := sys.tasks.filterMap Task.job?

end System

def eventIdsOf (jobs : List AnchorJob) : List String :=
  jobs.flatMap fun job ↦ job.pending.map (·.eventId)

@[simp] theorem Commit.entry_leaf? (commit : Commit) (eventId : String) :
    (commit.entry env eventId).leaf? = some (commit.leaf env eventId) := by
  have hhash : (commit.entry env eventId).payload.text? "leaf_hash" = some (hex (commit.leafHash env)) := by
    simp [Commit.entry, committedPayload, PyDict.text?, Json.asStr?]
  simp [Entry.leaf?, hhash]
  exact ⟨rfl, rfl⟩

theorem Origin.leaf? {call : Call} {entry : Entry} (h : Origin env call entry) : entry.leaf? = none := by
  simp [Entry.leaf?, h.eventType_ne_committed]

theorem Origin.commitKey? {call : Call} {entry : Entry} (h : Origin env call entry) :
    entry.commitKey? = none := by
  simp [Entry.commitKey?, h.eventType_ne_committed]

theorem Call.Commits.key? {call : Call} {commit : Commit} (h : call.Commits commit) :
    call.key? = some commit.idempotencyKey := by
  cases call with
  | updateMetric cmd =>
    obtain ⟨-, -, -, -, -, hkey, -⟩ := h
    rw [hkey]
    rfl
  | inbound kind payload =>
    cases kind with
    | reconciledDecision =>
      obtain ⟨-, -, -, -, -, hkey, -⟩ := h
      simp [Call.key?, PyDict.text?, hkey, Json.asStr?]
    | _ => exact h.elim
  | _ => exact h.elim

/-! ## What one step writes into the ledger -/

/-- The answer a move ends the call with. -/
def Move.answered (call : Call) : Move → List (Call × Answer)
  | .next _ => []
  | .finish answer => [(call, answer)]

/-- The entries of the ledger one segment writes. -/
structure Booked (state next : AppState) (task : Task) (move : Move) (stored : Option Entry) : Prop where
  events : next.auditTrail.events = state.auditTrail.events ++ stored.toList
  leaves : stored.toList.filterMap Entry.leaf? = (task.after move).filterMap Task.adding?
  keys : stored.toList.filterMap Entry.commitKey? ++ task.addingKey?.toList =
    (task.after move).filterMap Task.addingKey? ++ (move.answered task.call).filterMap acceptedKey?
  jobs : (task.after move).filterMap Task.job? ++ task.marks?.toList =
    task.job?.toList ++ (move.closed? task).toList
  pending : (move.closed? task).toList.flatMap (·.pending) ++ next.merkleBuilder.pending =
    state.merkleBuilder.pending ++ task.adding?.toList
  batched : next.auditTrail.batched = state.auditTrail.batched ∪ (eventIdsOf task.marks?.toList).toFinset

theorem Task.marks?_of_job? {task : Task} (h : task.job? = none) : task.marks? = none := by
  obtain ⟨call, pc⟩ := task
  cases pc <;> simp_all [Task.job?, Task.marks?]

theorem Booked.quiet {state next : AppState} {task : Task} {move : Move} {stored : Option Entry}
    (happends : Appends env state next stored) (horigin : ∀ entry ∈ stored, Origin env task.call entry)
    (hadd : task.addLeaf? = none) (hjob : task.job? = none) (hcalm : Calm task.call move) :
    Booked state next task move stored := by
  have hleaves : stored.toList.filterMap Entry.leaf? = [] := by
    cases stored with
    | none => rfl
    | some entry => simp [(horigin entry rfl).leaf?]
  have hkeys : stored.toList.filterMap Entry.commitKey? = [] := by
    cases stored with
    | none => rfl
    | some entry => simp [(horigin entry rfl).commitKey?]
  have hmarks := Task.marks?_of_job? hjob
  have hafter : (task.after move).filterMap Task.adding? = [] ∧
      (task.after move).filterMap Task.addingKey? = [] ∧ (task.after move).filterMap Task.job? = [] := by
    cases hcalm <;> exact ⟨rfl, rfl, rfl⟩
  have hanswered : (move.answered task.call).filterMap acceptedKey? = [] := by
    cases hcalm <;> rfl
  have hclosed : move.closed? task = none := by
    cases hcalm <;> simp [Move.closed?]
  refine ⟨happends.events, ?_, ?_, ?_, ?_, ?_⟩
  · rw [hleaves, hafter.1]
  · simp [hkeys, hafter.2.1, hanswered, Task.addingKey?, hadd]
  · simp [hafter.2.2, hmarks, hjob, hclosed]
  · simp [hclosed, happends.builder, Task.adding?, hadd]
  · simp [happends.batched, hmarks, eventIdsOf]

theorem Booked.committed {state next : AppState} {task : Task} {commit : Commit} {eventId : String}
    (hcommits : task.call.Commits commit) (hadd : task.addLeaf? = none) (hjob : task.job? = none)
    (happends : Appends env state next (some (commit.entry env eventId))) :
    Booked state next task (.next (.addLeaf (commit.addLeaf env eventId)))
      (some (commit.entry env eventId)) := by
  have hmarks := Task.marks?_of_job? hjob
  have hkey : (commit.entry env eventId).commitKey? = some commit.idempotencyKey := rfl
  have hidle : task.addingKey? = none := by simp [Task.addingKey?, hadd]
  have hafter : Task.addingKey? { task with pc := .addLeaf (commit.addLeaf env eventId) } =
      some commit.idempotencyKey := hcommits.key?
  refine ⟨happends.events, ?_, ?_, ?_, ?_, ?_⟩
  · simp [Task.after, Task.adding?, Task.addLeaf?, Commit.addLeaf]
  · simp [hkey, hidle, Task.after, hafter, Move.answered]
  · simp [Task.after, hmarks, hjob, Move.closed?]
    rfl
  · simp [Move.closed?, happends.builder, Task.adding?, hadd]
  · simp [happends.batched, hmarks, eventIdsOf]

/-- The entries one await of the straight line writes; the mark is the last one. -/
theorem Booked.anchored {state next : AppState} {task : Task} {stamped : StampedJob} {op : AnchorOp}
    {todo : List AnchorOp} (hsound : task.Sound env) (hpc : task.pc = .anchoring stamped (op :: todo))
    (hran : Ran env state stamped op (next, .ok ())) :
    ∃ stored, Booked state next task
      (if todo.isEmpty then .finish (.ok none) else .next (.anchoring stamped todo)) stored := by
  obtain ⟨call, pc⟩ := task
  obtain rfl : pc = .anchoring stamped (op :: todo) := hpc
  obtain ⟨-, -, -, hsuffix⟩ := hsound.anchoring _ _ rfl
  have hlast := anchorOps_suffix hsuffix
  -- The four lists that do not depend on the operation.
  have hlists (stored : Option Entry) (hleaf : stored.toList.filterMap Entry.leaf? = [])
      (hkey : stored.toList.filterMap Entry.commitKey? = [])
      (hevents : next.auditTrail.events = state.auditTrail.events ++ stored.toList)
      (hbuilder : next.merkleBuilder = state.merkleBuilder)
      (hbatched : next.auditTrail.batched = state.auditTrail.batched ∪
        (if op = .markBatched then (stamped.job.pending.map (·.eventId)).toFinset else ∅)) :
      Booked state next ⟨call, .anchoring stamped (op :: todo)⟩
        (if todo.isEmpty then .finish (.ok none) else .next (.anchoring stamped todo)) stored := by
    have hmarks : Task.marks? ⟨call, .anchoring stamped (op :: todo)⟩ =
        if op = .markBatched then some stamped.job else none := by
      cases op <;> rfl
    cases todo with
    | nil =>
      obtain rfl := hlast.mpr rfl
      refine ⟨hevents, ?_, ?_, ?_, ?_, ?_⟩
      · rw [hleaf]; rfl
      · rw [hkey]; rfl
      · rfl
      · simp [hbuilder, Move.closed?, Task.adding?, Task.addLeaf?]
      · simpa [hmarks, eventIdsOf] using hbatched
    | cons op' todo =>
      have hop : op ≠ .markBatched := by
        intro h
        cases hlast.mp h
      refine ⟨hevents, ?_, ?_, ?_, ?_, ?_⟩
      · rw [hleaf]; rfl
      · rw [hkey]; rfl
      · simp [hmarks, hop, Task.after, Task.job?, Move.closed?]
      · simp [hbuilder, Move.closed?, Task.adding?, Task.addLeaf?]
      · simpa [hmarks, hop, eventIdsOf] using hbatched
  cases hran with
  | row _ => exact ⟨none, hlists none rfl rfl (by simp) rfl (by simp)⟩
  | published happends =>
    exact ⟨_, hlists _ (by simp [Entry.leaf?]) (by simp [Entry.commitKey?]) happends.events
      happends.builder (by simp [happends.batched])⟩
  | marked => exact ⟨none, hlists none rfl rfl (by simp [MemoryAuditTrail.markBatched]) rfl
      (by simp [MemoryAuditTrail.markBatched])⟩

theorem Resumed.booked {now : Instant} {state next : AppState} {task : Task} {move : Move}
    (h : Resumed env now state task next move) (hsound : task.Sound env) :
    ∃ stored, Booked state next task move stored := by
  cases h with
  | quiet happends horigin hadd hjob hcalm => exact ⟨_, .quiet happends horigin hadd hjob hcalm⟩
  | committed hcommits hadd hjob happends => exact ⟨_, .committed hcommits hadd hjob happends⟩
  | anchored hpc hran => exact Booked.anchored hsound hpc hran
  | @added step hpc =>
    obtain ⟨call, pc⟩ := task
    obtain rfl : pc = .addLeaf step := hpc
    refine ⟨none, by simp [commitFinish], rfl, ?_, rfl, ?_, by simp [commitFinish, Task.marks?, eventIdsOf]⟩
    · cases hkey : call.key? <;>
        simp [Task.after, Move.answered, acceptedKey?, Task.addingKey?, Task.addLeaf?, hkey]
    · simp [commitFinish, MerkleBatchBuilder.addLeaf, Move.closed?, Task.adding?, Task.addLeaf?]
  | @stored board hpc =>
    obtain ⟨call, pc⟩ := task
    obtain rfl : pc = .storeBoard board := hpc
    exact ⟨none, by simp, rfl, rfl, rfl, by simp [Move.closed?, Task.adding?, Task.addLeaf?],
      by simp [Task.marks?, eventIdsOf]⟩
  | @closed job hpc _ _ hpending _ =>
    obtain ⟨call, pc⟩ := task
    obtain rfl : pc = .entry := hpc
    exact ⟨none, by simp, rfl, rfl, rfl, by simp [Move.closed?, Task.adding?, Task.addLeaf?, hpending],
      by simp [Task.marks?, eventIdsOf]⟩
  | @signed job hpc =>
    obtain ⟨call, pc⟩ := task
    obtain rfl : pc = .sign job := hpc
    exact ⟨none, by simp, rfl, rfl, rfl, by simp [Move.closed?, Task.adding?, Task.addLeaf?],
      by simp [Task.marks?, eventIdsOf]⟩
  | @stamped job signature hpc =>
    obtain ⟨call, pc⟩ := task
    obtain rfl : pc = .stamp job signature := hpc
    exact ⟨none, by simp, rfl, rfl, rfl, by simp [Move.closed?, Task.adding?, Task.addLeaf?],
      by simp [Task.marks?, eventIdsOf]⟩

/-- What a failed await leaves behind: nothing it stored is a commit. -/
structure Spoiled (state next : AppState) (task : Task) (took : Bool) (stored : Option Entry) : Prop where
  events : next.auditTrail.events = state.auditTrail.events ++ stored.toList
  leaves : stored.toList.filterMap Entry.leaf? = []
  keys : stored.toList.filterMap Entry.commitKey? = []
  adding : task.adding? = none
  addingKey : task.addingKey? = none
  pending : next.merkleBuilder = state.merkleBuilder
  batched : next.auditTrail.batched =
    state.auditTrail.batched ∪ (eventIdsOf (task.markedBy took).toList).toFinset

/-- A closer never has a leaf to add. -/
theorem Task.Sound.addLeaf?_of_isCloser {task : Task} (h : task.Sound env)
    (hcloser : task.call.isCloser = true) : task.addLeaf? = none := by
  cases hadd : task.addLeaf? with
  | none => rfl
  | some step =>
    have hpc : task.pc = .addLeaf step := by
      unfold Task.addLeaf? at hadd
      split at hadd
      · rename_i hpc
        rw [hpc, Option.some.inj hadd]
      · cases hadd
    obtain ⟨commit, -, hcommits, -⟩ := h.adding step hpc
    have hcommitting := hcommits.committing
    cases hcall : task.call <;> simp_all [Call.isCloser, Call.committing]

theorem Spoiled.of_fail (state : AppState) {task : Task} (hsound : task.Sound env)
    (hcloser : task.call.isCloser = true) (took : Bool) :
    ∃ stored, Spoiled state (if took then failedEffect env state task else state) task took stored := by
  have hadd := hsound.addLeaf?_of_isCloser hcloser
  have hadding : task.adding? = none := by simp [Task.adding?, hadd]
  have hkey : task.addingKey? = none := by simp [Task.addingKey?, hadd]
  -- An await without a visible effect.
  have hnothing (hmarked : task.markedBy took = none) : Spoiled state state task took none :=
    ⟨by simp, rfl, rfl, hadding, hkey, rfl, by simp [hmarked, eventIdsOf]⟩
  cases took with
  | false => exact ⟨none, hnothing rfl⟩
  | true =>
    obtain ⟨call, pc⟩ := task
    cases pc with
    | anchoring stamped todo =>
      cases todo with
      | nil => exact ⟨none, hnothing rfl⟩
      | cons op todo =>
        have hran := runOp_cases env state stamped op
        change ∃ stored, Spoiled state (runOp env state stamped op).1 _ true stored
        generalize runOp env state stamped op = outcome at hran
        cases hran with
        | unproved _ => exact ⟨none, hnothing rfl⟩
        | row _ =>
          exact ⟨none, by simp, rfl, rfl, hadding, hkey, rfl,
            by simp [Task.markedBy, Task.marks?, eventIdsOf]⟩
        | published happends =>
          exact ⟨_, happends.events, by simp [Entry.leaf?], by simp [Entry.commitKey?], hadding, hkey,
            happends.builder, by simp [happends.batched, Task.markedBy, Task.marks?, eventIdsOf]⟩
        | marked =>
          exact ⟨none, by simp [MemoryAuditTrail.markBatched], rfl, rfl, hadding, hkey, rfl,
            by simp [MemoryAuditTrail.markBatched, Task.markedBy, Task.marks?, eventIdsOf]⟩
    | _ => exact ⟨none, hnothing rfl⟩

theorem Task.job?_of_marks? {task : Task} {job : AnchorJob} (h : task.marks? = some job) :
    task.job? = some job := by
  unfold Task.marks? at h
  split at h
  · rename_i hpc
    simpa [Task.job?, hpc] using h
  · cases h

/-- The batch of a failing closer is marked or lost. -/
theorem Task.markedBy_append_lostBy (task : Task) (took : Bool) :
    (task.markedBy took).toList ++ (task.lostBy took).toList = task.job?.toList := by
  cases hmarked : task.markedBy took with
  | none => simp [Task.lostBy, hmarked]
  | some job =>
    have hjob : task.job? = some job := by
      cases took
      · cases hmarked
      · exact Task.job?_of_marks? hmarked
    simp [Task.lostBy, hmarked, hjob]

/-! ## The books of a run -/

/-- Leaves and batches are where the history says they are. -/
structure Ledger (env : Env) (sys : System) : Prop where
  leaves : ∀ leaf, (sys.state.auditTrail.events.filterMap Entry.leaf?).count leaf =
    sys.adding.count leaf + (sys.history.added.map Prod.fst).count leaf
  keys : ∀ key, (sys.state.auditTrail.events.filterMap Entry.commitKey?).count key =
    (sys.tasks.filterMap Task.addingKey?).count key +
      (sys.history.answers.filterMap acceptedKey?).count key
  jobs : ∀ job, sys.history.closed.count job =
    sys.held.count job + sys.history.marked.count job + sys.history.lost.count job
  pending : sys.history.closed.flatMap (·.pending) ++ sys.state.merkleBuilder.pending =
    sys.history.added.map Prod.fst
  batched : sys.state.auditTrail.batched = (eventIdsOf sys.history.marked).toFinset

theorem eventIdsOf_append (first second : List AnchorJob) :
    eventIdsOf (first ++ second) = eventIdsOf first ++ eventIdsOf second := by
  simp [eventIdsOf]

theorem Ledger.initial (maxLeaves : ℤ) (maxSeconds : ℚ) :
    Ledger env (System.initial maxLeaves maxSeconds) := by
  constructor <;>
    simp [System.initial, AppState.initial, MemoryAuditTrail.empty, MerkleBatchBuilder.new, System.adding,
      System.held, eventIdsOf]

namespace Ledger

variable {sys : System} {index : ℕ} {task : Task}

theorem started (h : Ledger env sys) (call : Call) :
    Ledger env { sys with tasks := sys.tasks ++ [⟨call, .entry⟩] } := by
  have hadding : Task.adding? ⟨call, .entry⟩ = none := rfl
  have hkey : Task.addingKey? ⟨call, .entry⟩ = none := rfl
  have hjob : Task.job? ⟨call, .entry⟩ = none := rfl
  refine ⟨?_, ?_, ?_, h.pending, h.batched⟩
  · intro leaf
    simpa [System.adding, List.filterMap_cons, hadding] using h.leaves leaf
  · intro key
    simpa [List.filterMap_cons, hkey] using h.keys key
  · intro job
    simpa [System.held, List.filterMap_cons, hjob] using h.jobs job

theorem advanced {state : AppState} {move : Move} {stored : Option Entry} (h : Ledger env sys)
    (htask : sys.tasks[index]? = some task) (hbooked : Booked sys.state state task move stored) :
    Ledger env (sys.advance index task state move) := by
  have hadded : (sys.advance index task state move).history.added.map Prod.fst =
      sys.history.added.map Prod.fst ++ task.adding?.toList := by
    cases hstep : task.addLeaf? <;> simp [System.advance, Task.adding?, hstep]
  have hanswers : (sys.advance index task state move).history.answers =
      sys.history.answers ++ move.answered task.call := by
    cases move <;> simp [System.advance, Move.answered]
  refine ⟨?_, ?_, ?_, ?_, ?_⟩
  · intro leaf
    have hold := h.leaves leaf
    have hmoved := System.count_tasks htask Task.adding? leaf
    rw [hadded, System.adding, System.count_advance htask, ← hbooked.leaves]
    rw [System.adding] at hold
    simp only [System.advance, hbooked.events, List.filterMap_append, List.count_append]
    omega
  · intro key
    have hold := h.keys key
    have hmoved := System.count_tasks htask Task.addingKey? key
    have hkeys := congrArg (List.count key) hbooked.keys
    rw [hanswers, System.count_advance htask]
    simp only [System.advance, hbooked.events, List.filterMap_append, List.count_append] at hkeys ⊢
    omega
  · intro job
    have hold := h.jobs job
    have hmoved := System.count_tasks htask Task.job? job
    have hjobs := congrArg (List.count job) hbooked.jobs
    rw [System.held, System.count_advance htask]
    rw [System.held] at hold
    simp only [System.advance, List.count_append] at hjobs ⊢
    omega
  · rw [hadded, ← h.pending, List.append_assoc, ← hbooked.pending]
    simp [System.advance]
  · simp [System.advance, hbooked.batched, h.batched, eventIdsOf_append]

theorem dropped {took : Bool} {state : AppState} {stored : Option Entry} (h : Ledger env sys)
    (htask : sys.tasks[index]? = some task) (hspoiled : Spoiled sys.state state task took stored) :
    Ledger env (sys.drop index task took state) := by
  refine ⟨?_, ?_, ?_, ?_, ?_⟩
  · intro leaf
    have hold := h.leaves leaf
    rw [System.adding, System.count_tasks htask] at hold
    simpa [System.drop, System.adding, hspoiled.events, hspoiled.leaves, hspoiled.adding] using hold
  · intro key
    have hold := h.keys key
    rw [System.count_tasks htask] at hold
    simpa [System.drop, hspoiled.events, hspoiled.keys, hspoiled.addingKey, acceptedKey?,
      List.filterMap_cons] using hold
  · intro job
    have hold := h.jobs job
    have hsplit := congrArg (List.count job) (Task.markedBy_append_lostBy task took)
    rw [System.held, System.count_tasks htask] at hold
    simp only [System.drop, System.held, List.count_append] at hsplit ⊢
    omega
  · simpa [System.drop, hspoiled.pending] using h.pending
  · simp [System.drop, hspoiled.batched, h.batched, eventIdsOf_append]

theorem stepped {next : System} {label : Label} (h : Ledger env sys)
    (hstepped : Stepped env sys label next) : Ledger env next := by
  cases hstepped with
  | started => exact h.started _
  | resumed htask hsound hres =>
    obtain ⟨stored, hbooked⟩ := hres.booked hsound
    exact h.advanced htask hbooked
  | failed htask hsound hcloser =>
    obtain ⟨stored, hspoiled⟩ := Spoiled.of_fail sys.state hsound hcloser _
    exact h.dropped htask hspoiled

end Ledger

theorem Run.ledger {maxLeaves : ℤ} {maxSeconds : ℚ} {trace : List (System × Label)} {last : System}
    (run : Run (System.step env) (System.initial maxLeaves maxSeconds) trace last) : Ledger env last :=
  run.always (Ledger env) (Ledger.initial maxLeaves maxSeconds) fun _ hstepped h ↦ h.stepped hstepped

end DecisionCore
