import DecisionCore.System.Custody
import DecisionCore.ReadModel.Scoring

/-!
# The root a decision is shown

A batch publishes its root once in the stream of every decision it has a leaf of, and marks its
leaves afterwards.  While batches are anchored one at a time and no await fails, the publications in
a decision's stream are therefore those of the marked batches with a leaf of it, in their order, and
of the batch in flight once it has got that far.  What a rebuild shows is the last of them.
-/

namespace DecisionCore

open CommandHandler MerkleAnchorService ScoreboardProjector

variable {env : Env}

/-- The batch has a leaf of the decision. -/
def Covers (decisionId : String) (job : AnchorJob) : Prop := decisionId ∈ job.pending.map (·.decisionId)

instance (decisionId : String) : DecidablePred (Covers decisionId) := fun job ↦
  inferInstanceAs (Decidable (decisionId ∈ job.pending.map (·.decisionId)))

/-- The batch and the root a publication names. -/
def namedBatch (record : PyDict) : Option Json × Option Json := (record.get? "batch_id", record.get? "root")

/-- What the publications of a batch name. -/
def nameOf (job : AnchorJob) : Option Json × Option Json :=
  (some (.str job.batchId), some (.str (hex job.root)))

/-- The publications in the stream of a decision. -/
def publications (trail : MemoryAuditTrail) (decisionId : String) : List (Option Json × Option Json) :=
  ((trail.readRange decisionId 0).filter isRootEvent).map namedBatch

/-- The publication in the stream of the decision a task has made and whose batch it has still to
mark. -/
def Task.published? (decisionId : String) (task : Task) : Option (Option Json × Option Json) :=
  match task.pc with
  | .anchoring stamped todo =>
    if Covers decisionId stamped.job ∧ .publishRoot decisionId ∉ todo then some (nameOf stamped.job) else none
  | _ => none

/-! ## The operations of a batch -/

section Ops

variable {job : AnchorJob} {decisionId : String}

theorem coveredDecisions_nodup (job : AnchorJob) : (coveredDecisions job).Nodup :=
  (List.perm_insertionSort _ _).nodup_iff.mpr (List.nodup_dedup _)

/-- Apart from the reserved decision, the operations publish to the covered decisions. -/
theorem publishRoot_mem_iff (h : decisionId ≠ "system") :
    .publishRoot decisionId ∈ anchorOps job ↔ Covers decisionId job := by
  rw [publishRoot_mem_anchorOps]
  exact or_iff_right h

/-- No covered decision is published to twice. -/
theorem publishRoot_notMem_rest (h : decisionId ≠ "system") {todo : List AnchorOp}
    (hsuffix : .publishRoot decisionId :: todo <:+ anchorOps job) : .publishRoot decisionId ∉ todo := by
  have hcount : (anchorOps job).count (.publishRoot decisionId) ≤ 1 := by
    have hproofs : (job.batch.leaves.mapIdx AnchorOp.setProof).count (.publishRoot decisionId) = 0 := by
      rw [List.count_eq_zero]
      simp [List.mem_mapIdx]
    have hcovered : ((coveredDecisions job).map AnchorOp.publishRoot).count (.publishRoot decisionId) ≤ 1 := by
      apply List.nodup_iff_count_le_one.mp
      exact (coveredDecisions_nodup job).map fun _ _ h ↦ AnchorOp.publishRoot.inj h
    simp only [anchorOps, List.count_append, List.count_cons, hproofs]
    simpa [Ne.symm h] using hcovered
  have hle := (hsuffix.sublist.count_le (.publishRoot decisionId)).trans hcount
  rw [List.count_cons_self] at hle
  exact List.count_eq_zero.mp (by omega)

end Ops

/-! ## One step -/

section Trail

variable {decisionId : String} {state next : AppState}

theorem publications_of_events (h : next.auditTrail.events = state.auditTrail.events) :
    publications next.auditTrail decisionId = publications state.auditTrail decisionId := by
  simp only [publications, MemoryAuditTrail.readRange, MemoryAuditTrail.entriesOf, h]

/-- An honest entry of another type is no publication. -/
theorem publications_of_appends {stored : Option Entry} (h : Appends env state next stored)
    (honest : ∀ entry ∈ stored, entry.Honest)
    (htype : ∀ entry ∈ stored, entry.eventType ≠ "MerkleRootPublished") :
    publications next.auditTrail decisionId = publications state.auditTrail decisionId := by
  cases stored with
  | none => exact publications_of_events (by simpa using h.events)
  | some entry =>
    have hroot : isRootEvent entry.record = false := by
      rw [isRootEvent, (honest entry rfl).hasType, decide_eq_false (htype entry rfl)]
    have hevents : next.auditTrail.events = state.auditTrail.events ++ [entry] := by simpa using h.events
    rw [publications, MemoryAuditTrail.readRange_append hevents, List.filter_append,
      List.map_append]
    by_cases hdecision : entry.decisionId.isStr decisionId = true
    · simp [hdecision, hroot, publications]
    · simp [hdecision, publications]

/-- A publication adds what its batch is named by to the stream of its decision. -/
theorem publications_of_published {stamped : StampedJob} {target eventId : String}
    (h : Appends env state next (some ⟨eventId, .str target, "MerkleRootPublished", payloadCommon stamped, none⟩)) :
    publications next.auditTrail decisionId =
      publications state.auditTrail decisionId ++
        if target = decisionId then [nameOf stamped.job] else [] := by
  have honest : Entry.Honest ⟨eventId, .str target, "MerkleRootPublished", payloadCommon stamped, none⟩ := by
    simp [Entry.Honest, payloadCommon]
  have hroot : isRootEvent (Entry.record ⟨eventId, .str target, "MerkleRootPublished", payloadCommon stamped,
      none⟩) = true := by
    rw [isRootEvent, honest.hasType]
    rfl
  have hnamed : namedBatch (Entry.record ⟨eventId, .str target, "MerkleRootPublished", payloadCommon stamped,
      none⟩) = nameOf stamped.job := by
    simp [namedBatch, nameOf, Entry.record_get?, payloadCommon]
  rw [publications, MemoryAuditTrail.readRange_append h.events, List.filter_append, List.map_append]
  by_cases hdecision : target = decisionId
  · subst hdecision
    simp [hroot, hnamed, publications, Json.isStr]
  · simp [hdecision, publications, Json.isStr]

end Trail

/-! ## Tasks -/

theorem perm_eq_of_length_le_one {α : Type} {first second : List α} (h : first.Perm second)
    (hlength : first.length ≤ 1) : first = second := by
  rcases first with _ | ⟨item, _ | ⟨other, rest⟩⟩
  · exact h.nil_eq
  · exact (List.perm_singleton.mp h.symm).symm
  · simp at hlength

theorem filterMap_singleton_eq {α β : Type} (f : α → Option β) (item : α) :
    [item].filterMap f = (f item).toList := by
  cases h : f item <;> simp [h]

theorem Task.published?_of_job? {task : Task} (h : task.job? = none) (decisionId : String) :
    task.published? decisionId = none := by
  obtain ⟨call, pc⟩ := task
  cases pc <;> simp_all [Task.job?, Task.published?]

section Moved

variable {sys : System} {index : ℕ} {task : Task} (state : AppState) (move : Move) (decisionId : String)

/-- Publications in flight belong to batches in flight. -/
theorem published_length_le (sys : System) :
    (sys.tasks.filterMap (Task.published? decisionId)).length ≤ sys.held.length := by
  rw [System.held, List.length_filterMap_eq_countP, List.length_filterMap_eq_countP]
  apply List.countP_mono_left
  intro task _ hpublished
  cases hjob : task.job? with
  | some job => rfl
  | none =>
    rw [Task.published?_of_job? hjob] at hpublished
    cases hpublished

/-- While at most one batch is in flight, the task that has it accounts for all publications in
flight. -/
theorem published_of_held (hone : sys.held.length ≤ 1) (htask : sys.tasks[index]? = some task)
    (hjob : task.job?.isSome = true) :
    sys.tasks.filterMap (Task.published? decisionId) = (task.published? decisionId).toList ∧
      (sys.advance index task state move).tasks.filterMap (Task.published? decisionId) =
        (task.after move).filterMap (Task.published? decisionId) := by
  obtain ⟨job, hjob⟩ := Option.isSome_iff_exists.mp hjob
  have hperm := System.tasks_perm htask
  have hothers : (sys.tasks.eraseIdx index).filterMap Task.job? = [] := by
    have hlength := (hperm.filterMap Task.job?).length_eq
    rw [List.filterMap_cons_some hjob, List.length_cons] at hlength
    rw [System.held] at hone
    exact List.eq_nil_of_length_eq_zero (by omega)
  have hnone : (sys.tasks.eraseIdx index).filterMap (Task.published? decisionId) = [] := by
    rw [List.filterMap_eq_nil_iff] at hothers ⊢
    exact fun other hother ↦ Task.published?_of_job? (hothers other hother) decisionId
  constructor
  · have hflight := hperm.filterMap (Task.published? decisionId)
    rw [← List.singleton_append, List.filterMap_append, hnone, List.append_nil] at hflight
    rw [filterMap_singleton_eq] at hflight
    apply perm_eq_of_length_le_one hflight
    exact (published_length_le decisionId sys).trans hone
  · have hmoved : (sys.advance index task state move).tasks.Perm _ := System.advance_tasks_perm htask
    have hflight := hmoved.filterMap (Task.published? decisionId)
    rw [List.filterMap_append, hnone, List.append_nil] at hflight
    apply (perm_eq_of_length_le_one hflight.symm _).symm
    apply (List.length_filterMap_le _ _).trans
    cases move <;> simp [Task.after]

/-- A task without a batch does not change the publications in flight. -/
theorem published_of_idle (hone : sys.held.length ≤ 1) (htask : sys.tasks[index]? = some task)
    (hjob : task.job? = none) (hafter : ∀ other ∈ task.after move, other.published? decisionId = none) :
    (sys.advance index task state move).tasks.filterMap (Task.published? decisionId) =
      sys.tasks.filterMap (Task.published? decisionId) := by
  have hbefore := (System.tasks_perm htask).filterMap (Task.published? decisionId)
  rw [List.filterMap_cons_none (Task.published?_of_job? hjob decisionId)] at hbefore
  have hmoved : (sys.advance index task state move).tasks.Perm _ := System.advance_tasks_perm htask
  have hflight := hmoved.filterMap (Task.published? decisionId)
  rw [List.filterMap_append, List.filterMap_eq_nil_iff.mpr hafter, List.nil_append] at hflight
  symm
  apply perm_eq_of_length_le_one (hbefore.trans hflight.symm)
  exact (published_length_le decisionId sys).trans hone

end Moved

/-! ## Segments -/

section Segments

variable {now : Instant} {state next : AppState} {task : Task} {move : Move} {decisionId : String}

/-- A closer stores nothing before it has a batch. -/
theorem resume_closer_entry (hcloser : task.call.isCloser = true) (hpc : task.pc = .entry) :
    (resume env now state task).1.auditTrail = state.auditTrail := by
  have hclose (guard : Bool) : (closeIf env guard state).1.auditTrail = state.auditTrail := by
    unfold closeIf closeEntry
    cases guard with
    | false => rfl
    | true =>
      cases state.merkleBuilder.closeAndReset env.sha256 with
      | mk builder result => cases result <;> rfl
  simp only [resume, hpc]
  cases hcall : task.call with
  | maybeCloseAndAnchor => exact hclose _
  | forceClose => exact hclose _
  | _ => simp [hcall, Call.isCloser] at hcloser

/-- A segment of a task without a batch publishes nothing. -/
theorem Resumed.publications_idle (h : Resumed env now state task next move) (hsound : task.Sound env)
    (hresume : resume env now state task = (next, move)) (hconforms : task.call.Conforms env)
    (hjob : task.job? = none) :
    publications next.auditTrail decisionId = publications state.auditTrail decisionId := by
  cases h with
  | @quiet _ _ stored happends horigin hadd _ hcalm =>
    by_cases hcloser : task.call.isCloser = true
    · have hpc : task.pc = .entry := by
        cases hpc : task.pc with
        | entry => rfl
        | reconciledGate payload => simp [hsound.gate payload hpc, Call.isCloser] at hcloser
        | addLeaf step => simp [Task.addLeaf?, hpc] at hadd
        | storeBoard board => simp [Call.isCloser_of_isRebuild (hsound.board board hpc)] at hcloser
        | sign job => simp [Task.job?, hpc] at hjob
        | stamp job signature => simp [Task.job?, hpc] at hjob
        | anchoring stamped todo => simp [Task.job?, hpc] at hjob
      have htrail : (resume env now state task).1.auditTrail = state.auditTrail :=
        resume_closer_entry hcloser hpc
      rw [hresume] at htrail
      rw [htrail]
    · refine publications_of_appends happends ?_ ?_
      · exact fun entry hentry ↦ Call.Stores.honest (.inl (horigin entry hentry)) hconforms.honest
      · intro entry hentry
        cases horigin entry hentry with
        | @inbound kind _ _ _ => exact kind.eventType_ne_registry.2.2.2
        | rejected _ => simp
        | superseded _ => simp
        | published hcall _ => exact absurd hcall hcloser
  | @committed _ commit hcommits _ _ happends =>
    refine publications_of_appends happends ?_ ?_
    · rintro entry ⟨⟩
      exact commit.entry_honest _
    · rintro entry ⟨⟩
      simp [Commit.entry]
  | anchored hpc _ => simp [Task.job?, hpc] at hjob
  | _ => rfl

/-- What is left of a task without a batch has published nothing. -/
theorem Resumed.published_idle (h : Resumed env now state task next move) (hjob : task.job? = none) :
    ∀ other ∈ task.after move, other.published? decisionId = none := by
  intro other hother
  cases h with
  | quiet _ _ _ _ hcalm =>
    cases hcalm with
    | gate _ | board _ =>
      obtain rfl := List.mem_singleton.mp hother
      rfl
    | _ => cases hother
  | committed _ _ _ _ | closed _ _ _ _ _ =>
    obtain rfl := List.mem_singleton.mp hother
    rfl
  | signed hpc | stamped hpc | anchored hpc _ => simp [Task.job?, hpc] at hjob
  | _ => cases hother

/-- A task that has not come to its publication for the decision. -/
theorem Task.published?_anchoring (call : Call) (stamped : StampedJob) (todo : List AnchorOp) :
    Task.published? decisionId ⟨call, .anchoring stamped todo⟩ =
      if Covers decisionId stamped.job ∧ .publishRoot decisionId ∉ todo then some (nameOf stamped.job)
      else none := rfl

/-- What a segment of a task with a batch publishes is in flight until the batch is marked. -/
theorem Resumed.published_held (h : Resumed env now state task next move) (hsound : task.Sound env)
    (hjob : task.job?.isSome = true) (hsystem : decisionId ≠ "system") :
    ∃ added, publications next.auditTrail decisionId = publications state.auditTrail decisionId ++ added ∧
      (task.published? decisionId).toList ++ added =
        (task.marks?.toList.filter (Covers decisionId)).map nameOf ++
          (task.after move).filterMap (Task.published? decisionId) := by
  obtain ⟨call, pc⟩ := task
  cases h with
  | quiet _ _ _ hnone _ | committed _ _ hnone _ =>
    rw [hnone] at hjob
    cases hjob
  | added hpc | stored hpc | closed hpc _ _ _ _ =>
    obtain rfl := hpc
    cases hjob
  | signed hpc =>
    obtain rfl := hpc
    exact ⟨[], by simp, rfl⟩
  | @stamped job signature hpc =>
    obtain rfl := hpc
    have hpublish : ¬ (Covers decisionId job ∧ .publishRoot decisionId ∉ anchorOps job) := by
      rintro ⟨hcovers, hnot⟩
      exact hnot ((publishRoot_mem_iff hsystem).mpr hcovers)
    refine ⟨[], by simp, ?_⟩
    simp [Task.after, Task.published?_anchoring, hpublish, Task.marks?]
    rfl
  | @anchored stamped op todo next hpc hran =>
    obtain rfl : pc = .anchoring stamped (op :: todo) := hpc
    obtain ⟨-, -, -, hsuffix⟩ := hsound.anchoring _ _ rfl
    have hlast := anchorOps_suffix hsuffix
    cases hran with
    | row _ =>
      have htodo : todo.isEmpty = false := by simpa using mt hlast.mpr (by simp)
      refine ⟨[], by simp, ?_⟩
      have hafter := filterMap_singleton_eq (Task.published? decisionId) ⟨call, .anchoring stamped todo⟩
      simp [htodo, Task.after, hafter, Task.published?_anchoring, Task.marks?]
    | @published target next happends =>
      have htodo : todo.isEmpty = false := by simpa using mt hlast.mpr (by simp)
      refine ⟨_, publications_of_published happends, ?_⟩
      have hafter := filterMap_singleton_eq (Task.published? decisionId) ⟨call, .anchoring stamped todo⟩
      by_cases htarget : target = decisionId
      · subst htarget
        have hcovers : Covers target stamped.job :=
          (publishRoot_mem_iff hsystem).mp (hsuffix.subset List.mem_cons_self)
        have hrest := publishRoot_notMem_rest hsystem hsuffix
        simp [htodo, Task.after, hafter, Task.published?_anchoring, Task.marks?, hcovers, hrest]
      · simp [htodo, Task.after, hafter, Task.published?_anchoring, Task.marks?, htarget, Ne.symm htarget]
    | marked =>
      obtain rfl := hlast.mp rfl
      refine ⟨[], by simp [publications, MemoryAuditTrail.markBatched, MemoryAuditTrail.readRange,
        MemoryAuditTrail.entriesOf], ?_⟩
      by_cases hcovers : Covers decisionId stamped.job
      · simp [Task.after, Task.published?_anchoring, Task.marks?, hcovers]
      · simp [Task.after, Task.published?_anchoring, Task.marks?, hcovers]

end Segments

/-! ## Runs -/

/-- Payloads conform to their models, no await fails, and batches are anchored one at a time. -/
structure Orderly (env : Env) (sys : System) (label : Label) : Prop where
  conforms : label.Starts (Call.Conforms env)
  succeeds : label.Succeeds
  one : sys.held.length ≤ 1

section Runs

variable {maxLeaves : ℤ} {maxSeconds : ℚ} {trace : List (System × Label)} {last : System} {decisionId : String}

theorem Orderly.along_conforms (orderly : Along (Orderly env) trace) :
    Along (fun _ label ↦ label.Starts (Call.Conforms env)) trace :=
  fun entry hentry ↦ (orderly entry hentry).conforms

/-- The publications in a decision's stream are those of the marked batches with a leaf of it, and of
the batch in flight. -/
theorem Run.publications_eq (run : Run (System.step env) (System.initial maxLeaves maxSeconds) trace last)
    (orderly : Along (Orderly env) trace) (hsystem : decisionId ≠ "system") :
    publications last.state.auditTrail decisionId =
      (last.history.marked.filter (Covers decisionId)).map nameOf ++
        last.tasks.filterMap (Task.published? decisionId) := by
  refine run.keeps (fun sys ↦ publications sys.state.auditTrail decisionId =
      (sys.history.marked.filter (Covers decisionId)).map nameOf ++
        sys.tasks.filterMap (Task.published? decisionId)) orderly ?_ ?_
  · simp [System.initial, AppState.initial, MemoryAuditTrail.empty, publications,
      MemoryAuditTrail.readRange, MemoryAuditTrail.entriesOf]
  rintro before sys label next hrun hbefore hallowed hstepped hinv
  cases hstepped with
  | started =>
    have hentry (call : Call) : Task.published? decisionId ⟨call, .entry⟩ = none := rfl
    simpa [List.filterMap_cons, hentry] using hinv
  | @resumed index now task state move htask hsound hres hresume =>
    have hmarked : (sys.advance index task state move).history.marked =
        sys.history.marked ++ task.marks?.toList := rfl
    by_cases hjob : task.job? = none
    · have hconforms := (hrun.storedBy (Orderly.along_conforms hbefore)).1 task (List.mem_of_getElem? htask)
      have hsame : publications state.auditTrail decisionId =
          publications sys.state.auditTrail decisionId :=
        hres.publications_idle hsound hresume hconforms hjob
      have hflight := published_of_idle state move decisionId hallowed.one htask hjob (hres.published_idle hjob)
      rw [hmarked, Task.marks?_of_job? hjob, Option.toList_none, List.append_nil, hflight, ← hinv]
      exact hsame
    · have hheld : task.job?.isSome = true := Option.isSome_iff_ne_none.mpr hjob
      obtain ⟨added, hadded, hmoved⟩ := hres.published_held hsound hheld hsystem
      obtain ⟨hflight, hafter⟩ := published_of_held state move decisionId hallowed.one htask hheld
      rw [hflight] at hinv
      rw [hmarked, hafter, List.filter_append, List.map_append, List.append_assoc, ← hmoved, ← List.append_assoc,
        ← hinv]
      exact hadded
  | failed => exact hallowed.succeeds.elim

/-- The root a stream shows is the one its last publication names. -/
theorem merkleRootRef_of_named {log : List PyDict} {jobs : List AnchorJob}
    (h : (log.filter isRootEvent).map namedBatch = jobs.map nameOf) :
    merkleRootRef log = .ok ((jobs.getLast?.map fun job ↦ hex job.root).map Json.str) := by
  have hlast : (lastRootEvent log).map namedBatch = jobs.getLast?.map nameOf := by
    rw [lastRootEvent_eq, ← List.getLast?_map, h, List.getLast?_map]
  unfold merkleRootRef
  cases hevent : lastRootEvent log with
  | none =>
    rw [hevent, Option.map_none, eq_comm, Option.map_eq_none_iff] at hlast
    rw [hlast]
    rfl
  | some evt =>
    rw [hevent, Option.map_some, eq_comm] at hlast
    obtain ⟨job, hjob, hname⟩ := Option.map_eq_some_iff.mp hlast
    have hroot : evt.get? "root" = some (.str (hex job.root)) := (Prod.mk.inj hname).2.symm
    rw [hjob]
    simp [MetricsRegistry.item_eq hroot, Except.map]

end Runs

theorem commitAndClose_orderly :
    Along (Orderly .local) (traceOf (System.step .local) (System.initial 100 60) commitAndClose) := by
  have hconforms : Along (fun _ label ↦ Label.Starts (Call.Conforms .local) label ∧ Label.Succeeds label)
      (traceOf (System.step .local) (System.initial 100 60) commitAndClose) := by
    apply along_traceOf
    simp [commitAndClose, uninterrupted, Label.Starts, Call.Conforms, Label.Succeeds]
  have hone : (traceOf (System.step .local) (System.initial 100 60) commitAndClose).all
      (fun entry ↦ decide (entry.1.held.length ≤ 1)) = true := by decide +kernel
  intro entry hentry
  obtain ⟨hstarts, hsucceeds⟩ := hconforms entry hentry
  exact ⟨hstarts, hsucceeds, of_decide_eq_true (List.all_eq_true.mp hone entry hentry)⟩

end DecisionCore
