import DecisionCore.Infrastructure.LocalEnv
import DecisionCore.System.Deliveries
import DecisionCore.System.Provenance

/-!
# What an acknowledged append leaves in the log

The index of idempotency keys is one for all decisions, metrics, commits and supersessions.  An
append under a key that is known stores nothing, whatever the key was used for, so an acknowledged
commit or supersession is in the log of its decision exactly when its key was free or already stood
for the same thing there.
-/

namespace DecisionCore

open CommandHandler MerkleAnchorService

variable {env : Env}

/-- A reader of the decision's stream finds a record with the property. -/
def Shows (trail : MemoryAuditTrail) (decisionId : String) (p : PyDict → Prop) : Prop :=
  ∃ record ∈ trail.readRange decisionId 0, p record

/-- The key stands for an event that is not the same. -/
def TakenByOther (trail : MemoryAuditTrail) (key : String) (same : Entry → Prop) : Prop :=
  ∃ entry ∈ trail.events, entry.idempotencyKey = some key ∧ ¬ same entry

instance (trail : MemoryAuditTrail) (decisionId : String) (p : PyDict → Prop) [DecidablePred p] :
    Decidable (Shows trail decisionId p) :=
  inferInstanceAs (Decidable (∃ record ∈ trail.readRange decisionId 0, p record))

instance (trail : MemoryAuditTrail) (key : String) (same : Entry → Prop) [DecidablePred same] :
    Decidable (TakenByOther trail key same) :=
  inferInstanceAs (Decidable (∃ entry ∈ trail.events, entry.idempotencyKey = some key ∧ ¬ same entry))

theorem shows_iff {trail : MemoryAuditTrail} {decisionId : String} {p : PyDict → Prop} :
    Shows trail decisionId p ↔
      ∃ entry ∈ trail.events, entry.decisionId = .str decisionId ∧ p entry.record := by
  simp only [Shows, MemoryAuditTrail.readRange, sliceFrom_zero, List.mem_map,
    MemoryAuditTrail.mem_entriesOf]
  constructor
  · rintro ⟨record, ⟨entry, ⟨hentry, hdecision⟩, rfl⟩, hp⟩
    exact ⟨entry, hentry, hdecision, hp⟩
  · rintro ⟨entry, hentry, hdecision, hp⟩
    exact ⟨entry.record, ⟨entry, ⟨hentry, hdecision⟩, rfl⟩, hp⟩

section Append

variable {state : AppState} {decisionId eventType key : String} {payload : PyDict}
  {p : PyDict → Prop} {same : Entry → Prop}

/-- A key in the index stands for an event of the trail. -/
theorem TrailOk.entry_of_known (h : TrailOk env state)
    (hknown : (state.auditTrail.existing? (some key)).isSome = true) :
    ∃ entry ∈ state.auditTrail.events, entry.idempotencyKey = some key := by
  have hmem : key ∈ state.auditTrail.events.filterMap (·.idempotencyKey) := by
    by_contra hnot
    have hnone := (h.indexed key).mpr hnot
    simp [MemoryAuditTrail.existing?, hnone] at hknown
  exact List.mem_filterMap.mp hmem

/-- After an append under a key the decision's stream shows what was to be stored, unless the key
stands for something else and the stream did not show it before. -/
theorem TrailOk.append_shows_iff (h : TrailOk env state)
    (hnew : p (Entry.record ⟨env.uuid4 state.drawn, .str decisionId, eventType, payload, some key⟩))
    (hsame : ∀ entry ∈ state.auditTrail.events, entry.idempotencyKey = some key → same entry →
      entry.decisionId = .str decisionId ∧ p entry.record) :
    Shows (state.append env (.str decisionId) eventType payload (some key)).1.auditTrail decisionId p ↔
      ¬ (TakenByOther state.auditTrail key same ∧ ¬ Shows state.auditTrail decisionId p) := by
  cases hexisting : state.auditTrail.existing? (some key) with
  | none =>
    have happends : Appends env state (state.append env (.str decisionId) eventType payload (some key)).1
      (some ⟨env.uuid4 state.drawn, .str decisionId, eventType, payload, some key⟩) :=
      append_fresh hexisting (.inr rfl)
    refine iff_of_true ?_ ?_
    · rw [shows_iff, happends.events]
      exact ⟨_, List.mem_append_right _ List.mem_cons_self, rfl, hnew⟩
    · rintro ⟨⟨entry, hentry, hkey, -⟩, -⟩
      exact (h.indexed key).mp hexisting (List.mem_filterMap.mpr ⟨entry, hentry, hkey⟩)
  | some existing =>
    have happends : Appends env state (state.append env (.str decisionId) eventType payload (some key)).1
      none := append_known hexisting
    have hevents : (state.append env (.str decisionId) eventType payload (some key)).1.auditTrail.events =
        state.auditTrail.events := by simpa using happends.events
    have hshows : Shows (state.append env (.str decisionId) eventType payload (some key)).1.auditTrail
        decisionId p ↔ Shows state.auditTrail decisionId p := by
      rw [shows_iff, shows_iff, hevents]
    rw [hshows, not_and_not_right]
    constructor
    · exact fun hshown _ ↦ hshown
    · intro htaken
      have hknown : (state.auditTrail.existing? (some key)).isSome = true := by simp [hexisting]
      obtain ⟨entry, hentry, hkey⟩ := h.entry_of_known hknown
      by_cases hentrySame : same entry
      · exact shows_iff.mpr ⟨entry, hentry, hsame entry hentry hkey hentrySame⟩
      · exact htaken ⟨entry, hentry, hkey, hentrySame⟩

end Append

/-! ## Updates -/

/-- The record of the commit a command asks for. -/
def CommitRecord (cmd : UpdateMetricCommand) (record : PyDict) : Prop :=
  record.hasType "MetricCommitted" = true ∧ record.get? "metric_name" = some (.str cmd.metricName) ∧
    record.get? "idempotency_key" = some (.str cmd.idempotencyKey)

/-- The event is a commit of the decision and the metric of a command. -/
def SameCommit (cmd : UpdateMetricCommand) (entry : Entry) : Prop :=
  entry.eventType = "MetricCommitted" ∧ entry.decisionId = .str cmd.decisionId ∧
    entry.payload.get? "metric_name" = some (.str cmd.metricName)

instance (cmd : UpdateMetricCommand) : DecidablePred (CommitRecord cmd) := fun record ↦
  inferInstanceAs (Decidable (record.hasType "MetricCommitted" = true ∧ _))

instance (cmd : UpdateMetricCommand) : DecidablePred (SameCommit cmd) := fun entry ↦
  inferInstanceAs (Decidable (entry.eventType = "MetricCommitted" ∧ _))

theorem Commit.commitRecord (commit : Commit) (eventId : String) {cmd : UpdateMetricCommand}
    (hmetric : commit.metricName = cmd.metricName) (hkey : commit.idempotencyKey = cmd.idempotencyKey) :
    CommitRecord cmd (commit.entry env eventId).record := by
  have honest : (commit.entry env eventId).Honest := by
    simp [Entry.Honest, Commit.entry, committedPayload]
  refine ⟨?_, ?_, ?_⟩
  · rw [honest.hasType]
    rfl
  · simp [Entry.record_get?, Commit.entry, committedPayload, hmetric]
  · simp [Entry.record_get?, Commit.entry, committedPayload, hkey]

/-- The commit a command with evidence asks for at a moment. -/
def UpdateMetricCommand.commit (cmd : UpdateMetricCommand) (now : Instant) : Commit :=
  ⟨cmd.decisionId, cmd.metricName, cmd.value, cmd.evidenceRefs, cmd.idempotencyKey, .str cmd.proposedBy, now⟩

/-- The first segment of a command with evidence is that of its commit. -/
theorem updateMetricEntry_commits (env : Env) (state : AppState) (now : Instant) {cmd : UpdateMetricCommand}
    (hrefs : cmd.evidenceRefs ≠ []) : updateMetricEntry env state now cmd = (cmd.commit now).segment env state := by
  have hempty : cmd.evidenceRefs.isEmpty = false := by simpa using hrefs
  have hiter : (Json.ofStrs cmd.evidenceRefs).iterStrs? = some cmd.evidenceRefs :=
    Json.mapM_asStr?_map_str cmd.evidenceRefs
  simp only [updateMetricEntry, hempty, Bool.false_eq_true, if_false]
  exact commitAppend_eq env state (cmd.commit now) hiter

/-- The first segment of a command with evidence is one append under its key, after which the leaf is
left to be added or, when the key is known, nothing. -/
theorem updateMetricEntry_append (env : Env) (state : AppState) (now : Instant) {cmd : UpdateMetricCommand}
    (hrefs : cmd.evidenceRefs ≠ []) :
    ∃ progress, updateMetricEntry env state now cmd =
        ((state.append env (.str cmd.decisionId) "MetricCommitted" ((cmd.commit now).entry env "").payload
          (some cmd.idempotencyKey)).1, .ok progress) ∧
      (progress = .done (some ⟨.duplicateIgnored, none⟩) ∨ ∃ step, progress = .addLeaf step) := by
  refine ⟨_, updateMetricEntry_commits env state now hrefs, ?_⟩
  split
  · exact .inl rfl
  · exact .inr ⟨_, rfl⟩

/-- A command with evidence is answered, and leaves the trail of that append. -/
theorem handleUpdateMetric_commit (env : Env) (state : AppState) (now : Instant) {cmd : UpdateMetricCommand}
    (hrefs : cmd.evidenceRefs ≠ []) :
    ∃ result, (handleUpdateMetric env state now cmd).2 = .ok (some result) ∧
      (result.status = .accepted ∨ result.status = .duplicateIgnored) ∧
      (handleUpdateMetric env state now cmd).1.auditTrail =
        (state.append env (.str cmd.decisionId) "MetricCommitted" ((cmd.commit now).entry env "").payload
          (some cmd.idempotencyKey)).1.auditTrail := by
  obtain ⟨progress, hentry, rfl | ⟨step, rfl⟩⟩ := updateMetricEntry_append env state now hrefs
  · rw [handleUpdateMetric, hentry]
    exact ⟨_, rfl, .inr rfl, rfl⟩
  · rw [handleUpdateMetric, hentry]
    exact ⟨_, rfl, .inl rfl, rfl⟩

section Runs

variable {maxLeaves : ℤ} {maxSeconds : ℚ} {trace : List (System × Label)} {last : System}

/-- A commit stored under a key that is of the same decision and metric is the one a command asks
for. -/
theorem Run.commitRecord_of_same
    (run : Run (System.step env) (System.initial maxLeaves maxSeconds) trace last) {cmd : UpdateMetricCommand}
    {entry : Entry} (hentry : entry ∈ last.state.auditTrail.events)
    (hkey : entry.idempotencyKey = some cmd.idempotencyKey) (hsame : SameCommit cmd entry) :
    entry.decisionId = .str cmd.decisionId ∧ CommitRecord cmd entry.record := by
  obtain ⟨htype, hdecision, hmetric⟩ := hsame
  obtain ⟨commit, hcommit⟩ := run.committed_entry hentry htype
  refine ⟨hdecision, ?_⟩
  rw [hcommit] at hkey hmetric ⊢
  apply commit.commitRecord
  · simpa [Commit.entry, committedPayload] using hmetric
  · simpa [Commit.entry] using hkey

/-- The segments of a command with evidence leave its key in the trail. -/
theorem resume_commits_key {now : Instant} {state next : AppState} {task : Task} {move : Move}
    {cmd : UpdateMetricCommand} (hrefs : cmd.evidenceRefs ≠ []) (hsound : task.Sound env)
    (htrail : TrailOk env state) (hcall : task.call = .updateMetric cmd)
    (hadding : ∀ step, task.pc = .addLeaf step →
      cmd.idempotencyKey ∈ state.auditTrail.events.filterMap (·.idempotencyKey))
    (hresume : resume env now state task = (next, move)) :
    cmd.idempotencyKey ∈ next.auditTrail.events.filterMap (·.idempotencyKey) := by
  obtain ⟨call, pc⟩ := task
  obtain rfl : call = .updateMetric cmd := hcall
  have hnext : (resume env now state ⟨.updateMetric cmd, pc⟩).1 = next := congrArg Prod.fst hresume
  rw [← hnext]
  cases pc with
  | entry =>
    obtain ⟨progress, hentry, -⟩ := updateMetricEntry_append env state now hrefs
    change _ ∈ List.filterMap _ (updateMetricEntry env state now cmd).1.auditTrail.events
    rw [hentry]
    exact htrail.append_key _ _ _ _
  | reconciledGate payload => cases hsound.gate payload rfl
  | addLeaf step => exact hadding step rfl
  | storeBoard board => cases hsound.board board rfl
  | sign job => cases (hsound.sign job rfl).1
  | stamp job signature => cases (hsound.stamp job signature rfl).1
  | anchoring stamped todo => cases (hsound.anchoring stamped todo rfl).1

/-- The key of an answered command with evidence is in the trail. -/
theorem Run.answered_key
    (run : Run (System.step env) (System.initial maxLeaves maxSeconds) trace last)
    {cmd : UpdateMetricCommand} (hrefs : cmd.evidenceRefs ≠ []) {answer : Answer}
    (hanswer : (.updateMetric cmd, answer) ∈ last.history.answers) :
    cmd.idempotencyKey ∈ last.state.auditTrail.events.filterMap (·.idempotencyKey) := by
  refine (run.left_behind (fun state ↦
    cmd.idempotencyKey ∈ state.auditTrail.events.filterMap (·.idempotencyKey)) rfl ?_ ?_).2 answer hanswer
  · exact fun hpersists hkey ↦ (hpersists.events.filterMap _).subset hkey
  · exact fun hsound htrail hcall hadding hresume _ ↦
      resume_commits_key hrefs hsound htrail hcall hadding hresume

end Runs

/-- The command of another client that chose the same key for its own decision. -/
def otherDecisionCommand : UpdateMetricCommand := { sampleCommand with decisionId := "d2" }

/-- The record of the supersession the arguments ask for. -/
def SupersededRecord (args : SupersedeArgs) (record : PyDict) : Prop :=
  record.hasType "MetricSuperseded" = true ∧ record.get? "metric_name" = some (.str args.metricName) ∧
    record.get? "original_leaf_hash" = some (.str args.originalLeafHash) ∧
    record.get? "superseded_by_idempotency_key" = some (.str args.supersedingIdempotencyKey)

/-- The event is a supersession of the decision, the metric and the leaf of the arguments. -/
def SameSupersession (args : SupersedeArgs) (entry : Entry) : Prop :=
  entry.eventType = "MetricSuperseded" ∧ entry.decisionId = .str args.decisionId ∧
    entry.payload.get? "metric_name" = some (.str args.metricName) ∧
    entry.payload.get? "original_leaf_hash" = some (.str args.originalLeafHash)

instance (args : SupersedeArgs) : DecidablePred (SupersededRecord args) := fun record ↦
  inferInstanceAs (Decidable (record.hasType "MetricSuperseded" = true ∧ _))

instance (args : SupersedeArgs) : DecidablePred (SameSupersession args) := fun entry ↦
  inferInstanceAs (Decidable (entry.eventType = "MetricSuperseded" ∧ _))

/-- The record of a stored supersession is one of every supersession that agrees with it on metric,
leaf and key. -/
theorem supersededRecord_entry (env : Env) (eventId : String) (now : Instant) {args asked : SupersedeArgs}
    (hmetric : args.metricName = asked.metricName) (hleaf : args.originalLeafHash = asked.originalLeafHash)
    (hkey : args.supersedingIdempotencyKey = asked.supersedingIdempotencyKey) :
    SupersededRecord asked (Entry.record ⟨eventId, .str args.decisionId, "MetricSuperseded",
      supersededPayload env now args, some args.supersedingIdempotencyKey⟩) := by
  have honest : Entry.Honest ⟨eventId, .str args.decisionId, "MetricSuperseded",
      supersededPayload env now args, some args.supersedingIdempotencyKey⟩ := by
    simp [Entry.Honest, supersededPayload]
  refine ⟨?_, ?_, ?_, ?_⟩
  · rw [honest.hasType]
    rfl
  · simp [Entry.record_get?, supersededPayload, hmetric]
  · simp [Entry.record_get?, supersededPayload, hleaf]
  · simp [Entry.record_get?, supersededPayload, hkey]

section Runs

variable {maxLeaves : ℤ} {maxSeconds : ℚ} {trace : List (System × Label)} {last : System}

theorem Run.supersededRecord_of_same
    (run : Run (System.step env) (System.initial maxLeaves maxSeconds) trace last) {args : SupersedeArgs}
    {entry : Entry} (hentry : entry ∈ last.state.auditTrail.events)
    (hkey : entry.idempotencyKey = some args.supersedingIdempotencyKey) (hsame : SameSupersession args entry) :
    entry.decisionId = .str args.decisionId ∧ SupersededRecord args entry.record := by
  obtain ⟨htype, hdecision, hmetric, hleaf⟩ := hsame
  obtain ⟨stored, now, hstored⟩ := run.superseded_entry hentry htype
  refine ⟨hdecision, ?_⟩
  rw [hstored] at hkey hmetric hleaf ⊢
  apply supersededRecord_entry env entry.eventId now
  · simpa [supersededPayload] using hmetric
  · simpa [supersededPayload] using hleaf
  · simpa using hkey

/-- In every reachable state a supersession returns.  The decision's stream then shows it, unless its
key stands for something else (a commit, or a supersession of another decision, metric or leaf) and
no record of the stream claimed to be it before. -/
theorem supersession_in_log_iff
    (run : Run (System.step env) (System.initial maxLeaves maxSeconds) trace last) (args : SupersedeArgs)
    (now : Instant) :
    (supersedeMetric env last.state now args).2 = .ok () ∧
      (Shows (supersedeMetric env last.state now args).1.auditTrail args.decisionId (SupersededRecord args) ↔
        ¬ (TakenByOther last.state.auditTrail args.supersedingIdempotencyKey (SameSupersession args) ∧
          ¬ Shows last.state.auditTrail args.decisionId (SupersededRecord args))) := by
  have hcall : supersedeMetric env last.state now args =
      ((last.state.append env (.str args.decisionId) "MetricSuperseded" (supersededPayload env now args)
        (some args.supersedingIdempotencyKey)).1, .ok ()) := by
    rw [supersedeMetric, append_result_pair env last.state "MetricSuperseded" _ _ rfl]
    rfl
  rw [hcall]
  refine ⟨rfl, run.trailOk.append_shows_iff ?_ ?_⟩
  · exact supersededRecord_entry env (env.uuid4 last.state.drawn) now rfl rfl rfl
  · intro entry hentry hkey hsame
    exact run.supersededRecord_of_same hentry hkey hsame

end Runs

/-- A supersession of the sample's metric under a key. -/
def sampleSupersession (key : String) : SupersedeArgs := ⟨"d1", "roi", "00", "CRITICAL", key⟩

/-- Under a key of its own a supersession reaches the log. -/
theorem fresh_supersession_in_log :
    ∃ last, follow (System.step .local) (System.initial 100 60)
        (uninterrupted (.updateMetric sampleCommand) 2) = some last ∧
      Shows (supersedeMetric .local last.state 0 (sampleSupersession "k2")).1.auditTrail "d1"
        (SupersededRecord (sampleSupersession "k2")) := by
  have hrun : (follow (System.step .local) (System.initial 100 60)
      (uninterrupted (.updateMetric sampleCommand) 2)).any (fun last ↦
        decide (¬ TakenByOther last.state.auditTrail "k2" (SameSupersession (sampleSupersession "k2")))) =
      true := by
    decide +kernel
  obtain ⟨last, hlast, hfree⟩ := exists_follow hrun
  have hshows := (supersession_in_log_iff (Run.of_follow hlast) (sampleSupersession "k2") 0).2
  exact ⟨last, hlast, hshows.mpr fun htaken ↦ hfree htaken.1⟩

/-- A supersession that names the record superseding the old one by its key is dropped: the key
stands for the commit of that record. -/
theorem supersession_by_committed_key_dropped :
    ∃ last, follow (System.step .local) (System.initial 100 60)
        (uninterrupted (.updateMetric sampleCommand) 2 ++
          uninterrupted (.updateMetric (sampleCommit "roi" (.int 2) "k2")) 2) = some last ∧
      (supersedeMetric .local last.state 0 (sampleSupersession "k2")).2 = .ok () ∧
      ¬ Shows (supersedeMetric .local last.state 0 (sampleSupersession "k2")).1.auditTrail "d1"
        (SupersededRecord (sampleSupersession "k2")) :=
  exists_follow (by decide +kernel)

end DecisionCore
