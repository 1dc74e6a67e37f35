import DecisionCore.Application.CompletionCriteria
import DecisionCore.ReadModel.EvidenceGate
import DecisionCore.ReadModel.Histories
import DecisionCore.ReadModel.ProofAgreement
import DecisionCore.System.Acknowledged
import DecisionCore.System.CommitPath

/-!
# Readiness on both sides

The staging area of the command handler and the registry replayed from the log both say which metrics of a decision
are terminal.  A command restages at most one metric and gives a record to at most that metric, so it keeps the two
sides in agreement or not by what it does to this one metric.  The staging area never holds the status of a rejection
or of a supersession, and it forgets the status of a commit when the metric is staged again.
-/

namespace DecisionCore

open CommandHandler MetricsRegistry CompletionCriteria

variable {env : Env}

/-! ## Records of a longer log -/

/-- The log supersedes neither a metric seen before it nor one that it has given a record. -/
def UnsupersededFrom (seen : List String) (log : List PyDict) : Prop :=
  (∀ evt ∈ log, ∀ name ∈ seen, supersedesMetric name evt = false) ∧ Unsuperseded log

instance (seen : List String) (log : List PyDict) : Decidable (UnsupersededFrom seen log) :=
  inferInstanceAs (Decidable (_ ∧ _))

theorem unsupersededFrom_cons (seen : List String) (evt : PyDict) (rest : List PyDict) :
    UnsupersededFrom seen (evt :: rest) ↔ (∀ name ∈ seen, supersedesMetric name evt = false) ∧
      UnsupersededFrom ((recordedMetric evt).toList ++ seen) rest := by
  simp only [UnsupersededFrom, Unsuperseded, List.forall_mem_cons, List.pairwise_cons, List.mem_append,
    Option.mem_toList, or_imp, forall_and]
  tauto

/-- The registry replays one more event, unless the log has ended its replay. -/
theorem replayed_concat (seen : List String) (log : List PyDict) (evt : PyDict) :
    replayed seen (log ++ [evt]) = replayed seen log ++ if UnsupersededFrom seen log then [evt] else [] := by
  induction log generalizing seen with
  | nil =>
    have hopen : UnsupersededFrom seen [] := ⟨by simp, List.Pairwise.nil⟩
    have hlast : replayed seen [evt] = [evt] := by
      rw [replayed]
      split <;> rfl
    rw [if_pos hopen, List.nil_append, hlast]
    rfl
  | cons first rest ih =>
    have hstop : (first.hasType "MetricSuperseded" && decide (∃ name ∈ seen, first.text? "metric_name" = some name)) =
        true ↔ ¬ ∀ name ∈ seen, supersedesMetric name first = false := by
      simp only [supersedesMetric, Bool.and_eq_true, decide_eq_true_eq, not_forall, Bool.not_eq_false, exists_prop]
      constructor
      · rintro ⟨htype, name, hmem, hname⟩
        exact ⟨name, hmem, htype, hname⟩
      · rintro ⟨name, hmem, htype, hname⟩
        exact ⟨htype, name, hmem, hname⟩
    rw [List.cons_append, replayed, replayed]
    by_cases hends : ∀ name ∈ seen, supersedesMetric name first = false
    · have hgoes := fun h ↦ hstop.mp h hends
      have hopen : UnsupersededFrom seen (first :: rest) ↔
          UnsupersededFrom ((recordedMetric first).toList ++ seen) rest := by
        rw [unsupersededFrom_cons]
        exact and_iff_right hends
      rw [if_neg hgoes, if_neg hgoes, ih, List.cons_append, if_congr hopen rfl rfl]
    · have hclosed : ¬ UnsupersededFrom seen (first :: rest) := by
        rw [unsupersededFrom_cons]
        exact fun h ↦ hends h.1
      rw [if_pos (hstop.mpr hends), if_pos (hstop.mpr hends), if_neg hclosed, List.append_nil]

/-- One more event gives a record to its metric as long as the log is unsuperseded. -/
theorem recorded_concat (log : List PyDict) (evt : PyDict) (name : String) :
    Recorded (log ++ [evt]) name ↔ Recorded log name ∨ Unsuperseded log ∧ recordedMetric evt = some name := by
  have hfrom : UnsupersededFrom [] log ↔ Unsuperseded log := and_iff_right (by simp)
  unfold Recorded
  rw [replayed_concat, if_congr hfrom rfl rfl]
  by_cases hopen : Unsuperseded log
  · simp [hopen, or_and_right, exists_or]
  · simp [hopen]

theorem unsuperseded_concat {log : List PyDict} {evt : PyDict} (h : evt.hasType "MetricSuperseded" = false) :
    Unsuperseded (log ++ [evt]) ↔ Unsuperseded log := by
  simp [Unsuperseded, List.pairwise_append, supersedesMetric, h]

/-! ## The two sides -/

/-- The log of a decision. -/
def AppState.log (state : AppState) (decisionId : String) : List PyDict := state.auditTrail.readRange decisionId 0

/-- The criterion gives the same answer on the staged statuses and on those of the replayed registry. -/
def ReadinessAgrees (env : Env) (state : AppState) : Prop :=
  ∀ decisionId requiredMetrics,
    (reconstruct env decisionId (state.log decisionId)).map
        (fun metrics ↦ isReadyToPublish requiredMetrics (registryStatuses metrics)) =
      .ok (isReadyToPublish requiredMetrics (stagedStatuses state.staging decisionId))

/-- Every stage is one that the handlers write, and the registry can read every event. -/
structure Legible (env : Env) (state : AppState) : Prop where
  staged : WellStaged state.staging
  events : ∀ decisionId, ∀ evt ∈ state.log decisionId, ∃ change, Reads env decisionId evt change

theorem legible_initial (env : Env) (maxLeaves : ℤ) (maxSeconds : ℚ) :
    Legible env (AppState.initial maxLeaves maxSeconds) where
  staged := wellStaged_empty
  events decisionId evt hevt := by
    simp [AppState.log, AppState.initial, MemoryAuditTrail.empty, MemoryAuditTrail.readRange,
      MemoryAuditTrail.entriesOf] at hevt

/-- Every record of the registry has a terminal status. -/
theorem terminal_registryStatuses {decisionId : String} {log : List PyDict} {metrics : Metrics}
    (h : reconstruct env decisionId log = .ok metrics) (name : String) :
    Terminal (registryStatuses metrics) name ↔ metrics.contains name = true := by
  have hterminal : ∀ name record, metrics.get? name = some record → record.status ∈ terminal := by
    apply replay_records (fun record ↦ record.status ∈ terminal) h
    · intro evt _ _ record hrecord
      rw [(committedRecord_ok hrecord).2.1]
      decide
    · intro evt _ _ record hrecord
      rw [(rejectedRecord_ok hrecord).2]
      decide
    · intro record by_ _
      change MetricStatus.superseded ∈ terminal
      decide
    · simp
  unfold Terminal Dict.contains
  rw [registryStatuses_get?]
  cases hget : metrics.get? name with
  | none => simp
  | some record => simpa using hterminal name record hget

/-- The two sides agree when every metric is staged as committed exactly when the registry has a record of it. -/
theorem Legible.agrees_iff {state : AppState} (h : Legible env state) : ReadinessAgrees env state ↔
    ∀ decisionId name, StagedCommitted state.staging decisionId name ↔ Recorded (state.log decisionId) name := by
  unfold ReadinessAgrees
  apply forall_congr'
  intro decisionId
  obtain ⟨changes, hchanges⟩ := exists_changes (h.events decisionId)
  have hmetrics : reconstruct env decisionId (state.log decisionId) = .ok (settle .empty changes) :=
    replay_eq_settle hchanges .empty
  simp only [hmetrics, Except.map, Except.ok.injEq]
  rw [isReadyToPublish_agree_iff]
  apply forall_congr'
  intro name
  rw [terminal_registryStatuses hmetrics, contains_settle hchanges .nil, h.staged.terminal_iff]
  simp only [List.not_mem_nil, false_or]
  exact iff_comm

/-! ## What a command does to one metric -/

/-- The staging area keeps its stages, or gets a stage of the metric, which is that of a commit or in flight. -/
inductive Restages (decisionId name : String) (before : Staging) : Option Bool → Staging → Prop
  | kept : Restages decisionId name before none before
  | set {stage : PyDict} {status : MetricStatus} : stageStatus? stage = some status →
    (status ∈ terminal → status = .committed) →
    Restages decisionId name before (some (decide (status = .committed)))
      (before.set (.str decisionId, .str name) stage)

/-- The metric is staged as committed behind a command that restages it, or keeps its stage. -/
def StagedAfter (state : AppState) (decisionId name : String) (staged : Option Bool) : Prop :=
  staged = some true ∨ staged = none ∧ StagedCommitted state.staging decisionId name

/-- What a part of a command does: the metric is staged as committed or not, or keeps its stage, and it is given a
record or not.  All other metrics are left alone. -/
structure Effect (env : Env) (decisionId name : String) (staged : Option Bool) (records : Bool)
    (state next : AppState) : Prop where
  legible : Legible env state → Legible env next
  staging : ∀ decision metric, StagedCommitted next.staging decision metric ↔
    if decision = decisionId ∧ metric = name then StagedAfter state decisionId name staged
    else StagedCommitted state.staging decision metric
  log : ∀ decision metric, Recorded (next.log decision) metric ↔ Recorded (state.log decision) metric ∨
    (records = true ∧ Unsuperseded (state.log decision)) ∧ decision = decisionId ∧ metric = name

section Effects

variable {state middle next : AppState} {decisionId name : String} {staged : Option Bool} {records : Bool}

theorem Restages.wellStaged {before after : Staging} (h : Restages decisionId name before staged after)
    (hbefore : WellStaged before) : WellStaged after := by
  cases h with
  | kept => exact hbefore
  | set hstatus hterminal => exact hbefore.set _ hstatus hterminal

theorem Restages.stagedCommitted (h : Restages decisionId name state.staging staged next.staging)
    (decision metric : String) : StagedCommitted next.staging decision metric ↔
      if decision = decisionId ∧ metric = name then StagedAfter state decisionId name staged
      else StagedCommitted state.staging decision metric := by
  generalize hafter : next.staging = after at h ⊢
  cases h with
  | kept =>
    split
    · rename_i hsame
      obtain ⟨rfl, rfl⟩ := hsame
      simp [StagedAfter]
    · exact Iff.rfl
  | set hstatus _ =>
    rw [stagedCommitted_set state.staging hstatus]
    simp [StagedAfter]

theorem AppState.log_of_events (h : next.auditTrail.events = state.auditTrail.events) (decision : String) :
    next.log decision = state.log decision := by
  simp only [AppState.log, MemoryAuditTrail.readRange, MemoryAuditTrail.entriesOf, h]

theorem AppState.log_of_stored {entry : Entry} (h : next.auditTrail.events = state.auditTrail.events ++ [entry])
    (decision : String) : next.log decision =
      state.log decision ++ if entry.decisionId = .str decision then [entry.record] else [] := by
  rw [AppState.log, MemoryAuditTrail.readRange_append h]
  by_cases hdecision : entry.decisionId = .str decision <;> simp [AppState.log, hdecision]

/-- Nothing is stored. -/
theorem Effect.of_silent (hevents : next.auditTrail.events = state.auditTrail.events)
    (hstaging : Restages decisionId name state.staging staged next.staging) :
    Effect env decisionId name staged false state next where
  legible h := by
    refine ⟨hstaging.wellStaged h.staged, ?_⟩
    intro decision
    rw [AppState.log_of_events hevents]
    exact h.events decision
  staging := hstaging.stagedCommitted
  log decision metric := by simp [AppState.log_of_events hevents]

/-- One event is stored, which gives a record to the metric or to none. -/
theorem Effect.of_stored {entry : Entry} (hevents : next.auditTrail.events = state.auditTrail.events ++ [entry])
    (hreads : ∀ decision, entry.decisionId = .str decision → ∃ change, Reads env decision entry.record change)
    (hrecorded : ∀ decision metric, entry.decisionId = .str decision ∧ recordedMetric entry.record = some metric ↔
      records = true ∧ decision = decisionId ∧ metric = name)
    (hstaging : Restages decisionId name state.staging staged next.staging) :
    Effect env decisionId name staged records state next where
  legible h := by
    refine ⟨hstaging.wellStaged h.staged, ?_⟩
    intro decision evt hevt
    rw [AppState.log_of_stored hevents] at hevt
    obtain hold | hnew := List.mem_append.mp hevt
    · exact h.events decision evt hold
    · split at hnew
      · rename_i hdecision
        obtain rfl := List.mem_singleton.mp hnew
        exact hreads decision hdecision
      · cases hnew
  staging := hstaging.stagedCommitted
  log decision metric := by
    have hmetric := hrecorded decision metric
    rw [AppState.log_of_stored hevents]
    by_cases hdecision : entry.decisionId = .str decision
    · rw [if_pos hdecision, recorded_concat]
      rw [and_iff_right hdecision] at hmetric
      rw [hmetric]
      tauto
    · rw [if_neg hdecision, List.append_nil]
      tauto

/-- A stage in flight, and behind it the rest of the command. -/
theorem Effect.trans {restaged : Option Bool} (first : Effect env decisionId name (some false) false state middle)
    (hopen : ∀ decision, Unsuperseded (middle.log decision) ↔ Unsuperseded (state.log decision))
    (second : Effect env decisionId name restaged records middle next) :
    Effect env decisionId name (some (restaged.getD false)) records state next where
  legible h := second.legible (first.legible h)
  staging decision metric := by
    rw [second.staging]
    split
    · have hmiddle := first.staging decisionId name
      cases restaged <;> simp [StagedAfter, hmiddle]
    · rename_i hother
      rw [first.staging, if_neg hother]
  log decision metric := by
    rw [second.log, first.log, hopen]
    simp

/-- The condition on the one metric under which the two sides stay in agreement. -/
def Balanced (state : AppState) (decisionId name : String) (staged : Option Bool) (records : Bool) : Prop :=
  StagedAfter state decisionId name staged ↔
    StagedCommitted state.staging decisionId name ∨ records = true ∧ Unsuperseded (state.log decisionId)

/-- Agreement is kept when it is kept for the one metric. -/
theorem Effect.agrees_iff (h : Effect env decisionId name staged records state next) (hlegible : Legible env state)
    (before : ReadinessAgrees env state) :
    ReadinessAgrees env next ↔ Balanced state decisionId name staged records := by
  rw [hlegible.agrees_iff] at before
  rw [(h.legible hlegible).agrees_iff]
  simp only [h.staging, h.log, ← before]
  unfold Balanced
  constructor
  · intro hafter
    simpa using hafter decisionId name
  · intro hbalanced decision metric
    by_cases hsame : decision = decisionId ∧ metric = name
    · obtain ⟨rfl, rfl⟩ := hsame
      simpa using hbalanced
    · simp [hsame]

end Effects

/-! ## The effects of the handlers -/

section Handlers

variable {state next : AppState} {payload : PyDict} {decision metric : String} {staged : Option Bool}

theorem stageStatus?_set (stage : PyDict) (status : MetricStatus) :
    stageStatus? (stage.set "status" (.str status.value)) = some status := by
  simp [stageStatus?, PyDict.text?, Json.asStr?]

theorem stageStatus?_critiqued (stage : PyDict) (level : Json) :
    stageStatus? ((stage.set "status" (.str MetricStatus.critiqued.value)).set "risk_level" level) =
      some .critiqued := by
  simp [stageStatus?, PyDict.text?, Json.asStr?]

/-- An event from the bus is stored. -/
theorem Effect.of_inbound {entry : Entry} {kind : Inbound} (honest : entry.Honest)
    (htype : entry.eventType = kind.eventType)
    (hevents : next.auditTrail.events = state.auditTrail.events ++ [entry])
    (hstaging : Restages decision metric state.staging staged next.staging) :
    Effect env decision metric staged false state next := by
  obtain ⟨hcommit, hreject, hsupersede, -⟩ := kind.eventType_ne_registry
  rw [← htype] at hcommit hreject hsupersede
  have hskip (decisionId : String) : Reads env decisionId entry.record .skip :=
    honest.skip decisionId hcommit hreject hsupersede
  apply Effect.of_stored hevents _ _ hstaging
  · exact fun decisionId _ ↦ ⟨.skip, hskip decisionId⟩
  · intro other name
    simp [(hskip other).recordedMetric]

/-- Events from the bus supersede nothing. -/
theorem unsuperseded_of_inbound {entry : Entry} {kind : Inbound} (honest : entry.Honest)
    (htype : entry.eventType = kind.eventType)
    (hevents : next.auditTrail.events = state.auditTrail.events ++ [entry]) (decisionId : String) :
    Unsuperseded (next.log decisionId) ↔ Unsuperseded (state.log decisionId) := by
  have hother : entry.record.hasType "MetricSuperseded" = false := by
    rw [honest.hasType, htype]
    exact decide_eq_false kind.eventType_ne_registry.2.2.1
  rw [AppState.log_of_stored hevents]
  split
  · exact unsuperseded_concat hother
  · rw [List.append_nil]

/-- A handler that stages its payload puts the metric in flight. -/
theorem stageAndAppend_effect (state : AppState) {kind : Inbound} (hconforms : kind.Conforms env payload)
    (hdecision : payload.text? "decision_id" = some decision) (hmetric : payload.text? "metric_name" = some metric)
    {stage : Option PyDict → PyDict} {status : MetricStatus} (hstatus : ∀ old, stageStatus? (stage old) = some status)
    (hflight : status ∉ terminal) :
    ∃ next, stageAndAppend env state kind.eventType payload stage = (next, .ok ()) ∧
      Effect env decision metric (some false) false state next ∧
      (∀ decisionId, Unsuperseded (next.log decisionId) ↔ Unsuperseded (state.log decisionId)) ∧
      ∀ key, next.auditTrail.existing? (some key) = state.auditTrail.existing? (some key) := by
  have hkey := stagingKey_of_texts (PyDict.get?_of_text? hdecision) (PyDict.get?_of_text? hmetric)
  obtain ⟨next, hcall, happends⟩ := stageAndAppend_ok env state hkey kind.eventType stage
  have honest : Entry.Honest ⟨env.uuid4 state.drawn, .str decision, kind.eventType, payload, none⟩ :=
    hconforms.event_type
  have hnext : next.staging = state.staging.set (.str decision, .str metric)
      (stage (state.staging.get? (.str decision, .str metric))) := by
    have hfirst := congrArg (fun outcome ↦ outcome.1.staging) hcall
    simp only [stageAndAppend, hkey] at hfirst
    exact hfirst.symm
  have hstaging : Restages decision metric state.staging (some false) next.staging := by
    have hne : status ≠ .committed := by
      rintro rfl
      exact hflight (by decide)
    rw [hnext, ← decide_eq_false hne]
    exact .set (hstatus _) fun hterminal ↦ absurd hterminal hflight
  refine ⟨next, hcall, .of_inbound honest rfl happends.events hstaging,
    unsuperseded_of_inbound honest rfl happends.events, ?_⟩
  intro key
  simpa [MemoryAuditTrail.existing?] using happends.index key

/-- A rejection gives the metric a record and leaves its stage. -/
theorem rejection_effect (env : Env) (state : AppState) (now : Instant) (decision metric key : String) :
    Effect env decision metric none true state (state.append env (.str decision) "MetricRejected"
      (rejectedPayload env (.str decision) (.str metric) (.str key) now) none).1 := by
  have happends := append_unkeyed env state (.str decision) "MetricRejected"
    (rejectedPayload env (.str decision) (.str metric) (.str key) now)
  have hreads (decisionId : String) : Reads env decisionId _ _ :=
    rejection_reads decisionId (env.uuid4 state.drawn) metric key (.str decision) now
  apply Effect.of_stored happends.events _ _ .kept
  · exact fun decisionId _ ↦ ⟨_, hreads decisionId⟩
  · intro other name
    simp [(hreads other).recordedMetric, rejection, eq_comm]

/-- A commit under a key that is known does nothing; under a new key it gives the metric a record and stages it as
committed. -/
theorem commit_effect (hdigest : env.DigestSized) (state : AppState) (commit : Commit) {proposer : String}
    (hproposed : commit.proposedBy = .str proposer) :
    Effect env commit.decisionId commit.metricName
      (if (state.auditTrail.existing? (some commit.idempotencyKey)).isSome then none else some true)
      (!(state.auditTrail.existing? (some commit.idempotencyKey)).isSome) state
      (finish (commit.segment env state)).1 := by
  have happends := commit.segment_appends env state
  unfold Commit.segment
  cases hexisting : state.auditTrail.existing? (some commit.idempotencyKey) with
  | some existing =>
    rw [hexisting] at happends
    have hevents : (commit.segment env state).1.auditTrail.events = state.auditTrail.events := by
      simpa using happends.events
    exact .of_silent hevents .kept
  | none =>
    rw [hexisting] at happends
    have hreads := commit.reads hdigest (env.uuid4 state.drawn) hproposed
    refine .of_stored happends.events ?_ ?_ ?_
    · intro decisionId hdecision
      obtain rfl : commit.decisionId = decisionId := Json.str.inj hdecision
      exact ⟨_, hreads⟩
    · intro other name
      have hrecorded := hreads.recordedMetric
      simp only [hrecorded]
      simp [Commit.record, Commit.entry, eq_comm]
    · refine .set ?_ fun _ ↦ rfl
      simp [stageStatus?, PyDict.text?, Json.asStr?]

/-- A handler that only appends leaves both sides as they are. -/
theorem appendInbound_effect {kind : Inbound} (hconforms : kind.Conforms env payload) (decision metric : String) :
    Effect env decision metric none false state (appendInbound env state kind.eventType payload).1 := by
  unfold appendInbound
  cases hdecision : field payload "decision_id" with
  | error error => exact .of_silent rfl .kept
  | ok decisionId =>
    have honest : Entry.Honest ⟨env.uuid4 state.drawn, decisionId, kind.eventType, payload, none⟩ :=
      hconforms.event_type
    exact .of_inbound honest rfl (append_unkeyed env state decisionId kind.eventType payload).events .kept

theorem appendRuntime_effect {kind : Inbound} (hconforms : kind.Conforms env payload) (decision metric : String) :
    Effect env decision metric none false state (appendRuntime env state kind.eventType payload).1 := by
  have honest : Entry.Honest ⟨env.uuid4 state.drawn, (payload.get? "decision_id").getD (.str "runtime"),
      kind.eventType, payload, none⟩ := hconforms.event_type
  exact .of_inbound honest rfl (append_unkeyed env state _ kind.eventType payload).events .kept

/-- A supersession gives no metric a record and restages none. -/
theorem supersedeMetric_effect (env : Env) (state : AppState) (now : Instant) (args : SupersedeArgs) :
    Effect env args.decisionId args.metricName none false state (supersedeMetric env state now args).1 := by
  have happends := supersedeMetric_appends env state now args
  split at happends
  · exact .of_silent (by simpa using happends.events) .kept
  · have hreads (decisionId : String) : Reads env decisionId _ _ :=
      supersession_reads decisionId (env.uuid4 state.drawn) now args
    apply Effect.of_stored happends.events _ _ .kept
    · exact fun decisionId _ ↦ ⟨_, hreads decisionId⟩
    · intro other name
      simp [(hreads other).recordedMetric]

end Handlers

/-! ## Commands in any order -/

/-- The command handler takes its calls one after the other; a handler that raises leaves the state it got to. -/
def CommandHandler.step (env : Env) (state : AppState) : Instant × Call → Option AppState
  | (now, .updateMetric cmd) => some (handleUpdateMetric env state now cmd).1
  | (now, .inbound kind payload) => some (onInbound env state now kind payload).1
  | (now, .supersede args) => some (supersedeMetric env state now args).1
  | _ => none

/-- What an event from the bus about this decision and metric has to meet, in the state before it, to keep the two
sides in agreement on readiness. -/
def Inbound.KeepsReadiness (kind : Inbound) (state : AppState) (payload : PyDict) (decisionId metricName : String) :
    Prop :=
  match kind with
  | .metricProposed | .debateOutcome | .riskSignal => ¬ StagedCommitted state.staging decisionId metricName
  | .reconciledDecision =>
    if (reconciledEvidence payload).truthy = false then
      ¬ Unsuperseded (state.log decisionId) ∧ ¬ StagedCommitted state.staging decisionId metricName
    else if (state.auditTrail.existing? (payload.text? "idempotency_key")).isSome = true then
      ¬ StagedCommitted state.staging decisionId metricName
    else Unsuperseded (state.log decisionId) ∨ StagedCommitted state.staging decisionId metricName
  | _ => True

instance (kind : Inbound) (state : AppState) (payload : PyDict) (decisionId metricName : String) :
    Decidable (kind.KeepsReadiness state payload decisionId metricName) :=
  match kind with
  | .metricProposed => inferInstanceAs (Decidable (¬ _))
  | .debateOutcome => inferInstanceAs (Decidable (¬ _))
  | .riskSignal => inferInstanceAs (Decidable (¬ _))
  | .reconciledDecision => inferInstanceAs (Decidable (ite _ _ _))
  | .evidenceAttached => inferInstanceAs (Decidable True)
  | .goalCreated => inferInstanceAs (Decidable True)
  | .goalCancelled => inferInstanceAs (Decidable True)
  | .runtimeArtifactDeployed => inferInstanceAs (Decidable True)
  | .runtimeConfigUpdated => inferInstanceAs (Decidable True)

/-- What a call has to meet, in the state before it, to keep the two sides in agreement on readiness. -/
def Call.KeepsReadiness (state : AppState) : Call → Prop
  | .updateMetric cmd =>
    if cmd.evidenceRefs = [] then
      Unsuperseded (state.log cmd.decisionId) → StagedCommitted state.staging cmd.decisionId cmd.metricName
    else (state.auditTrail.existing? (some cmd.idempotencyKey)).isSome = true ∨
      Unsuperseded (state.log cmd.decisionId) ∨ StagedCommitted state.staging cmd.decisionId cmd.metricName
  | .inbound kind payload =>
    ∀ decisionId ∈ payload.text? "decision_id", ∀ metricName ∈ payload.text? "metric_name",
      kind.KeepsReadiness state payload decisionId metricName
  | _ => True

instance (state : AppState) (call : Call) : Decidable (call.KeepsReadiness state) :=
  match call with
  | .updateMetric _ => inferInstanceAs (Decidable (ite _ _ _))
  | .inbound _ _ => inferInstanceAs (Decidable (∀ _ ∈ _, ∀ _ ∈ _, _))
  | .supersede _ => inferInstanceAs (Decidable True)
  | .rebuild _ _ => inferInstanceAs (Decidable True)
  | .maybeCloseAndAnchor => inferInstanceAs (Decidable True)
  | .forceClose => inferInstanceAs (Decidable True)

section Step

variable {state next : AppState} {now : Instant} {decision metric : String}

theorem keepsReadiness_inbound {kind : Inbound} {payload : PyDict}
    (hdecision : payload.text? "decision_id" = some decision) (hmetric : payload.text? "metric_name" = some metric) :
    Call.KeepsReadiness state (.inbound kind payload) ↔ kind.KeepsReadiness state payload decision metric := by
  simp [Call.KeepsReadiness, hdecision, hmetric]

theorem balanced_idle : Balanced state decision metric none false := by
  simp [Balanced, StagedAfter]

theorem balanced_flight :
    Balanced state decision metric (some false) false ↔ ¬ StagedCommitted state.staging decision metric := by
  simp [Balanced, StagedAfter]

theorem balanced_rejection : Balanced state decision metric none true ↔
    (Unsuperseded (state.log decision) → StagedCommitted state.staging decision metric) := by
  simp [Balanced, StagedAfter]

theorem balanced_flight_rejection : Balanced state decision metric (some false) true ↔
    ¬ Unsuperseded (state.log decision) ∧ ¬ StagedCommitted state.staging decision metric := by
  simp [Balanced, StagedAfter, and_comm]

theorem balanced_commit (known : Bool) :
    Balanced state decision metric (if known then none else some true) (!known) ↔
      known = true ∨ Unsuperseded (state.log decision) ∨ StagedCommitted state.staging decision metric := by
  cases known <;> simp [Balanced, StagedAfter, or_comm]

theorem balanced_flight_commit (known : Bool) :
    Balanced state decision metric (some ((if known then none else some true).getD false)) (!known) ↔
      if known = true then ¬ StagedCommitted state.staging decision metric
      else Unsuperseded (state.log decision) ∨ StagedCommitted state.staging decision metric := by
  cases known <;> simp [Balanced, StagedAfter, or_comm]

theorem handleUpdateMetric_effect (hdigest : env.DigestSized) (state : AppState) (now : Instant)
    (cmd : UpdateMetricCommand) : ∃ staged records,
      Effect env cmd.decisionId cmd.metricName staged records state (handleUpdateMetric env state now cmd).1 ∧
      (Call.KeepsReadiness state (.updateMetric cmd) ↔
        Balanced state cmd.decisionId cmd.metricName staged records) := by
  unfold handleUpdateMetric
  by_cases hempty : cmd.evidenceRefs = []
  · refine ⟨none, true, ?_, ?_⟩
    · rw [updateMetricEntry, hempty, List.isEmpty_nil, if_pos rfl, append_unkeyed_ok rfl]
      exact rejection_effect env state now cmd.decisionId cmd.metricName cmd.idempotencyKey
    · rw [balanced_rejection]
      simp only [Call.KeepsReadiness, if_pos hempty]
  · rw [updateMetricEntry_commits env state now hempty]
    refine ⟨_, _, commit_effect hdigest state (cmd.commit now) rfl, ?_⟩
    rw [balanced_commit]
    simp only [Call.KeepsReadiness, if_neg hempty]
    rfl

/-- The evidence of a conforming decision is a list of texts. -/
theorem Inbound.Conforms.evidence {payload : PyDict} (h : Inbound.reconciledDecision.Conforms env payload) :
    ∃ refs, (reconciledEvidence payload).iterStrs? = some refs := by
  unfold reconciledEvidence
  cases hvalue : payload.get? "evidence_refs" with
  | none => exact ⟨[], rfl⟩
  | some value =>
    obtain ⟨refs, hrefs⟩ := h.textLists "evidence_refs" (by decide) value hvalue
    cases value with
    | list items => exact ⟨refs, hrefs⟩
    | _ => cases hrefs

theorem onReconciledDecision_effect (hdigest : env.DigestSized) (state : AppState) (now : Instant)
    {payload : PyDict} (hconforms : Inbound.reconciledDecision.Conforms env payload)
    (hdecisionText : payload.text? "decision_id" = some decision)
    (hmetricText : payload.text? "metric_name" = some metric) : ∃ staged records,
      Effect env decision metric staged records state (onReconciledDecision env state now payload).1 ∧
      (Call.KeepsReadiness state (.inbound .reconciledDecision payload) ↔
        Balanced state decision metric staged records) := by
  obtain ⟨key, hkeyText⟩ := hconforms.texts "idempotency_key" (by decide)
  have hdecision := PyDict.get?_of_text? hdecisionText
  have hmetric := PyDict.get?_of_text? hmetricText
  have hkey := PyDict.get?_of_text? hkeyText
  let stage : Option PyDict → PyDict :=
    fun stage ↦ ((stage.getD .empty).update payload).set "status" (.str MetricStatus.reconciled.value)
  have hstatus (old : Option PyDict) : stageStatus? (stage old) = some .reconciled := stageStatus?_set _ _
  obtain ⟨middle, hentry, hfirst, hopen, hknown⟩ :=
    stageAndAppend_effect state hconforms hdecisionText hmetricText hstatus (by decide)
  rw [onReconciledDecision_of_entry hentry]
  cases htruthy : (reconciledEvidence payload).truthy with
  | false =>
    have hgate := reconciledGate_rejects env middle now rfl ⟨hdecision, hmetric, hkey, htruthy⟩
    refine ⟨some false, true, ?_, ?_⟩
    · rw [hgate]
      exact hfirst.trans hopen (rejection_effect env middle now decision metric key)
    · rw [balanced_flight_rejection, keepsReadiness_inbound hdecisionText hmetricText]
      simp only [Inbound.KeepsReadiness, if_pos htruthy]
  | true =>
    obtain ⟨refs, hrefs⟩ := hconforms.evidence
    obtain ⟨proposer, hproposer⟩ := hconforms.texts "proposed_by" (by decide)
    obtain ⟨finalValue, hvalue⟩ := Option.isSome_iff_exists.mp (hconforms.opens "final_value" (by decide))
    have hcommits : (Call.inbound .reconciledDecision payload).Commits
        ⟨decision, metric, finalValue, refs, key, .str proposer, now⟩ :=
      ⟨hdecision, hmetric, hvalue, hrefs, htruthy, hkey, by rw [PyDict.get?_of_text? hproposer]; rfl⟩
    have hsecond := commit_effect hdigest middle ⟨decision, metric, finalValue, refs, key, .str proposer, now⟩ rfl
    rw [← reconciledGate_commits env middle hcommits] at hsecond
    refine ⟨_, _, hfirst.trans hopen hsecond, ?_⟩
    rw [balanced_flight_commit, hknown]
    have hlacks : ¬ (reconciledEvidence payload).truthy = false := by simp [htruthy]
    rw [keepsReadiness_inbound hdecisionText hmetricText]
    simp only [Inbound.KeepsReadiness, hkeyText, if_neg hlacks]

/-- A handler that stages its payload and does nothing else must not find the metric committed. -/
theorem staging_effect (state : AppState) {kind : Inbound} {payload : PyDict} (hconforms : kind.Conforms env payload)
    (htexts : ["decision_id", "metric_name"] ⊆ kind.textFields) {stage : Option PyDict → PyDict}
    {status : MetricStatus} (hstatus : ∀ old, stageStatus? (stage old) = some status) (hterminal : status ∉ terminal)
    (hcondition : ∀ decision metric,
      kind.KeepsReadiness state payload decision metric ↔ ¬ StagedCommitted state.staging decision metric) :
    ∃ decision metric staged records,
      Effect env decision metric staged records state (stageAndAppend env state kind.eventType payload stage).1 ∧
      (Call.KeepsReadiness state (.inbound kind payload) ↔ Balanced state decision metric staged records) := by
  obtain ⟨decision, hdecision⟩ := hconforms.texts "decision_id" (htexts (by decide))
  obtain ⟨metric, hmetric⟩ := hconforms.texts "metric_name" (htexts (by decide))
  obtain ⟨next, hcall, heffect, -, -⟩ := stageAndAppend_effect state hconforms hdecision hmetric hstatus hterminal
  refine ⟨decision, metric, some false, false, ?_, ?_⟩
  · rw [hcall]
    exact heffect
  · rw [keepsReadiness_inbound hdecision hmetric, balanced_flight, hcondition]

/-- What a conforming event from the bus does, and the condition it has to meet. -/
theorem onInbound_effect (hdigest : env.DigestSized) (state : AppState) (now : Instant) {kind : Inbound}
    {payload : PyDict} (hconforms : kind.Conforms env payload) : ∃ decision metric staged records,
      Effect env decision metric staged records state (onInbound env state now kind payload).1 ∧
      (Call.KeepsReadiness state (.inbound kind payload) ↔ Balanced state decision metric staged records) := by
  have hidle (h : ∀ decision metric, kind.KeepsReadiness state payload decision metric) :
      Call.KeepsReadiness state (.inbound kind payload) ↔ Balanced state "" "" none false :=
    iff_of_true (fun decision _ metric _ ↦ h decision metric) balanced_idle
  cases kind with
  | metricProposed =>
    have hstatus (_ : Option PyDict) : stageStatus? (payload.set "status"
        (.str MetricStatus.proposed.value)) = some .proposed := stageStatus?_set _ _
    exact staging_effect state hconforms (by decide) hstatus (by decide) fun _ _ ↦ Iff.rfl
  | debateOutcome =>
    have hstatus (old : Option PyDict) : stageStatus? (((old.getD .empty).update payload).set "status"
        (.str MetricStatus.debated.value)) = some .debated := stageStatus?_set _ _
    exact staging_effect state hconforms (by decide) hstatus (by decide) fun _ _ ↦ Iff.rfl
  | riskSignal =>
    have hstatus (old : Option PyDict) : stageStatus? (((old.getD .empty).set "status"
        (.str MetricStatus.critiqued.value)).set "risk_level" ((payload.get? "risk_level").getD .null)) =
          some .critiqued := stageStatus?_critiqued _ _
    exact staging_effect state hconforms (by decide) hstatus (by decide) fun _ _ ↦ Iff.rfl
  | reconciledDecision =>
    obtain ⟨decision, hdecision⟩ := hconforms.texts "decision_id" (by decide)
    obtain ⟨metric, hmetric⟩ := hconforms.texts "metric_name" (by decide)
    exact ⟨decision, metric, onReconciledDecision_effect hdigest state now hconforms hdecision hmetric⟩
  | evidenceAttached => exact ⟨_, _, none, false, appendInbound_effect hconforms _ _, hidle fun _ _ ↦ trivial⟩
  | goalCreated => exact ⟨_, _, none, false, appendInbound_effect hconforms _ _, hidle fun _ _ ↦ trivial⟩
  | goalCancelled => exact ⟨_, _, none, false, appendInbound_effect hconforms _ _, hidle fun _ _ ↦ trivial⟩
  | runtimeArtifactDeployed =>
    exact ⟨_, _, none, false, appendRuntime_effect hconforms _ _, hidle fun _ _ ↦ trivial⟩
  | runtimeConfigUpdated => exact ⟨_, _, none, false, appendRuntime_effect hconforms _ _, hidle fun _ _ ↦ trivial⟩

/-- Everything a step of the command handler can do, and the condition it has to meet. -/
theorem CommandHandler.step_effect (hdigest : env.DigestSized) {label : Instant × Call}
    (hconforms : label.2.Conforms env) (h : CommandHandler.step env state label = some next) :
    ∃ decision metric staged records, Effect env decision metric staged records state next ∧
      (label.2.KeepsReadiness state ↔ Balanced state decision metric staged records) := by
  obtain ⟨now, call⟩ := label
  cases call with
  | updateMetric cmd =>
    obtain rfl := Option.some.inj h
    exact ⟨cmd.decisionId, cmd.metricName, handleUpdateMetric_effect hdigest state now cmd⟩
  | inbound kind payload =>
    obtain rfl := Option.some.inj h
    exact onInbound_effect hdigest state now hconforms
  | supersede args =>
    obtain rfl := Option.some.inj h
    exact ⟨_, _, none, false, supersedeMetric_effect env state now args, iff_of_true trivial balanced_idle⟩
  | _ => cases h

end Step

section Runs

variable {maxLeaves : ℤ} {maxSeconds : ℚ} {trace : List (AppState × (Instant × Call))} {last : AppState}

theorem legible_of_run (run : Run (CommandHandler.step env) (AppState.initial maxLeaves maxSeconds) trace last)
    (conforms : Along (fun _ label ↦ label.2.Conforms env) trace) (hdigest : env.DigestSized) : Legible env last := by
  apply run.invariant conforms (legible_initial env maxLeaves maxSeconds)
  intro before state label next _ _ hconforms hstep hlegible
  obtain ⟨decision, metric, staged, records, heffect, -⟩ := CommandHandler.step_effect hdigest hconforms hstep
  exact heffect.legible hlegible

theorem readinessAgrees_initial (env : Env) (maxLeaves : ℤ) (maxSeconds : ℚ) :
    ReadinessAgrees env (AppState.initial maxLeaves maxSeconds) := by
  rw [(legible_initial env maxLeaves maxSeconds).agrees_iff]
  intro decisionId name
  refine iff_of_false (by simp [AppState.initial, StagedCommitted]) ?_
  rintro ⟨evt, hevt, -⟩
  cases hevt

/-- A proposal, a commit, its supersession and the commit once more. -/
def committedAndSuperseded : List (Instant × Call) :=
  [(0, .inbound .metricProposed sampleProposal), (0, .updateMetric sampleCommand),
    (0, .supersede ⟨"d1", "roi", "", "late signal", "k3"⟩), (0, .updateMetric sampleCommand)]

theorem sampleProposal_conforms : Inbound.metricProposed.Conforms .local sampleProposal where
  texts := by simp [Inbound.textFields, sampleProposal, PyDict.text?, Json.asStr?]
  opens := by decide
  textLists := by simp [Inbound.textListFields]
  severity := by simp
  event_type := by simp [sampleProposal]

end Runs

end DecisionCore
