import DecisionCore.ReadModel.Scoring

/-!
# The evidence gate

A commit carries evidence, and a call without evidence leaves one rejection behind that changes
nothing a rebuild decides: it may give a metric without a record a rejected one, and that is all.
-/

namespace DecisionCore

open CommandHandler MetricsRegistry ScoreboardProjector PolicyEvaluator

variable {env : Env} {decisionId : String}

/-! ## Events that decide nothing -/

/-- The change adds at most a rejected record. -/
def Inert : Change → Prop
  | .reject record => record.status = .rejected
  | .skip => True
  | _ => False

/-- The second registry has the records of the first and only rejected ones behind them. -/
def Grown (before after : Metrics) : Prop :=
  ∃ added : List (String × MetricRecord), after.entries = before.entries ++ added ∧
    ∀ binding ∈ added, binding.2.status = .rejected

theorem Grown.refl (metrics : Metrics) : Grown metrics metrics := ⟨[], by simp, by simp⟩

theorem Grown.trans {first second third : Metrics} (h₁ : Grown first second) (h₂ : Grown second third) :
    Grown first third := by
  obtain ⟨added₁, heq₁, hall₁⟩ := h₁
  obtain ⟨added₂, heq₂, hall₂⟩ := h₂
  refine ⟨added₁ ++ added₂, by rw [heq₂, heq₁, List.append_assoc], ?_⟩
  intro binding hbinding
  rcases List.mem_append.mp hbinding with h | h
  · exact hall₁ binding h
  · exact hall₂ binding h

theorem Grown.get? {before after : Metrics} (h : Grown before after) {name : String} {record : MetricRecord}
    (hget : before.get? name = some record) : after.get? name = some record := by
  obtain ⟨added, heq, -⟩ := h
  simp only [Dict.get?] at hget ⊢
  rw [heq, List.lookup_append, hget]
  rfl

theorem Grown.committed {before after : Metrics} (h : Grown before after) (requiredMetrics : List String) :
    committed requiredMetrics after = committed requiredMetrics before := by
  obtain ⟨added, heq, hall⟩ := h
  unfold PolicyEvaluator.committed
  rw [heq, List.filter_append]
  have hnone : added.filter (fun binding ↦ decide (binding.2.status = .committed) &&
      decide (binding.1 ∈ requiredMetrics)) = [] := by
    rw [List.filter_eq_nil_iff]
    intro binding hbinding
    simp [hall binding hbinding]
  rw [hnone, List.append_nil]

theorem settle_inert {metrics : Metrics} {changes : List Change} (h : ∀ change ∈ changes, Inert change) :
    Grown metrics (settle metrics changes) := by
  induction changes generalizing metrics with
  | nil => exact .refl metrics
  | cons change rest ih =>
    have hrest := fun other hother ↦ h other (List.mem_cons_of_mem change hother)
    have hfirst := h change List.mem_cons_self
    cases change with
    | reject record =>
      simp only [settle]
      cases hget : metrics.get? record.metricName with
      | some found => simpa [Dict.contains, hget] using ih hrest
      | none =>
        have hset : Grown metrics (metrics.set record.metricName record) :=
          ⟨[(record.metricName, record)], Dict.set_of_get?_eq_none hget _, by simpa [Inert] using hfirst⟩
        simpa [Dict.contains, hget] using hset.trans (ih hrest)
    | skip => exact ih hrest
    | _ => exact hfirst.elim

/-- Inert events at the end of a stream, whatever the stream is. -/
theorem replay_append_inert {extra : List PyDict} {changes : List Change}
    (hread : List.Forall₂ (Reads env decisionId) extra changes) (hinert : ∀ change ∈ changes, Inert change)
    (log : List PyDict) (metrics : Metrics) :
    (∀ error, replay env decisionId metrics log = .error error →
      replay env decisionId metrics (log ++ extra) = .error error) ∧
    ∀ before, replay env decisionId metrics log = .ok before →
      ∃ after, replay env decisionId metrics (log ++ extra) = .ok after ∧ Grown before after := by
  induction log generalizing metrics with
  | nil =>
    refine ⟨fun error h ↦ by simp [replay] at h, ?_⟩
    intro before hbefore
    obtain rfl := Except.ok.inj hbefore
    exact ⟨_, replay_eq_settle hread metrics, settle_inert hinert⟩
  | cons evt rest ih =>
    rw [List.cons_append, replay_cons, replay_cons]
    cases consume env decisionId metrics evt with
    | error error => simp [bind, Except.bind]
    | ok round =>
      obtain ⟨next, stop⟩ := round
      cases stop with
      | false => exact ih next
      | true =>
        -- A supersession ended the replay, so the inert events are not reached.
        refine ⟨?_, ?_⟩
        · intro error herror
          cases herror
        · intro before hbefore
          exact ⟨before, hbefore, .refl before⟩

/-! ## A rebuild of the longer stream -/

/-- The event adds at most a rejected record, whatever decision it is read under. -/
structure Idle (env : Env) (evt : PyDict) : Prop where
  registry : ∀ decisionId, ∃ change, Reads env decisionId evt change ∧ Inert change
  risk : evt.hasType "RiskSignal" = false
  root : evt.hasType "MerkleRootPublished" = false

/-- What a rebuild decides. -/
def decided (board : ScoreboardState) : Option PyFloat × PolicyVerdict × Option String :=
  (board.trustScore, board.policyVerdict, board.merkleRootRef)

section Idle

variable {log extra : List PyDict}

theorem changes_of_idle (h : ∀ evt ∈ extra, Idle env evt) (decisionId : String) :
    ∃ changes, List.Forall₂ (Reads env decisionId) extra changes ∧ ∀ change ∈ changes, Inert change := by
  induction extra with
  | nil => exact ⟨[], .nil, by simp⟩
  | cons evt rest ih =>
    obtain ⟨change, hread, hinert⟩ := (h evt List.mem_cons_self).registry decisionId
    obtain ⟨changes, hreads, hall⟩ := ih fun other hother ↦ h other (List.mem_cons_of_mem evt hother)
    exact ⟨change :: changes, .cons hread hreads, List.forall_mem_cons.mpr ⟨hinert, hall⟩⟩

theorem riskMatrix_append_calm (h : ∀ evt ∈ extra, evt.hasType "RiskSignal" = false) (log : List PyDict)
    (decisionId : String) :
    RiskMatrix.reconstruct env decisionId (log ++ extra) = RiskMatrix.reconstruct env decisionId log := by
  have hextra : RiskMatrix.reconstruct env decisionId extra = .ok [] := by
    induction extra with
    | nil => rfl
    | cons evt rest ih =>
      rw [RiskMatrix.reconstruct, h evt List.mem_cons_self, if_neg Bool.false_ne_true]
      exact ih fun other hother ↦ h other (List.mem_cons_of_mem evt hother)
  induction log with
  | nil => exact hextra
  | cons evt rest ih => rw [List.cons_append, RiskMatrix.reconstruct, RiskMatrix.reconstruct, ih]

theorem lastRootEvent_append_rootless (h : ∀ evt ∈ extra, evt.hasType "MerkleRootPublished" = false)
    (log : List PyDict) : lastRootEvent (log ++ extra) = lastRootEvent log := by
  have hextra : extra.filter isRootEvent = [] := by
    apply List.filter_eq_nil_iff.mpr
    intro evt hevt
    simp [isRootEvent, h evt hevt]
  rw [lastRootEvent_eq, lastRootEvent_eq, List.filter_append, hextra, List.append_nil]

theorem evaluatePolicy_grown {before after : Metrics} (h : Grown before after) (requiredMetrics : List String)
    (risks : List RiskSignalEntry) :
    evaluatePolicy requiredMetrics after risks none .default =
      evaluatePolicy requiredMetrics before risks none .default := by
  unfold evaluatePolicy
  rw [h.committed]

/-- Idle events at the end of a stream change nothing a rebuild decides. -/
theorem project_append_idle (h : ∀ evt ∈ extra, Idle env evt) (log : List PyDict) (decisionId : String)
    (requiredMetrics : List String) (rebuiltAt : Instant) :
    (project env decisionId requiredMetrics rebuiltAt (log ++ extra)).map decided =
      (project env decisionId requiredMetrics rebuiltAt log).map decided := by
  obtain ⟨changes, hreads, hinert⟩ := changes_of_idle h decisionId
  obtain ⟨herror, hok⟩ := replay_append_inert hreads hinert log .empty
  have hlast := lastRootEvent_append_rootless (fun evt hevt ↦ (h evt hevt).root) log
  unfold project reconstruct
  rw [riskMatrix_append_calm (fun evt hevt ↦ (h evt hevt).risk) log decisionId, merkleRootRef_congr hlast,
    merkleTimestamp_congr env hlast]
  cases hbefore : replay env decisionId .empty log with
  | error error => rw [herror error hbefore]; rfl
  | ok before =>
    obtain ⟨after, hafter, hgrown⟩ := hok before hbefore
    rw [hafter]
    -- The two computations differ in the metric views and in the length of the stream only.
    cases RiskMatrix.reconstruct env decisionId log with
    | error error => rfl
    | ok risks =>
      cases merkleRootRef log with
      | error error => rfl
      | ok root =>
        cases merkleTimestamp env log with
        | error error => rfl
        | ok moment =>
          simp only [bind, Except.bind, evaluatePolicy_grown hgrown]
          cases evaluatePolicy requiredMetrics before risks none .default with
          | error error => rfl
          | ok verdict =>
            cases rootField root with
            | error error => rfl
            | ok merkleRootRef => rfl

/-- Idle events at the end of a stream keep every record of the registry. -/
theorem reconstruct_append_idle (h : ∀ evt ∈ extra, Idle env evt) {metrics : Metrics}
    (hmetrics : reconstruct env decisionId log = .ok metrics) :
    ∃ after, reconstruct env decisionId (log ++ extra) = .ok after ∧
      ∀ name record, metrics.get? name = some record → after.get? name = some record := by
  obtain ⟨changes, hreads, hinert⟩ := changes_of_idle h decisionId
  obtain ⟨after, hafter, hgrown⟩ := (replay_append_inert hreads hinert log .empty).2 metrics hmetrics
  exact ⟨after, hafter, fun _ _ hget ↦ hgrown.get? hget⟩

end Idle

/-! ## Handlers on conforming payloads -/

section Handlers

variable {payload : PyDict} {decision metric : String}

/-- The staging key of a payload that names its decision and metric by texts. -/
theorem stagingKey_of_texts (hdecision : payload.get? "decision_id" = some (.str decision))
    (hmetric : payload.get? "metric_name" = some (.str metric)) :
    stagingKey payload = .ok (.str decision, (.str decision, .str metric)) := by
  simp [stagingKey, field, hdecision, hmetric, Json.key?, bind, Except.bind, pure, Except.pure]

end Handlers

/-! ## Rejections -/

/-- The event types a rebuild reads. -/
def readTypes : List String :=
  ["MetricCommitted", "MetricRejected", "MetricSuperseded", "RiskSignal", "MerkleRootPublished"]

theorem Inbound.eventType_not_read {kind : Inbound} (h : kind ≠ .riskSignal) : kind.eventType ∉ readTypes := by
  cases kind with
  | riskSignal => exact absurd rfl h
  | _ => decide

/-- The records of honest entries that mean nothing to a rebuild. -/
theorem Entry.Honest.idle {entry : Entry} (h : entry.Honest) (htype : entry.eventType ∉ readTypes) :
    Idle env entry.record := by
  simp only [readTypes, List.mem_cons, List.not_mem_nil, or_false, not_or] at htype
  obtain ⟨hcommit, hreject, hsupersede, hrisk, hroot⟩ := htype
  refine ⟨fun decisionId ↦ ⟨.skip, h.skip decisionId hcommit hreject hsupersede, trivial⟩, ?_, ?_⟩
  · rw [h.hasType]
    exact decide_eq_false hrisk
  · rw [h.hasType]
    exact decide_eq_false hroot

theorem rejected_honest (eventId : String) (decision metric key : Json) (now : Instant) :
    Entry.Honest ⟨eventId, decision, "MetricRejected", rejectedPayload env decision metric key now, none⟩ := by
  simp [Entry.Honest, rejectedPayload]

/-- The entry of a rejection. -/
def rejectionEntry (env : Env) (eventId decision metric key : String) (now : Instant) : Entry :=
  ⟨eventId, .str decision, "MetricRejected",
    rejectedPayload env (.str decision) (.str metric) (.str key) now, none⟩

section Rejection

variable (eventId decision metric key : String) (now : Instant)

theorem rejectionEntry_hasType (eventType : String) :
    (rejectionEntry env eventId decision metric key now).record.hasType eventType =
      decide ("MetricRejected" = eventType) := by
  have honest : (rejectionEntry env eventId decision metric key now).Honest :=
    rejected_honest eventId (.str decision) (.str metric) (.str key) now
  exact honest.hasType eventType

theorem rejectionEntry_idle : Idle env (rejectionEntry env eventId decision metric key now).record := by
  refine ⟨?_, ?_, ?_⟩
  · intro decisionId
    exact ⟨_, rejection_reads decisionId eventId metric key (.str decision) now, rfl⟩
  · rw [rejectionEntry_hasType]
    rfl
  · rw [rejectionEntry_hasType]
    rfl

end Rejection

/-- The call left one rejection of the metric behind, and nothing that a rebuild of any decision
would decide differently. -/
structure RejectsOnly (env : Env) (state next : AppState) (decision metric : String) : Prop where
  rejection : ∃ stored : List Entry, next.auditTrail.events = state.auditTrail.events ++ stored ∧
    ∃ rejected, stored.filter (fun entry ↦ entry.record.hasType "MetricRejected") = [rejected] ∧
      rejected.decisionId = .str decision ∧ rejected.record.get? "metric_name" = some (.str metric) ∧
      rejected.record.get? "reason" = some (.str "MISSING_EVIDENCE")
  builder : next.merkleBuilder = state.merkleBuilder
  decided : ∀ decisionId requiredMetrics rebuiltAt,
    (rebuild env next rebuiltAt decisionId requiredMetrics).2.map decided =
      (rebuild env state rebuiltAt decisionId requiredMetrics).2.map decided
  records : ∀ decisionId metrics,
    reconstruct env decisionId (state.auditTrail.readRange decisionId 0) = .ok metrics →
    ∃ after, reconstruct env decisionId (next.auditTrail.readRange decisionId 0) = .ok after ∧
      ∀ name record, metrics.get? name = some record → after.get? name = some record

/-- Entries that mean nothing to a rebuild, and the rejection behind them. -/
theorem RejectsOnly.of_idle {state next : AppState} {others : List Entry}
    {eventId decision metric key : String} {now : Instant}
    (hevents : next.auditTrail.events =
      state.auditTrail.events ++ (others ++ [rejectionEntry env eventId decision metric key now]))
    (hbuilder : next.merkleBuilder = state.merkleBuilder)
    (hidle : ∀ entry ∈ others, Idle env entry.record)
    (hothers : ∀ entry ∈ others, entry.record.hasType "MetricRejected" = false) :
    RejectsOnly env state next decision metric := by
  have hall : ∀ entry ∈ others ++ [rejectionEntry env eventId decision metric key now],
      Idle env entry.record := by
    intro entry hentry
    rcases List.mem_append.mp hentry with hother | hrejection
    · exact hidle entry hother
    · obtain rfl := List.mem_singleton.mp hrejection
      exact rejectionEntry_idle eventId decision metric key now
  have hrange (decisionId : String) : ∃ extra, next.auditTrail.readRange decisionId 0 =
      state.auditTrail.readRange decisionId 0 ++ extra ∧ ∀ evt ∈ extra, Idle env evt := by
    refine ⟨_, MemoryAuditTrail.readRange_append hevents decisionId, ?_⟩
    intro evt hevt
    obtain ⟨entry, hentry, rfl⟩ := List.mem_map.mp hevt
    exact hall entry (List.mem_filter.mp hentry).1
  refine ⟨⟨_, hevents, rejectionEntry env eventId decision metric key now, ?_, rfl, ?_, ?_⟩, hbuilder, ?_, ?_⟩
  · rw [List.filter_append, List.filter_eq_nil_iff.mpr fun entry hentry ↦ by simp [hothers entry hentry]]
    simp [rejectionEntry_hasType]
  · simp [Entry.record_get?, rejectionEntry, rejectedPayload]
  · simp [Entry.record_get?, rejectionEntry, rejectedPayload]
  · intro decisionId requiredMetrics rebuiltAt
    obtain ⟨extra, hextra, hidleExtra⟩ := hrange decisionId
    rw [rebuild_result, rebuild_result, hextra]
    exact project_append_idle hidleExtra _ decisionId requiredMetrics rebuiltAt
  · intro decisionId metrics hmetrics
    obtain ⟨extra, hextra, hidleExtra⟩ := hrange decisionId
    rw [hextra]
    exact reconstruct_append_idle hidleExtra hmetrics

theorem handleUpdateMetric_rejects (env : Env) (state : AppState) (now : Instant) {cmd : UpdateMetricCommand}
    (hempty : cmd.evidenceRefs = []) :
    (handleUpdateMetric env state now cmd).2 = .ok (some ⟨.rejectedMissingEvidence, none⟩) ∧
      RejectsOnly env state (handleUpdateMetric env state now cmd).1 cmd.decisionId cmd.metricName := by
  have happends := append_unkeyed env state (.str cmd.decisionId) "MetricRejected"
    (rejectedPayload env (.str cmd.decisionId) (.str cmd.metricName) (.str cmd.idempotencyKey) now)
  have hcall : handleUpdateMetric env state now cmd =
      ((state.append env (.str cmd.decisionId) "MetricRejected" (rejectedPayload env (.str cmd.decisionId)
        (.str cmd.metricName) (.str cmd.idempotencyKey) now) none).1,
        .ok (some ⟨.rejectedMissingEvidence, none⟩)) := by
    simp only [handleUpdateMetric, updateMetricEntry, hempty, List.isEmpty_nil, if_true]
    rw [append_unkeyed_ok rfl]
    rfl
  have hnone : ∀ entry ∈ ([] : List Entry), Idle env entry.record ∧
      entry.record.hasType "MetricRejected" = false := by simp
  rw [hcall]
  exact ⟨rfl, RejectsOnly.of_idle happends.events happends.builder (fun entry h ↦ (hnone entry h).1)
    fun entry h ↦ (hnone entry h).2⟩

theorem onReconciledDecision_rejects (state : AppState) (now : Instant) {payload : PyDict}
    (hconforms : Inbound.reconciledDecision.Conforms env payload)
    (hlacks : (reconciledEvidence payload).truthy = false) :
    (onReconciledDecision env state now payload).2 = .ok () ∧ ∃ decision metric,
      payload.get? "decision_id" = some (.str decision) ∧ payload.get? "metric_name" = some (.str metric) ∧
      RejectsOnly env state (onReconciledDecision env state now payload).1 decision metric := by
  obtain ⟨decision, hdecisionText⟩ := hconforms.texts "decision_id" (by decide)
  obtain ⟨metric, hmetricText⟩ := hconforms.texts "metric_name" (by decide)
  obtain ⟨key, hkeyText⟩ := hconforms.texts "idempotency_key" (by decide)
  have hdecision := PyDict.get?_of_text? hdecisionText
  have hmetric := PyDict.get?_of_text? hmetricText
  obtain ⟨staged, hentry, hfirst⟩ := stageAndAppend_ok env state (stagingKey_of_texts hdecision hmetric)
    "ReconciledDecision" fun stage ↦
      ((stage.getD .empty).update payload).set "status" (.str MetricStatus.reconciled.value)
  have hgate := reconciledGate_rejects env staged now rfl
    ⟨hdecision, hmetric, PyDict.get?_of_text? hkeyText, hlacks⟩
  have hsecond := append_unkeyed env staged (.str decision) "MetricRejected"
    (rejectedPayload env (.str decision) (.str metric) (.str key) now)
  generalize (staged.append env (.str decision) "MetricRejected"
    (rejectedPayload env (.str decision) (.str metric) (.str key) now) none).1 = next at hgate hsecond
  have hcall : onReconciledDecision env state now payload = (next, .ok ()) := by
    rw [onReconciledDecision_of_entry hentry, hgate]
    rfl
  have honest : Entry.Honest ⟨env.uuid4 state.drawn, .str decision, "ReconciledDecision", payload, none⟩ :=
    hconforms.event_type
  have hevents : next.auditTrail.events = state.auditTrail.events ++
      ([⟨env.uuid4 state.drawn, .str decision, "ReconciledDecision", payload, none⟩] ++
        [rejectionEntry env (env.uuid4 staged.drawn) decision metric key now]) := by
    rw [hsecond.events, hfirst.events, List.append_assoc]
    rfl
  rw [hcall]
  refine ⟨rfl, decision, metric, hdecision, hmetric, .of_idle hevents (hsecond.builder.trans hfirst.builder) ?_ ?_⟩
  · intro entry hentry
    obtain rfl := List.mem_singleton.mp hentry
    exact honest.idle (Inbound.eventType_not_read (by decide : Inbound.reconciledDecision ≠ .riskSignal))
  · intro entry hentry
    obtain rfl := List.mem_singleton.mp hentry
    rw [honest.hasType]
    rfl

/-! ## Every commit has evidence -/

theorem iterStrs?_ne_nil {value : Json} {texts : List String} (htruthy : value.truthy = true)
    (h : value.iterStrs? = some texts) : texts ≠ [] := by
  rintro rfl
  cases value with
  | list items =>
    cases items with
    | nil => simp [Json.truthy] at htruthy
    | cons item rest =>
      simp only [Json.iterStrs?, List.mapM_cons] at h
      cases hitem : item.asStr? with
      | none => simp [hitem] at h
      | some text =>
        cases hrest : rest.mapM Json.asStr? <;> simp [hitem, hrest] at h
  | str text =>
    have hempty : text = "" := by simpa [Json.iterStrs?] using h
    simp [Json.truthy, hempty] at htruthy
  | dict fields =>
    have hempty : fields = [] := by simpa [Json.iterStrs?] using h
    simp [Json.truthy, hempty] at htruthy
  | _ => simp [Json.iterStrs?] at h

theorem Call.Commits.evidenceRefs_ne_nil {call : Call} {commit : Commit} (h : call.Commits commit) :
    commit.evidenceRefs ≠ [] := by
  cases call with
  | updateMetric cmd =>
    obtain ⟨-, -, -, hrefs, hne, -, -⟩ := h
    rw [hrefs]
    exact hne
  | inbound kind payload =>
    cases kind with
    | reconciledDecision =>
      obtain ⟨-, -, -, hrefs, htruthy, -, -⟩ := h
      exact iterStrs?_ne_nil htruthy hrefs
    | _ => exact h.elim
  | _ => exact h.elim

section Runs

variable {maxLeaves : ℤ} {maxSeconds : ℚ} {trace : List (System × Label)} {last : System}

/-- In every conforming run, commits carry evidence, and a call without evidence stores one rejection
and leaves the batch, every rebuild and every record as they were. -/
theorem evidence_gate_over_runs
    (run : Run (System.step env) (System.initial maxLeaves maxSeconds) trace last)
    (conforms : Along (fun _ label ↦ label.Starts (Call.Conforms env)) trace) :
    (∀ entry ∈ last.state.auditTrail.events, entry.record.hasType "MetricCommitted" = true →
      ∃ refs, entry.record.get? "evidence_refs" = some (.ofStrs refs) ∧ refs ≠ []) ∧
    (∀ cmd now, cmd.evidenceRefs = [] →
      (handleUpdateMetric env last.state now cmd).2 = .ok (some ⟨.rejectedMissingEvidence, none⟩) ∧
      RejectsOnly env last.state (handleUpdateMetric env last.state now cmd).1 cmd.decisionId cmd.metricName) ∧
    ∀ payload now, Inbound.reconciledDecision.Conforms env payload →
      (reconciledEvidence payload).truthy = false →
      (onReconciledDecision env last.state now payload).2 = .ok () ∧ ∃ decision metric,
        payload.get? "decision_id" = some (.str decision) ∧ payload.get? "metric_name" = some (.str metric) ∧
        RejectsOnly env last.state (onReconciledDecision env last.state now payload).1 decision metric := by
  refine ⟨?_, ?_, ?_⟩
  · intro entry hentry htype
    obtain ⟨call, hconforms, hstores⟩ := (run.storedBy conforms).2 entry hentry
    have honest := hstores.honest hconforms.honest
    rw [honest.hasType, decide_eq_true_eq] at htype
    rcases hstores with horigin | ⟨commit, hcommits, hcommit⟩
    · exact absurd htype horigin.eventType_ne_committed
    · refine ⟨sorted commit.evidenceRefs, ?_, sorted_ne_nil hcommits.evidenceRefs_ne_nil⟩
      rw [hcommit]
      simp [Entry.record_get?, Commit.entry, committedPayload]
  · intro cmd now hempty
    exact handleUpdateMetric_rejects env last.state now hempty
  · intro payload now hconforms hlacks
    exact onReconciledDecision_rejects last.state now hconforms hlacks

/-- A command without evidence behind a committed metric. -/
theorem evidence_gate_after_commit :
    ∃ last, follow (System.step .local) (System.initial 100 60)
        (uninterrupted (.updateMetric sampleCommand) 2) = some last ∧
      RejectsOnly .local last.state
        (handleUpdateMetric .local last.state 0 { sampleCommand with evidenceRefs := [] }).1 "d1" "roi" := by
  have hsome : (follow (System.step .local) (System.initial 100 60)
      (uninterrupted (.updateMetric sampleCommand) 2)).isSome = true := by decide +kernel
  obtain ⟨last, hlast⟩ := Option.isSome_iff_exists.mp hsome
  have hgate := evidence_gate_over_runs (Run.of_follow hlast)
    (along_traceOf (by simp [uninterrupted, Label.Starts, Call.Conforms]))
  exact ⟨last, hlast, (hgate.2.1 { sampleCommand with evidenceRefs := [] } 0 rfl).2⟩

end Runs

end DecisionCore
