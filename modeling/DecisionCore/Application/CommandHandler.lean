import DecisionCore.Application.Merkle
import DecisionCore.Infrastructure.AuditTrail

/-!
# The command handler

Every handler is the composition of the segments between its awaits: a segment reads and writes the
state without being interrupted.  A handler returns the state it leaves behind together with its
result, also when it raises, so that effects made before an exception stay visible.
-/

namespace DecisionCore

/-- Rows of the projection store: proof lookups and scoreboards. -/
inductive StoreRow where
  | proof (row : ProofRow)
  | scoreboard (state : ScoreboardState)

abbrev ProjectionStore := Dict String StoreRow

/-- In-flight proposals by `(decision_id, metric_name)`. -/
abbrev Staging := Dict (PyKey × PyKey) PyDict

/-- The mutable state of the service; `drawn` counts the identifiers drawn so far. -/
structure AppState where
  auditTrail : MemoryAuditTrail
  merkleBuilder : MerkleBatchBuilder
  staging : Staging
  projectionStore : ProjectionStore
  drawn : ℕ

namespace AppState

def initial (maxLeaves : ℤ) (maxSeconds : ℚ) : AppState :=
  ⟨.empty, .new maxLeaves maxSeconds, .empty, .empty, 0⟩

/-- `await self._audit.append(…)`. -/
def append (env : Env) (state : AppState) (decisionId : Json) (eventType : String) (payload : PyDict)
    (key : Option String) : AppState × Except PyError AppendResult :=
  let (auditTrail, result) :=
    state.auditTrail.append (env.uuid4 state.drawn) decisionId eventType payload key
  ({ state with auditTrail, drawn := state.drawn + 1 }, result)

end AppState

/-- Forget the value an awaited call returned. -/
def discard {α : Type} (outcome : AppState × Except PyError α) : AppState × Except PyError Unit :=
  (outcome.1, outcome.2.map fun _ ↦ ())

structure UpdateMetricCommand where
  decisionId : String
  metricName : String
  value : Json
  idempotencyKey : String
  evidenceRefs : List String
  proposedBy : String
  runtimeContext : Json

structure UpdateMetricResult where
  status : UpdateMetricStatus
  leafHash : Option String
  deriving DecidableEq

/-- What `_commit` still has to do once its append was stored. -/
structure AddLeafStep where
  leaf : PendingLeaf
  metricName : String
  nowTs : ℚ
  deriving DecidableEq

/-- Where a committing call stands after a segment. -/
inductive Progress where
  | done (result : Option UpdateMetricResult)
  | addLeaf (step : AddLeafStep)

namespace CommandHandler

variable (env : Env)

/-! ## Rejections and commits -/

/-- The `MetricRejected` payload of a call without evidence. -/
def rejectedPayload (decisionId metricName idempotencyKey : Json) (now : Instant) : PyDict :=
  ⟨[("decision_id", decisionId), ("metric_name", metricName), ("idempotency_key", idempotencyKey),
    ("reason", .str "MISSING_EVIDENCE"), ("occurred_at", .str (env.isoformat now))]⟩

def committedPayload (decisionId metricName : String) (value : Json) (evidenceRefs : List String)
    (idempotencyKey leafHash timestampIso : String) (proposedBy : Json) : PyDict :=
  ⟨[("decision_id", .str decisionId), ("metric_name", .str metricName), ("value", value),
    ("evidence_refs", .ofStrs (sorted evidenceRefs)), ("idempotency_key", .str idempotencyKey),
    ("leaf_hash", .str leafHash), ("committed_at", .str timestampIso), ("proposed_by", proposedBy)]⟩

/-- First segment of `_commit`, up to its append.  The leaf formula joins texts, so arguments of any
other type raise before anything is stored. -/
def commitAppend (state : AppState) (now : Instant)
    (decisionId metricName value evidenceRefs idempotencyKey proposedBy : Json) :
    AppState × Except PyError Progress :=
  match decisionId.asStr?, metricName.asStr?, evidenceRefs.iterStrs?, idempotencyKey.asStr? with
  | some decisionId, some metricName, some refs, some idempotencyKey =>
    let timestampIso := env.isoformat now
    let leafHash := computeLeafHash env decisionId metricName value timestampIso refs idempotencyKey
    let payload := committedPayload decisionId metricName value refs idempotencyKey (hex leafHash)
      timestampIso proposedBy
    match state.append env (.str decisionId) "MetricCommitted" payload (some idempotencyKey) with
    | (state, .error error) => (state, .error error)
    | (state, .ok result) =>
      if result.deduplicated then (state, .ok (.done (some ⟨.duplicateIgnored, none⟩)))
      -- `bytes.fromhex` of the leaf's hex text is the leaf itself (`fromhex_hex`).
      else (state, .ok (.addLeaf ⟨⟨leafHash, result.eventId, decisionId⟩, metricName, timestamp now⟩))
  | _, _, _, _ => (state, .error .typeError)

/-- Second segment of `_commit`: the leaf enters the open batch. -/
def commitFinish (state : AppState) (step : AddLeafStep) : AppState × UpdateMetricResult :=
  let key := (PyKey.str step.leaf.decisionId, PyKey.str step.metricName)
  let stage := (state.staging.get? key).getD .empty
  ({ state with
      merkleBuilder := state.merkleBuilder.addLeaf step.leaf step.nowTs
      staging := state.staging.set key ((stage.set "status" (.str MetricStatus.committed.value)).set
        "leaf_hash" (.str (hex step.leaf.leafHash))) },
    ⟨.accepted, some (hex step.leaf.leafHash)⟩)

/-- Run a committing call from its last await to its end. -/
def finish : AppState × Except PyError Progress → AppState × Except PyError (Option UpdateMetricResult)
  | (state, .error error) => (state, .error error)
  | (state, .ok (.done result)) => (state, .ok result)
  | (state, .ok (.addLeaf step)) =>
    let (state, result) := commitFinish state step
    (state, .ok (some result))

/-! ## The synchronous command -/

/-- First segment of `handle_update_metric`. -/
def updateMetricEntry (state : AppState) (now : Instant) (cmd : UpdateMetricCommand) :
    AppState × Except PyError Progress :=
  if cmd.evidenceRefs.isEmpty then
    match state.append env (.str cmd.decisionId) "MetricRejected"
      (rejectedPayload env (.str cmd.decisionId) (.str cmd.metricName) (.str cmd.idempotencyKey) now)
      none with
    | (state, .error error) => (state, .error error)
    | (state, .ok _) => (state, .ok (.done (some ⟨.rejectedMissingEvidence, none⟩)))
  else
    commitAppend env state now (.str cmd.decisionId) (.str cmd.metricName) cmd.value
      (.ofStrs cmd.evidenceRefs) (.str cmd.idempotencyKey) (.str cmd.proposedBy)

def handleUpdateMetric (state : AppState) (now : Instant) (cmd : UpdateMetricCommand) :
    AppState × Except PyError (Option UpdateMetricResult) :=
  finish (updateMetricEntry env state now cmd)

/-! ## Lifecycle events -/

/-- `payload[key]`. -/
def field (payload : PyDict) (key : String) : Except PyError Json :=
  match payload.get? key with
  | some value => .ok value
  | none => .error (.keyError key)

/-- The decision id of a payload and its staging key `(decision_id, metric_name)`. -/
def stagingKey (payload : PyDict) : Except PyError (Json × (PyKey × PyKey)) := do
  let decisionId ← field payload "decision_id"
  let metricName ← field payload "metric_name"
  match decisionId.key?, metricName.key? with
  | some decisionKey, some metricKey => return (decisionId, (decisionKey, metricKey))
  | _, _ => throw .typeError

/-- A handler that stages its payload under the key and then appends it. -/
def stageAndAppend (state : AppState) (eventType : String) (payload : PyDict)
    (stage : Option PyDict → PyDict) : AppState × Except PyError Unit :=
  match stagingKey payload with
  | .error error => (state, .error error)
  | .ok (decisionId, key) =>
    let staging := state.staging.set key (stage (state.staging.get? key))
    discard (AppState.append env { state with staging } decisionId eventType payload none)

def onMetricProposed (state : AppState) (payload : PyDict) : AppState × Except PyError Unit :=
  stageAndAppend env state "MetricProposed" payload fun _ ↦
    payload.set "status" (.str MetricStatus.proposed.value)

def onDebateOutcome (state : AppState) (payload : PyDict) : AppState × Except PyError Unit :=
  stageAndAppend env state "DebateOutcome" payload fun stage ↦
    ((stage.getD .empty).update payload).set "status" (.str MetricStatus.debated.value)

def onRiskSignal (state : AppState) (payload : PyDict) : AppState × Except PyError Unit :=
  stageAndAppend env state "RiskSignal" payload fun stage ↦
    ((stage.getD .empty).set "status" (.str MetricStatus.critiqued.value)).set "risk_level"
      ((payload.get? "risk_level").getD .null)

/-- First segment of `on_reconciled_decision`, up to the append of the event itself. -/
def reconciledEntry (state : AppState) (payload : PyDict) : AppState × Except PyError Unit :=
  stageAndAppend env state "ReconciledDecision" payload fun stage ↦
    ((stage.getD .empty).update payload).set "status" (.str MetricStatus.reconciled.value)

/-- Second segment of `on_reconciled_decision`: the evidence gate and the append behind it. -/
def reconciledGate (state : AppState) (now : Instant) (payload : PyDict) :
    AppState × Except PyError Progress :=
  let evidenceRefs := (payload.get? "evidence_refs").getD (.list [])
  if evidenceRefs.truthy then
    match field payload "decision_id", field payload "metric_name", field payload "final_value",
      field payload "idempotency_key" with
    | .ok decisionId, .ok metricName, .ok finalValue, .ok idempotencyKey =>
      commitAppend env state now decisionId metricName finalValue evidenceRefs idempotencyKey
        ((payload.get? "proposed_by").getD (.str "reconciliation"))
    | .error error, _, _, _ => (state, .error error)
    | _, .error error, _, _ => (state, .error error)
    | _, _, .error error, _ => (state, .error error)
    | _, _, _, .error error => (state, .error error)
  else
    match field payload "decision_id", field payload "metric_name",
      field payload "idempotency_key" with
    | .ok decisionId, .ok metricName, .ok idempotencyKey =>
      match state.append env decisionId "MetricRejected"
        (rejectedPayload env decisionId metricName idempotencyKey now) none with
      | (state, .error error) => (state, .error error)
      | (state, .ok _) => (state, .ok (.done none))
    | .error error, _, _ => (state, .error error)
    | _, .error error, _ => (state, .error error)
    | _, _, .error error => (state, .error error)

def onReconciledDecision (state : AppState) (now : Instant) (payload : PyDict) :
    AppState × Except PyError Unit :=
  match reconciledEntry env state payload with
  | (state, .error error) => (state, .error error)
  | (state, .ok ()) => discard (finish (reconciledGate env state now payload))

/-- A handler that only appends its payload under `payload["decision_id"]`. -/
def appendInbound (state : AppState) (eventType : String) (payload : PyDict) :
    AppState × Except PyError Unit :=
  match field payload "decision_id" with
  | .error error => (state, .error error)
  | .ok decisionId => discard (state.append env decisionId eventType payload none)

/-- A handler that appends its payload under `payload.get("decision_id", "runtime")`. -/
def appendRuntime (state : AppState) (eventType : String) (payload : PyDict) :
    AppState × Except PyError Unit :=
  discard (state.append env ((payload.get? "decision_id").getD (.str "runtime")) eventType payload none)

def onEvidenceAttached (state : AppState) (payload : PyDict) : AppState × Except PyError Unit :=
  appendInbound env state "EvidenceAttached" payload

def onRuntimeArtifactDeployed (state : AppState) (payload : PyDict) : AppState × Except PyError Unit :=
  appendRuntime env state "RuntimeArtifactDeployed" payload

def onRuntimeConfigUpdated (state : AppState) (payload : PyDict) : AppState × Except PyError Unit :=
  appendRuntime env state "RuntimeConfigUpdated" payload

def onGoalCreated (state : AppState) (payload : PyDict) : AppState × Except PyError Unit :=
  appendInbound env state "GoalCreated" payload

def onGoalCancelled (state : AppState) (payload : PyDict) : AppState × Except PyError Unit :=
  appendInbound env state "GoalCancelled" payload

/-- The handler each topic is routed to. -/
def onInbound (state : AppState) (now : Instant) (kind : Inbound) (payload : PyDict) :
    AppState × Except PyError Unit :=
  match kind with
  | .metricProposed => onMetricProposed env state payload
  | .debateOutcome => onDebateOutcome env state payload
  | .riskSignal => onRiskSignal env state payload
  | .reconciledDecision => onReconciledDecision env state now payload
  | .evidenceAttached => onEvidenceAttached env state payload
  | .goalCreated => onGoalCreated env state payload
  | .goalCancelled => onGoalCancelled env state payload
  | .runtimeArtifactDeployed => onRuntimeArtifactDeployed env state payload
  | .runtimeConfigUpdated => onRuntimeConfigUpdated env state payload

/-! ## Supersession -/

structure SupersedeArgs where
  decisionId : String
  metricName : String
  originalLeafHash : String
  newRiskContext : String
  supersedingIdempotencyKey : String

def supersededPayload (now : Instant) (args : SupersedeArgs) : PyDict :=
  ⟨[("decision_id", .str args.decisionId), ("metric_name", .str args.metricName),
    ("original_leaf_hash", .str args.originalLeafHash), ("new_risk_context", .str args.newRiskContext),
    ("superseded_by_idempotency_key", .str args.supersedingIdempotencyKey),
    ("occurred_at", .str (env.isoformat now))]⟩

def supersedeMetric (state : AppState) (now : Instant) (args : SupersedeArgs) :
    AppState × Except PyError Unit :=
  discard (state.append env (.str args.decisionId) "MetricSuperseded" (supersededPayload env now args)
    (some args.supersedingIdempotencyKey))

end CommandHandler

end DecisionCore
