import DecisionCore.Domain.Values

/-!
# Enumerations, records and inbound event models

The stored and returned data of the service, with the validation a model performs when it is built
from an event.  A record that fails validation cannot be built: the smart constructors below are
the only way the registries obtain one.
-/

namespace DecisionCore

/-- Lifecycle stage of a metric. -/
inductive MetricStatus where
  | proposed
  | debated
  | critiqued
  | reconciled
  | committed
  | rejected
  | superseded
  deriving DecidableEq, Repr

def MetricStatus.value : MetricStatus → String
  | proposed => "PROPOSED"
  | debated => "DEBATED"
  | critiqued => "CRITIQUED"
  | reconciled => "RECONCILED"
  | committed => "COMMITTED"
  | rejected => "REJECTED"
  | superseded => "SUPERSEDED"

/-- Synchronous answer to the UpdateMetric command. -/
inductive UpdateMetricStatus where
  | accepted
  | duplicateIgnored
  | rejectedMissingEvidence
  deriving DecidableEq, Repr

inductive PolicyVerdict where
  | approve
  | reject
  | manualReview
  | insufficientData
  deriving DecidableEq, Repr

def PolicyVerdict.value : PolicyVerdict → String
  | approve => "APPROVE"
  | reject => "REJECT"
  | manualReview => "MANUAL_REVIEW"
  | insufficientData => "INSUFFICIENT_DATA"

/-! ## Metrics Registry entries -/

/-- The pattern of a stored leaf hash: 64 lowercase hexadecimal digits. -/
def leafHashPattern (text : String) : Bool :=
  decide (text.toList.length = 64) &&
    text.toList.all fun c ↦ decide ('a' ≤ c ∧ c ≤ 'f' ∨ '0' ≤ c ∧ c ≤ '9')

/-- One row per commit or rejection of a metric. -/
structure MetricRecord where
  decisionId : String
  metricName : String
  value : Json
  proposedBy : String
  idempotencyKey : String
  evidenceRefs : List String
  status : MetricStatus
  createdAt : Instant
  leafHash : Option String
  supersededBy : Option Json

/-- The optional `leaf_hash` field. -/
def leafHashField? : Json → Option (Option String)
  | .null => some none
  | .str text => if leafHashPattern text then some (some text) else none
  | _ => none

/-- Validation of the fields of a `MetricRecord`; evidence references become sorted and unique. -/
def MetricRecord.build (decisionId : String) (metricName value proposedBy idempotencyKey evidenceRefs : Json)
    (status : MetricStatus) (createdAt : Instant) (leafHash : Json) : Except PyError MetricRecord :=
  match metricName.asStr?, proposedBy.asStr?, idempotencyKey.asStr?, evidenceRefs.asStrList?,
    leafHashField? leafHash with
  | some metricName, some proposedBy, some idempotencyKey, some refs, some leafHash =>
    .ok { decisionId, metricName, value, proposedBy, idempotencyKey, evidenceRefs := sortedSet refs,
          status, createdAt, leafHash, supersededBy := none }
  | _, _, _, _, _ => .error .validationError

/-! ## Risk Matrix entries -/

/-- The float a model field reads from a JSON value. -/
def floatField? (env : Env) : Json → Option PyFloat
  | .bool b => some (.fin (if b then 1 else 0))
  | .int n => some (.fin n)
  | .float x => some x
  | .str text => env.parseFloat text
  | _ => none

/-- A severity, which the model keeps between 0 and 1. -/
structure Severity where
  value : ℚ
  nonneg : 0 ≤ value
  le_one : value ≤ 1

def severityField? (env : Env) (field : Json) : Option Severity :=
  match floatField? env field with
  | some (.fin q) => if h : 0 ≤ q ∧ q ≤ 1 then some ⟨q, h.1, h.2⟩ else none
  | _ => none

structure RiskSignalEntry where
  decisionId : String
  metricName : String
  category : String
  severity : Severity
  status : String
  contradictionFlags : List String

def RiskSignalEntry.build (env : Env) (decisionId : String) (metricName category severity flags : Json) :
    Except PyError RiskSignalEntry :=
  match metricName.asStr?, category.asStr?, severityField? env severity, flags.asStrList? with
  | some metricName, some category, some severity, some contradictionFlags =>
    .ok { decisionId, metricName, category, severity, status := "ACTIVE", contradictionFlags }
  | _, _, _, _ => .error .validationError

/-! ## Read model -/

structure PolicyVerdictResult where
  trustScore : Option PyFloat
  status : PolicyVerdict
  missingMetrics : List String
  evidenceRefs : List String

structure ScoreboardMetricView where
  value : Json
  evidenceRefs : List String
  committedAt : Instant
  status : MetricStatus

structure ScoreboardState where
  decisionId : String
  trustScore : Option PyFloat
  policyVerdict : PolicyVerdict
  metrics : Dict String ScoreboardMetricView
  merkleRootRef : Option String
  merkleTimestamp : Option Instant
  rebuiltAt : Instant
  rebuildSeq : ℕ

inductive ProofPosition where
  | left
  | right
  deriving DecidableEq, Repr

structure ProofNode where
  hash : String
  position : ProofPosition
  deriving DecidableEq, Repr

/-- The proof-lookup row of one leaf. -/
structure ProofRow where
  leafHash : String
  proofPath : List ProofNode
  root : String
  anchorSignature : String
  anchorTimestamp : String
  batchId : String
  deriving DecidableEq, Repr

/-! ## Inbound events -/

/-- The kinds of event consumed from the bus. -/
inductive Inbound where
  | metricProposed
  | debateOutcome
  | riskSignal
  | reconciledDecision
  | evidenceAttached
  | goalCreated
  | goalCancelled
  | runtimeArtifactDeployed
  | runtimeConfigUpdated
  deriving DecidableEq, Repr

namespace Inbound

/-- The `event_type` literal of the model, which is also the one the handler appends. -/
def eventType : Inbound → String
  | metricProposed => "MetricProposed"
  | debateOutcome => "DebateOutcome"
  | riskSignal => "RiskSignal"
  | reconciledDecision => "ReconciledDecision"
  | evidenceAttached => "EvidenceAttached"
  | goalCreated => "GoalCreated"
  | goalCancelled => "GoalCancelled"
  | runtimeArtifactDeployed => "RuntimeArtifactDeployed"
  | runtimeConfigUpdated => "RuntimeConfigUpdated"

/-- Required fields of type `str`. -/
def textFields : Inbound → List String
  | metricProposed => ["decision_id", "metric_name", "idempotency_key", "proposed_by"]
  | debateOutcome => ["decision_id", "metric_name"]
  | riskSignal => ["decision_id", "metric_name", "risk_level"]
  | reconciledDecision =>
    ["decision_id", "metric_name", "resolution_method", "idempotency_key", "proposed_by"]
  | evidenceAttached => ["decision_id", "evidence_id", "source_type", "content_hash", "storage_ref"]
  | goalCreated => ["decision_id", "goal_id"]
  | goalCancelled => ["decision_id", "reason"]
  | runtimeArtifactDeployed => ["artifact_type", "artifact_id", "version", "content_hash"]
  | runtimeConfigUpdated => ["config_type", "config_id", "version", "content_hash"]

/-- Required fields that no handler or registry reads by type: `Any` values and moments. -/
def openFields : Inbound → List String
  | metricProposed => ["value", "occurred_at"]
  | debateOutcome => ["consensus_value", "occurred_at"]
  | riskSignal => ["occurred_at"]
  | reconciledDecision => ["final_value", "occurred_at"]
  | evidenceAttached => ["fetched_at"]
  | goalCreated => ["required_metrics", "occurred_at"]
  | goalCancelled => ["occurred_at"]
  | runtimeArtifactDeployed => ["deployed_at"]
  | runtimeConfigUpdated => ["occurred_at"]

/-- Optional fields of type `list[str]`. -/
def textListFields : Inbound → List String
  | debateOutcome => ["dissent_refs"]
  | riskSignal => ["contradiction_flags"]
  | reconciledDecision => ["evidence_refs"]
  | _ => []

end Inbound

namespace PyDict

def text? (payload : PyDict) (key : String) : Option String := (payload.get? key).bind Json.asStr?

theorem get?_of_text? {payload : PyDict} {key text : String} (h : payload.text? key = some text) :
    payload.get? key = some (.str text) := by
  unfold text? at h
  obtain ⟨value, hget, hstr⟩ := Option.bind_eq_some_iff.mp h
  rw [hget, (Json.asStr?_eq_some text value).mp hstr]

end PyDict

open PyDict in
/-- The payload conforms to the model of its kind: the required fields are there with their types,
optional ones have their types when they are there, and so does `event_type`. -/
structure Inbound.Conforms (env : Env) (kind : Inbound) (payload : PyDict) : Prop where
  texts : ∀ key ∈ kind.textFields, ∃ text, payload.text? key = some text
  opens : ∀ key ∈ kind.openFields, payload.contains key = true
  textLists : ∀ key ∈ kind.textListFields, ∀ value, payload.get? key = some value →
    ∃ texts, value.asStrList? = some texts
  severity : kind = .riskSignal → ∀ value, payload.get? "severity" = some value →
    ∃ severity, severityField? env value = some severity
  event_type : ∀ value, payload.get? "event_type" = some value → value = .str kind.eventType

end DecisionCore
