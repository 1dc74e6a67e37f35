import DecisionCore.Infrastructure.AuditTrail

/-!
# Metrics Registry

Replay of a decision's event stream into one record per metric name.  The loop leaves the function
at the first supersession whose metric has a record: later events are not replayed.
-/

namespace DecisionCore.MetricsRegistry

abbrev Metrics := Dict String MetricRecord

variable (env : Env)

/-- `evt[key]`. -/
def item (evt : PyDict) (key : String) : Except PyError Json :=
  match evt.get? key with
  | some value => .ok value
  | none => .error (.keyError key)

/-- `_parse`, on the JSON values an event can hold. -/
def parse (value : Json) : Except PyError Instant :=
  match value with
  | .str text =>
    match env.fromisoformat text with
    | some moment => .ok moment
    | none => .error .valueError
  | _ => .error .typeError

/-- The record of a `MetricCommitted` event. -/
def committedRecord (decisionId : String) (evt : PyDict) : Except PyError MetricRecord := do
  let metricName ← item evt "metric_name"
  let value ← item evt "value"
  let proposedBy := (evt.get? "proposed_by").getD (.str "unknown")
  let idempotencyKey ← item evt "idempotency_key"
  let evidenceRefs ← item evt "evidence_refs"
  let createdAt ← parse env (← item evt "committed_at")
  let leafHash ← item evt "leaf_hash"
  MetricRecord.build decisionId metricName value proposedBy idempotencyKey evidenceRefs .committed
    createdAt leafHash

/-- The record of a `MetricRejected` event of a metric without a record. -/
def rejectedRecord (decisionId : String) (evt : PyDict) : Except PyError MetricRecord := do
  let metricName ← item evt "metric_name"
  let idempotencyKey ← item evt "idempotency_key"
  let createdAt ← parse env (← item evt "occurred_at")
  MetricRecord.build decisionId metricName .null (.str "unknown") idempotencyKey (.list []) .rejected
    createdAt .null

/-- `name in metrics`, which hashes the name; the key and the record found under it. -/
def recordOf? (metrics : Metrics) (name : Json) : Except PyError (Option (String × MetricRecord)) :=
  match name with
  | .str text => .ok ((metrics.get? text).map fun record ↦ (text, record))
  | name => if name.hashable then .ok none else .error .typeError

/-- The record of a superseded metric: only its status and `superseded_by` change. -/
def supersede (record : MetricRecord) (by_ : Json) : MetricRecord :=
  { record with status := .superseded, supersededBy := some by_ }

/-- The loop of `reconstruct` from the records built so far. -/
def replay (decisionId : String) (metrics : Metrics) : List PyDict → Except PyError Metrics
  | [] => .ok metrics
  | evt :: rest =>
    if evt.hasType "MetricCommitted" then do
      let record ← committedRecord env decisionId evt
      replay decisionId (metrics.set record.metricName record) rest
    else if evt.hasType "MetricRejected" then do
      match ← recordOf? metrics (← item evt "metric_name") with
      | some _ => replay decisionId metrics rest
      | none =>
        let record ← rejectedRecord env decisionId evt
        replay decisionId (metrics.set record.metricName record) rest
    else if evt.hasType "MetricSuperseded" then do
      match ← recordOf? metrics (← item evt "metric_name") with
      | some (target, record) =>
        let by_ ← item evt "superseded_by_idempotency_key"
        -- `return metrics` stands inside the loop.
        return metrics.set target (supersede record by_)
      | none => replay decisionId metrics rest
    else replay decisionId metrics rest

/-- `reconstruct(decision_id, events)`. -/
def reconstruct (decisionId : String) (events : List PyDict) : Except PyError Metrics :=
  replay env decisionId .empty events

end DecisionCore.MetricsRegistry
