import DecisionCore.Application.MetricsRegistry

/-!
# Risk Matrix and Policy Evaluator

The risk signals of a decision, and the score and verdict computed from its committed metrics.
-/

namespace DecisionCore

/-! ## Risk Matrix -/

namespace RiskMatrix

variable (env : Env)

/-- The entry of a `RiskSignal` event. -/
def entryOf (decisionId : String) (evt : PyDict) : Except PyError RiskSignalEntry := do
  let metricName ← MetricsRegistry.item evt "metric_name"
  RiskSignalEntry.build env decisionId metricName ((evt.get? "risk_level").getD (.str "UNKNOWN"))
    ((evt.get? "severity").getD (.float (.fin 0))) ((evt.get? "contradiction_flags").getD (.list []))

/-- A signal can be read when its texts can, and its severity and its flags as far as it has them. -/
theorem exists_entryOf {env : Env} (decisionId : String) {evt : PyDict} {name level : String}
    (hname : evt.get? "metric_name" = some (.str name))
    (hlevel : (evt.get? "risk_level").getD (.str "UNKNOWN") = .str level)
    (hseverity : ∀ value, evt.get? "severity" = some value → ∃ severity, severityField? env value = some severity)
    (hflags : ∀ value, evt.get? "contradiction_flags" = some value → ∃ texts, value.asStrList? = some texts) :
    ∃ risk, entryOf env decisionId evt = .ok risk := by
  have hdefault : ∃ severity, severityField? env ((evt.get? "severity").getD (.float (.fin 0))) =
      some severity := by
    cases hfield : evt.get? "severity" with
    | none => exact ⟨⟨0, le_rfl, zero_le_one⟩, by simp [severityField?, floatField?]⟩
    | some value => exact hseverity value hfield
  have hnoFlags : ∃ texts, ((evt.get? "contradiction_flags").getD (.list [])).asStrList? = some texts := by
    cases hfield : evt.get? "contradiction_flags" with
    | none => exact ⟨[], rfl⟩
    | some value => exact hflags value hfield
  obtain ⟨severity, hread⟩ := hdefault
  obtain ⟨flags, hlist⟩ := hnoFlags
  refine ⟨⟨decisionId, name, level, severity, "ACTIVE", flags⟩, ?_⟩
  simp [entryOf, MetricsRegistry.item, hname, hlevel, hread, hlist, RiskSignalEntry.build, Json.asStr?, bind,
    Except.bind]

/-- `reconstruct(decision_id, events)`. -/
def reconstruct (decisionId : String) : List PyDict → Except PyError (List RiskSignalEntry)
  | [] => .ok []
  | evt :: rest =>
    if evt.hasType "RiskSignal" then do
      let entry ← entryOf env decisionId evt
      let entries ← reconstruct decisionId rest
      return entry :: entries
    else reconstruct decisionId rest

end RiskMatrix

/-! ## Policy Evaluator -/

namespace PolicyEvaluator

open MetricsRegistry (Metrics)

structure PolicyThresholds where
  approveAt : ℚ
  rejectBelow : ℚ

/-- The defaults `0.7` and `0.5`. -/
def PolicyThresholds.default : PolicyThresholds := ⟨7 / 10, 1 / 2⟩

/-- `RISK_WEIGHTS.get(category, 0.1)`. -/
def riskWeight (category : String) : ℚ :=
  if category = "DATA_FRESHNESS" then 5 / 100
  else if category = "CONTRADICTION" then 15 / 100
  else if category = "POLICY_BREACH" then 30 / 100
  else if category = "CRITICAL" then 50 / 100
  else 1 / 10

/-- The committed records of required metrics, in the order of the dict. -/
def committed (requiredMetrics : List String) (metrics : Metrics) : List (String × MetricRecord) :=
  metrics.entries.filter fun binding ↦
    decide (binding.2.status = .committed) && decide (binding.1 ∈ requiredMetrics)

/-- `sorted(set(required_metrics) - set(committed.keys()))`. -/
def missing (requiredMetrics : List String) (committed : List (String × MetricRecord)) : List String :=
  sortedSet (requiredMetrics.filter fun name ↦ decide (name ∉ committed.map Prod.fst))

/-- The weight of a metric: the given weights when there are any, else 1. -/
def weightOf (weights : Option (Dict String PyFloat)) (name : String) : PyFloat :=
  match weights with
  | none => .fin 1
  | some weights => if weights.entries.isEmpty then .fin 1 else (weights.get? name).getD (.fin 1)

/-- `numeric_val * weight`; a value that is not a number counts as `1.0`. -/
def weighted (value : Json) (weight : PyFloat) : Except PyError PyFloat :=
  match value with
  | .int n => (PyFloat.ofInt n).map fun x ↦ x.mul weight
  | .bool b => .ok (PyFloat.mul (.fin (if b then 1 else 0)) weight)
  | .float x => .ok (x.mul weight)
  | _ => .ok (PyFloat.mul (.fin 1) weight)

def sum (terms : List PyFloat) : PyFloat := terms.foldl PyFloat.add (.fin 0)

/-- `max(0.0, min(1.0, x))`. -/
def clamp (x : PyFloat) : PyFloat := PyFloat.pyMax (.fin 0) (PyFloat.pyMin (.fin 1) x)

/-- `sum(…) or 1.0`. -/
def totalWeight (weights : Option (Dict String PyFloat)) (committed : List (String × MetricRecord)) :
    PyFloat :=
  let total := sum (committed.map fun binding ↦ weightOf weights binding.1)
  if total.truthy then total else .fin 1

/-- The loop over the committed records: every round recomputes the base score from the terms
collected so far and the weight of all of them. -/
def baseLoop (weights : Option (Dict String PyFloat)) (all : List (String × MetricRecord))
    (terms : List PyFloat) (base : PyFloat) : List (String × MetricRecord) → Except PyError PyFloat
  | [] => .ok base
  | (name, record) :: rest => do
    let term ← weighted record.value (weightOf weights name)
    let terms := terms ++ [term]
    baseLoop weights all terms (clamp ((sum terms).div (totalWeight weights all))) rest

def baseScore (weights : Option (Dict String PyFloat)) (committed : List (String × MetricRecord)) :
    Except PyError PyFloat :=
  baseLoop weights committed [] (.fin 0) committed

def active (riskSignals : List RiskSignalEntry) : List RiskSignalEntry :=
  riskSignals.filter fun risk ↦ decide (risk.status = "ACTIVE")

def riskPenalty (activeRisk : List RiskSignalEntry) : ℚ :=
  (activeRisk.map fun risk ↦ risk.severity.value * riskWeight risk.category).sum

def hasCritical (activeRisk : List RiskSignalEntry) : Bool :=
  activeRisk.any fun risk ↦ decide (risk.category = "CRITICAL")

/-- The three-way verdict on a score. -/
def verdictOf (thresholds : PolicyThresholds) (trustScore : PyFloat) (critical : Bool) : PolicyVerdict :=
  if PyFloat.le (.fin thresholds.approveAt) trustScore && !critical then .approve
  else if PyFloat.lt trustScore (.fin thresholds.rejectBelow) || critical then .reject
  else .manualReview

/-- `evaluate_policy(…)`. -/
def evaluatePolicy (requiredMetrics : List String) (metrics : Metrics)
    (riskSignals : List RiskSignalEntry) (weights : Option (Dict String PyFloat))
    (thresholds : PolicyThresholds) : Except PyError PolicyVerdictResult :=
  let committed := committed requiredMetrics metrics
  let missing := missing requiredMetrics committed
  if missing.isEmpty then do
    let base ← baseScore weights committed
    let activeRisk := active riskSignals
    let trustScore := clamp (base.sub (.fin (riskPenalty activeRisk)))
    return { trustScore := some trustScore
             status := verdictOf thresholds trustScore (hasCritical activeRisk)
             missingMetrics := []
             evidenceRefs := sortedSet (committed.flatMap fun binding ↦ binding.2.evidenceRefs) }
  else
    return { trustScore := none, status := .insufficientData, missingMetrics := missing,
             evidenceRefs := [] }

end PolicyEvaluator

end DecisionCore
