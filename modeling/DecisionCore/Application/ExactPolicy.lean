import DecisionCore.Application.PolicyEvaluator

/-!
# The policy evaluator over exact numbers

`evaluate_policy` once more, with numbers that are exact rationals or special values however large they are: no integer
is too large for a float, and the one thing that can be raised is a `ZeroDivisionError`.
-/

namespace DecisionCore.PolicyEvaluator.Exact

open MetricsRegistry (Metrics)

/-- `record.value if isinstance(record.value, (int, float)) else 1.0`; a `bool` is an `int`. -/
def num : Json → PyFloat
  | .int n => .fin n
  | .bool b => .fin (if b then 1 else 0)
  | .float x => x
  | _ => .fin 1

/-- `a / b`, none for the `ZeroDivisionError`. -/
def divide? (a b : PyFloat) : Option PyFloat := if b = .fin 0 then none else some (a.div b)

/-- The loop over the committed records, with the terms collected so far and the base score of the last round. -/
def baseLoop (weights : Option (Dict String PyFloat)) (all : List (String × MetricRecord))
    (terms : List PyFloat) (base : PyFloat) : List (String × MetricRecord) → Option PyFloat
  | [] => some base
  | (name, record) :: rest => do
    let terms := terms ++ [(num record.value).mul (weightOf weights name)]
    let base ← divide? (sum terms) (totalWeight weights all)
    baseLoop weights all terms (clamp base) rest

/-- `evaluate_policy(…)`, none when it raises. -/
def evaluatePolicy (requiredMetrics : List String) (metrics : Metrics)
    (riskSignals : List RiskSignalEntry) (weights : Option (Dict String PyFloat))
    (thresholds : PolicyThresholds) : Option PolicyVerdictResult :=
  let committed := committed requiredMetrics metrics
  let missing := missing requiredMetrics committed
  if missing.isEmpty then do
    let base ← baseLoop weights committed [] (.fin 0) committed
    let activeRisk := active riskSignals
    let trustScore := clamp (base.sub (.fin (riskPenalty activeRisk)))
    return { trustScore := some trustScore
             status := verdictOf thresholds trustScore (hasCritical activeRisk)
             missingMetrics := []
             evidenceRefs := sortedSet (committed.flatMap fun binding ↦ binding.2.evidenceRefs) }
  else
    return { trustScore := none, status := .insufficientData, missingMetrics := missing,
             evidenceRefs := [] }

end DecisionCore.PolicyEvaluator.Exact
