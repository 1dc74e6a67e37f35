import DecisionCore.Application.CommandHandler
import DecisionCore.Application.PolicyEvaluator

/-!
# Scoreboard Projector

The read model of a decision, rebuilt from its event stream.
-/

namespace DecisionCore.ScoreboardProjector

variable (env : Env)

def isRootEvent (evt : PyDict) : Bool := evt.hasType "MerkleRootPublished"

/-- The last `MerkleRootPublished` event of the stream. -/
def lastRootEvent (events : List PyDict) : Option PyDict := events.reverse.find? isRootEvent

theorem lastRootEvent_eq (events : List PyDict) :
    lastRootEvent events = (events.filter isRootEvent).getLast? := by
  rw [lastRootEvent, ← List.head?_filter, List.filter_reverse, List.head?_reverse]

/-- `last_root_event["root"]`, which the state model requires to be a text. -/
def merkleRootRef (events : List PyDict) : Except PyError (Option Json) :=
  match lastRootEvent events with
  | none => .ok none
  | some evt => (MetricsRegistry.item evt "root").map some

def merkleTimestamp (events : List PyDict) : Except PyError (Option Instant) :=
  match lastRootEvent events with
  | none => .ok none
  | some evt => do
    let text ← MetricsRegistry.item evt "anchor_timestamp"
    let moment ← MetricsRegistry.parse env text
    return some moment

theorem merkleRootRef_congr {first second : List PyDict} (h : lastRootEvent first = lastRootEvent second) :
    merkleRootRef first = merkleRootRef second := by
  rw [merkleRootRef, merkleRootRef, h]

theorem merkleTimestamp_congr {first second : List PyDict} (h : lastRootEvent first = lastRootEvent second) :
    merkleTimestamp env first = merkleTimestamp env second := by
  rw [merkleTimestamp, merkleTimestamp, h]

def viewOf (record : MetricRecord) : ScoreboardMetricView :=
  ⟨record.value, record.evidenceRefs, record.createdAt, record.status⟩

def viewsOf (metrics : MetricsRegistry.Metrics) : Dict String ScoreboardMetricView :=
  ⟨metrics.entries.map fun binding ↦ (binding.1, viewOf binding.2)⟩

/-- The validation of `merkle_root_ref: str | None`. -/
def rootField : Option Json → Except PyError (Option String)
  | none => .ok none
  | some .null => .ok none
  | some (.str text) => .ok (some text)
  | some _ => .error .validationError

/-- The computation of `rebuild` on the events it has read. -/
def project (decisionId : String) (requiredMetrics : List String) (rebuiltAt : Instant)
    (events : List PyDict) : Except PyError ScoreboardState := do
  let metrics ← MetricsRegistry.reconstruct env decisionId events
  let riskSignals ← RiskMatrix.reconstruct env decisionId events
  let root ← merkleRootRef events
  let merkleTimestamp ← merkleTimestamp env events
  let verdict ← PolicyEvaluator.evaluatePolicy requiredMetrics metrics riskSignals none .default
  let merkleRootRef ← rootField root
  return { decisionId, trustScore := verdict.trustScore, policyVerdict := verdict.status,
           metrics := viewsOf metrics, merkleRootRef, merkleTimestamp, rebuiltAt,
           rebuildSeq := events.length }

def scoreboardKey (decisionId : String) : String := "scoreboard:" ++ decisionId

/-- `rebuild(decision_id, required_metrics)`: the projection is stored and returned. -/
def rebuild (state : AppState) (rebuiltAt : Instant) (decisionId : String)
    (requiredMetrics : List String) : AppState × Except PyError ScoreboardState :=
  match project env decisionId requiredMetrics rebuiltAt (state.auditTrail.readRange decisionId 0) with
  | .error error => (state, .error error)
  | .ok board =>
    let projectionStore := state.projectionStore.set (scoreboardKey decisionId) (.scoreboard board)
    ({ state with projectionStore }, .ok board)

end DecisionCore.ScoreboardProjector
