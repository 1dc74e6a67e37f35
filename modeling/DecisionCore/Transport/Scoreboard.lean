import DecisionCore.Transport.MerkleProof

/-!
# The scoreboard endpoints

`GET /v1/scoreboard/{decision_id}` and the gRPC method `GetScoreboard`, and the read queries of both
transports taken together.  A query that rebuilds the scoreboard overwrites the stored row, also when it
answers that nothing is found.
-/

namespace DecisionCore

open ScoreboardProjector

namespace Api

structure ScoreboardMetricOut where
  value : Json
  evidenceRefs : List String
  committedAt : Instant

/-- The score is a number, or the text `"INSUFFICIENT_DATA"`. -/
structure GetScoreboardResponse where
  decisionId : String
  trustScore : PyFloat ⊕ String
  metrics : Dict String ScoreboardMetricOut
  merkleRootRef : Option String
  merkleTimestamp : Option Instant
  rebuiltAt : Instant

def scoreboardResponseOf (result : ScoreboardState) : GetScoreboardResponse where
  decisionId := result.decisionId
  trustScore := match result.trustScore with
    | some trustScore => .inl trustScore
    | none => .inr "INSUFFICIENT_DATA"
  metrics := ⟨result.metrics.entries.map fun binding ↦
    (binding.1, ⟨binding.2.value, binding.2.evidenceRefs, binding.2.committedAt⟩)⟩
  merkleRootRef := result.merkleRootRef
  merkleTimestamp := result.merkleTimestamp
  rebuiltAt := result.rebuiltAt

/-- `get_scoreboard(decision_id)`. -/
def getScoreboard (env : Env) (requiredMetricsByDecision : Dict String (List String)) (state : AppState)
    (now : Instant) (decisionId : String) : AppState × Reply GetScoreboardResponse :=
  let required := (requiredMetricsByDecision.get? decisionId).getD []
  match rebuild env state now decisionId required with
  | (state, .error error) => (state, .raised error)
  | (state, .ok result) =>
    if result.metrics.entries.isEmpty then (state, .notFound "decision_id not found")
    else (state, .ok (scoreboardResponseOf result))

end Api

namespace Grpc

structure MetricEntry where
  metricName : String
  value : Bytes
  evidenceRefs : List String
  committedAtUnixMs : ℤ
  status : String

/-- The `oneof` of a scoreboard message. -/
inductive TrustScoreResult where
  | trustScore (score : PyFloat)
  | insufficientReason

structure ScoreboardMessage where
  decisionId : String
  trustScoreResult : TrustScoreResult
  policyVerdict : String
  metrics : List MetricEntry
  merkleRootRef : String
  rebuiltAtUnixMs : ℤ
  merkleTimestampUnixMs : ℤ

def metricEntryOf (env : Env) (binding : String × ScoreboardMetricView) : MetricEntry where
  metricName := binding.1
  value := encodeUtf8 (jsonDumps env binding.2.value)
  evidenceRefs := binding.2.evidenceRefs
  committedAtUnixMs := binding.2.committedAt.tdiv 1000
  status := binding.2.status.value

def scoreboardMessageOf (env : Env) (sb : ScoreboardState) : ScoreboardMessage where
  decisionId := sb.decisionId
  trustScoreResult := match sb.trustScore with
    | none => .insufficientReason
    | some score => .trustScore score
  policyVerdict := sb.policyVerdict.value
  metrics := sb.metrics.entries.map (metricEntryOf env)
  merkleRootRef := sb.merkleRootRef.getD ""
  rebuiltAtUnixMs := sb.rebuiltAt.tdiv 1000
  merkleTimestampUnixMs := match sb.merkleTimestamp with
    | some moment => moment.tdiv 1000
    | none => 0

/-- `GetScoreboard(request)`. -/
def getScoreboard (env : Env) (requiredMetricsByDecision : Dict String (List String)) (state : AppState)
    (now : Instant) (decisionId : String) : AppState × Reply ScoreboardMessage :=
  let required := (requiredMetricsByDecision.get? decisionId).getD []
  match rebuild env state now decisionId required with
  | (state, .error error) => (state, .raised error)
  | (state, .ok sb) => (state, .ok (scoreboardMessageOf env sb))

end Grpc

/-! ## Read queries -/

/-- A read query of either transport. -/
inductive Query where
  | getScoreboard (decisionId : String)
  | getMerkleProof (decisionId metricName : String)
  | grpcGetScoreboard (decisionId : String)
  | grpcGetMerkleProof (decisionId metricName : String)

namespace Query

variable (env : Env) (requiredMetricsByDecision : Dict String (List String))

/-- The state after a query was answered at a moment. -/
def answered (state : AppState) (now : Instant) : Query → AppState
  | getScoreboard decisionId => (Api.getScoreboard env requiredMetricsByDecision state now decisionId).1
  | getMerkleProof decisionId metricName =>
    (Api.getMerkleProof env requiredMetricsByDecision state now decisionId metricName).1
  | grpcGetScoreboard decisionId => (Grpc.getScoreboard env requiredMetricsByDecision state now decisionId).1
  | grpcGetMerkleProof _ _ => state

/-- The state after queries that were answered one after the other. -/
def answeredAll (state : AppState) (queries : List (Instant × Query)) : AppState :=
  queries.foldl (fun state query ↦ answered env requiredMetricsByDecision state query.1 query.2) state

@[simp]
theorem answeredAll_nil (state : AppState) : answeredAll env requiredMetricsByDecision state [] = state := rfl

@[simp]
theorem answeredAll_cons (state : AppState) (now : Instant) (query : Query) (rest : List (Instant × Query)) :
    answeredAll env requiredMetricsByDecision state ((now, query) :: rest) =
      answeredAll env requiredMetricsByDecision (answered env requiredMetricsByDecision state now query) rest := rfl

/-- The decision that a query rebuilds, and the metrics it requires of it. -/
def rebuilt : Query → Option (String × List String)
  | getScoreboard decisionId => some (decisionId, (requiredMetricsByDecision.get? decisionId).getD [])
  | getMerkleProof decisionId metricName =>
    some (decisionId, (requiredMetricsByDecision.get? decisionId).getD [metricName])
  | grpcGetScoreboard decisionId => some (decisionId, (requiredMetricsByDecision.get? decisionId).getD [])
  | grpcGetMerkleProof _ _ => none

/-- A query changes the state by its rebuild, and by nothing else. -/
theorem answered_eq (state : AppState) (now : Instant) (query : Query) :
    answered env requiredMetricsByDecision state now query =
      match query.rebuilt requiredMetricsByDecision with
      | none => state
      | some (decisionId, required) => (rebuild env state now decisionId required).1 := by
  cases query with
  | getScoreboard decisionId =>
    simp only [answered, rebuilt, Api.getScoreboard]
    cases rebuild env state now decisionId ((requiredMetricsByDecision.get? decisionId).getD []) with
    | mk next result =>
      cases result with
      | error error => rfl
      | ok board =>
        dsimp only
        split <;> rfl
  | getMerkleProof decisionId metricName =>
    simp only [answered, rebuilt, Api.getMerkleProof]
    cases rebuild env state now decisionId ((requiredMetricsByDecision.get? decisionId).getD [metricName]) with
    | mk next result =>
      cases result with
      | error error => rfl
      | ok board =>
        dsimp only
        split
        · split
          · rfl
          · split <;> rfl
        · rfl
  | grpcGetScoreboard decisionId =>
    simp only [answered, rebuilt, Grpc.getScoreboard]
    cases rebuild env state now decisionId ((requiredMetricsByDecision.get? decisionId).getD []) with
    | mk next result => cases result <;> rfl
  | grpcGetMerkleProof decisionId metricName => rfl

end Query

end DecisionCore
