import DecisionCore.Application.MerkleAnchorService
import DecisionCore.Application.ScoreboardProjector

/-!
# The proof endpoints

`GET /v1/merkle-proof` and the gRPC method `GetMerkleProof`.  Both search the log for a commit of the
metric on their own and answer with the row stored under its leaf hash; only the REST route rebuilds
the scoreboard first.
-/

namespace DecisionCore

open MerkleAnchorService

/-- A read request is answered with a response, with a not-found status and its text, or it raises. -/
inductive Reply (α : Type) where
  | ok (response : α)
  | notFound (detail : String)
  | raised (error : PyError)

def Reply.ofExcept {α : Type} : Except PyError α → Reply α
  | .ok response => .ok response
  | .error error => .raised error

def Reply.message? {α : Type} : Reply α → Option α
  | .ok response => some response
  | .notFound _ => none
  | .raised _ => none

theorem Reply.eq_ok_of_message? {α : Type} {reply : Reply α} {response : α}
    (h : reply.message? = some response) : reply = .ok response := by
  cases reply with
  | ok found => rw [Option.some.inj h]
  | notFound detail => cases h
  | raised error => cases h

/-- `e.get("event_type") == "MetricCommitted" and e.get("metric_name") == metric_name`. -/
def isCommitOf (metricName : String) (evt : PyDict) : Bool :=
  evt.hasType "MetricCommitted" && (evt.get? "metric_name").any (Json.isStr metricName)

/-- The `next(…, None)` of both endpoints. -/
def committedEvent? (events : List PyDict) (metricName : String) : Option PyDict :=
  events.find? (isCommitOf metricName)

/-- The stored row whose key is formatted from a leaf hash. -/
def storedProof? (env : Env) (state : AppState) (leafHash : Json) : Option StoreRow :=
  state.projectionStore.get? (proofKey (leafHash.format env))

namespace Api

structure GetMerkleProofResponse where
  leafHash : String
  proofPath : List ProofNode
  root : String
  anchorSignature : String
  anchorTimestamp : Instant

/-- The response built from a row; the timestamp is read by its model. -/
def responseOf (env : Env) : StoreRow → Except PyError GetMerkleProofResponse
  | .scoreboard _ => .error (.keyError "leaf_hash")
  | .proof row =>
    match env.fromisoformat row.anchorTimestamp with
    | none => .error .validationError
    | some anchorTimestamp =>
      .ok { leafHash := row.leafHash, proofPath := row.proofPath, root := row.root,
            anchorSignature := row.anchorSignature, anchorTimestamp }

/-- `get_merkle_proof(decision_id, metric_name)`. -/
def getMerkleProof (env : Env) (requiredMetricsByDecision : Dict String (List String)) (state : AppState)
    (now : Instant) (decisionId metricName : String) : AppState × Reply GetMerkleProofResponse :=
  let required := (requiredMetricsByDecision.get? decisionId).getD [metricName]
  match ScoreboardProjector.rebuild env state now decisionId required with
  | (state, .error error) => (state, .raised error)
  | (state, .ok scoreboard) =>
    if scoreboard.metrics.contains metricName then
      let committed := committedEvent? (state.auditTrail.readRange decisionId 0) metricName
      match committed.bind (·.get? "leaf_hash") with
      | none => (state, .notFound "leaf not yet anchored — batch has not closed")
      | some leafHash =>
        match storedProof? env state leafHash with
        | none => (state, .notFound "leaf committed but not yet anchored — try again shortly")
        | some row => (state, .ofExcept (responseOf env row))
    else (state, .notFound "metric not found or not yet committed")

end Api

namespace Grpc

structure ProofNode where
  hash : Bytes
  position : ProofPosition

structure MerkleProof where
  leafHash : Bytes
  proofPath : List ProofNode
  root : Bytes
  anchorSignature : Bytes
  anchorTimestampUnixMs : ℤ

/-- `bytes.fromhex(text)`, which raises on other texts. -/
def fromhexField (text : String) : Except PyError Bytes :=
  match fromhex text with
  | some bytes => .ok bytes
  | none => .error .valueError

/-- The message built from a row. -/
def messageOf (env : Env) : StoreRow → Except PyError MerkleProof
  | .scoreboard _ => .error (.keyError "anchor_timestamp")
  | .proof row => do
    let anchorTs ← MetricsRegistry.parse env (.str row.anchorTimestamp)
    let leafHash ← fromhexField row.leafHash
    let root ← fromhexField row.root
    let anchorSignature ← fromhexField row.anchorSignature
    let proofPath ← row.proofPath.mapM fun node ↦
      (fromhexField node.hash).map fun hash ↦ (⟨hash, node.position⟩ : ProofNode)
    return { leafHash, proofPath, root, anchorSignature, anchorTimestampUnixMs := anchorTs.tdiv 1000 }

/-- `GetMerkleProof(request)`. -/
def getMerkleProof (env : Env) (state : AppState) (decisionId metricName : String) : Reply MerkleProof :=
  match committedEvent? (state.auditTrail.readRange decisionId 0) metricName with
  | none => .notFound "metric not committed"
  | some committed =>
    match committed.get? "leaf_hash" with
    | none => .raised (.keyError "leaf_hash")
    | some leafHash =>
      match storedProof? env state leafHash with
      | none => .notFound "leaf committed but not yet anchored"
      | some row => .ofExcept (messageOf env row)

end Grpc

end DecisionCore
