import DecisionCore.Application.MetricsRegistry

/-!
# Evidence Registry

Reconstruction of the known evidence of a decision from its event stream.  The statement that writes the registry
stands behind the loop: it runs once, on the event that the loop has left in its variable.
-/

namespace DecisionCore.EvidenceRegistry

open MetricsRegistry (item parse)

/-- Evidence Registry entry: a content hash and a storage reference, never the content itself. -/
structure EvidenceRecord where
  evidenceId : String
  decisionId : String
  sourceType : String
  contentHash : String
  storageRef : String
  fetchedAt : Instant
  ttlExpiresAt : Option Instant
  deriving DecidableEq, Repr

/-- Validation of the fields of an `EvidenceRecord`. -/
def EvidenceRecord.build (decisionId : String) (evidenceId sourceType contentHash storageRef : Json)
    (fetchedAt : Instant) : Except PyError EvidenceRecord :=
  match evidenceId.asStr?, sourceType.asStr?, contentHash.asStr?, storageRef.asStr? with
  | some evidenceId, some sourceType, some contentHash, some storageRef =>
    .ok { evidenceId, decisionId, sourceType, contentHash, storageRef, fetchedAt, ttlExpiresAt := none }
  | _, _, _, _ => .error .validationError

abbrev Registry := Dict String EvidenceRecord

/-- What `reconstruct` raises: an exception of the record's construction, or the one for a variable that is read
before the loop has given it a value. -/
inductive Error where
  | raised (error : PyError)
  | unboundLocalError
  deriving DecidableEq, Repr

/-- `evt.get("event_type") == "EvidenceAttached"`. -/
def attached (evt : PyDict) : Bool := evt.hasType "EvidenceAttached"

/-- The loop over the events, from the value of `evt` before it: either way the round ends at once. -/
def scan (evt : Option PyDict) : List PyDict → Option PyDict
  | [] => evt
  | next :: rest =>
    if !attached next then scan (some next) rest -- `continue`
    else scan (some next) rest

variable (env : Env)

/-- The record of an event. -/
def recordOf (decisionId : String) (evt : PyDict) : Except PyError EvidenceRecord := do
  let evidenceId ← item evt "evidence_id"
  let sourceType ← item evt "source_type"
  let contentHash ← item evt "content_hash"
  let storageRef ← item evt "storage_ref"
  let fetchedAt ← parse env (← item evt "fetched_at")
  EvidenceRecord.build decisionId evidenceId sourceType contentHash storageRef fetchedAt

/-- `reconstruct(decision_id, events)`. -/
def reconstruct (decisionId : String) (events : List PyDict) : Except Error Registry :=
  match scan none events with
  | none => .error .unboundLocalError
  | some evt =>
    match recordOf env decisionId evt with
    | .ok record => .ok (Dict.empty.set record.evidenceId record)
    | .error error => .error (.raised error)

/-- `all_present(evidence_refs, known)`. -/
def allPresent (evidenceRefs : List String) (known : Registry) : Bool := evidenceRefs.all known.contains

end DecisionCore.EvidenceRegistry
