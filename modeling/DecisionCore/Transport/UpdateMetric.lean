import DecisionCore.Domain.JsonRoundTrip
import DecisionCore.System.Acknowledged
import DecisionCore.Transport.MerkleProof

/-!
# The update endpoints

`POST /v1/metrics` and the gRPC method `UpdateMetric`.  Both make the same command of a request; the REST model
refuses some requests before, and the gRPC request carries the value as bytes.
-/

namespace DecisionCore

open CommandHandler

def UpdateMetricStatus.value : UpdateMetricStatus → String
  | accepted => "ACCEPTED"
  | duplicateIgnored => "DUPLICATE_IGNORED"
  | rejectedMissingEvidence => "REJECTED_MISSING_EVIDENCE"

namespace Api

/-- A request whose body has passed its model. -/
structure UpdateMetricRequest where
  decisionId : String
  metricName : String
  value : Json
  idempotencyKey : String
  evidenceRefs : List String
  proposedBy : String
  runtimeContext : Json

/-- The texts of a list of texts that is not empty. -/
def evidenceField? (value : Json) : Option (List String) :=
  value.asStrList?.bind fun refs ↦ if refs.isEmpty then none else some refs

/-- The fields of a body that do not pass their checks, in the order of the model. -/
def UpdateMetricRequest.invalid (body : PyDict) : List String :=
  (if (body.text? "decision_id").isSome then [] else ["decision_id"]) ++
  (if (body.text? "metric_name").isSome then [] else ["metric_name"]) ++
  (if (body.get? "value").isSome then [] else ["value"]) ++
  (if (body.text? "idempotency_key").any (fun key ↦ decide (16 ≤ key.length)) then [] else ["idempotency_key"]) ++
  (if ((body.get? "evidence_refs").bind evidenceField?).isSome then [] else ["evidence_refs"]) ++
  (if (body.text? "proposed_by").isSome then [] else ["proposed_by"])

/-- The validation of a body; the error names the fields that are refused. -/
def UpdateMetricRequest.ofBody (body : PyDict) : Except (List String) UpdateMetricRequest :=
  match body.text? "decision_id", body.text? "metric_name", body.get? "value",
    (body.text? "idempotency_key").filter (fun key ↦ decide (16 ≤ key.length)),
    (body.get? "evidence_refs").bind evidenceField?, body.text? "proposed_by" with
  | some decisionId, some metricName, some value, some idempotencyKey, some evidenceRefs, some proposedBy =>
    .ok { decisionId, metricName, value, idempotencyKey, evidenceRefs, proposedBy,
          runtimeContext := (body.get? "runtime_context").getD (.dict []) }
  | _, _, _, _, _, _ => .error (invalid body)

def UpdateMetricRequest.command (body : UpdateMetricRequest) : UpdateMetricCommand where
  decisionId := body.decisionId
  metricName := body.metricName
  value := body.value
  idempotencyKey := body.idempotencyKey
  evidenceRefs := body.evidenceRefs
  proposedBy := body.proposedBy
  runtimeContext := body.runtimeContext

/-- 202 with a status, 422 with the refused fields or with a text, or an exception. -/
inductive UpdateReply where
  | accepted (status : String)
  | invalid (fields : List String)
  | unprocessable (detail : String)
  | raised (error : PyError)

def UpdateReply.isInvalid : UpdateReply → Bool
  | invalid _ => true
  | _ => false

/-- The reply to a handled command, which always has a result. -/
def updateReplyOf : Except PyError (Option UpdateMetricResult) → UpdateReply
  | .error error => .raised error
  | .ok none => .raised .typeError
  | .ok (some result) =>
    if result.status = .rejectedMissingEvidence then
      .unprocessable "evidence_refs must be non-empty (invariant I3)"
    else .accepted result.status.value

/-- `update_metric(body)`. -/
def updateMetric (env : Env) (state : AppState) (now : Instant) (body : PyDict) : AppState × UpdateReply :=
  match UpdateMetricRequest.ofBody body with
  | .error fields => (state, .invalid fields)
  | .ok body =>
    let (state, result) := handleUpdateMetric env state now body.command
    (state, updateReplyOf result)

end Api

namespace Grpc

structure UpdateMetricRequest where
  decisionId : String
  metricName : String
  value : Bytes
  idempotencyKey : String
  evidenceRefs : List String
  proposedBy : String
  /-- The struct as `MessageToDict` gives it. -/
  runtimeContext : Json

structure UpdateMetricResponse where
  status : UpdateMetricStatus
  leafHash : String

/-- The command of a request; no bytes stand for `None`. -/
def UpdateMetricRequest.command? (float : String → PyFloat) (request : UpdateMetricRequest) :
    Except PyError UpdateMetricCommand := do
  let value ← if request.value.isEmpty then .ok .null else jsonOfBytes float request.value
  return { decisionId := request.decisionId, metricName := request.metricName, value,
           idempotencyKey := request.idempotencyKey, evidenceRefs := request.evidenceRefs,
           proposedBy := request.proposedBy, runtimeContext := request.runtimeContext }

def updateResponseOf : Except PyError (Option UpdateMetricResult) → Reply UpdateMetricResponse
  | .error error => .raised error
  | .ok none => .raised .typeError
  | .ok (some result) => .ok ⟨result.status, result.leafHash.getD ""⟩

/-- `UpdateMetric(request)`. -/
def updateMetric (env : Env) (float : String → PyFloat) (state : AppState) (now : Instant)
    (request : UpdateMetricRequest) : AppState × Reply UpdateMetricResponse :=
  match request.command? float with
  | .error error => (state, .raised error)
  | .ok cmd =>
    let (state, result) := handleUpdateMetric env state now cmd
    (state, updateResponseOf result)

end Grpc

/-! ## Refused bodies -/

/-- A body is refused exactly when the check of a field fails, and the error names these fields. -/
theorem Api.UpdateMetricRequest.ofBody_error {body : PyDict} {fields : List String}
    (h : UpdateMetricRequest.ofBody body = .error fields) : fields = invalid body ∧ fields ≠ [] := by
  unfold ofBody at h
  split at h
  · cases h
  · rename_i hnone
    obtain rfl := Except.error.inj h
    refine ⟨rfl, ?_⟩
    intro hempty
    simp only [invalid, List.append_eq_nil_iff, ite_eq_left_iff, imp_false, not_not, and_assoc,
      Option.isSome_iff_exists, Option.any_eq_true, List.cons_ne_nil] at hempty
    obtain ⟨⟨decisionId, hdecision⟩, ⟨metricName, hmetric⟩, ⟨value, hvalue⟩, ⟨key, hkey, hlength⟩, ⟨refs, hrefs⟩,
      proposedBy, hproposed⟩ := hempty
    exact hnone decisionId metricName value key refs proposedBy hdecision hmetric hvalue
      (Option.filter_eq_some_iff.mpr ⟨hkey, hlength⟩) hrefs hproposed

theorem Api.UpdateMetricRequest.evidence_ne_nil {body : PyDict} {request : UpdateMetricRequest}
    (h : UpdateMetricRequest.ofBody body = .ok request) : request.evidenceRefs ≠ [] := by
  unfold ofBody at h
  split at h
  · rename_i refs _ _ _ _ _ hrefs _
    obtain rfl := Except.ok.inj h
    obtain ⟨value, -, hvalue⟩ := Option.bind_eq_some_iff.mp hrefs
    obtain ⟨texts, -, htexts⟩ := Option.bind_eq_some_iff.mp hvalue
    split at htexts
    · cases htexts
    · rename_i hne
      rw [← Option.some.inj htexts]
      simpa using hne
  · cases h

/-! ## The same requests over both transports -/

/-- The gRPC request of the same fields.  Its client writes the value as JSON; what its struct makes of the context
(every number a float) is `struct`. -/
def Grpc.requestOf (env : Env) (struct : Json → Json) (body : Api.UpdateMetricRequest) :
    Except PyError Grpc.UpdateMetricRequest :=
  (jsonBytes? env body.value).map fun value ↦
    { decisionId := body.decisionId, metricName := body.metricName, value, idempotencyKey := body.idempotencyKey,
      evidenceRefs := body.evidenceRefs, proposedBy := body.proposedBy, runtimeContext := struct body.runtimeContext }

/-- The gRPC requests of the bodies that pass their model. -/
def Grpc.requestsOf (env : Env) (struct : Json → Json) (requests : List (Instant × PyDict)) :
    List (Instant × Grpc.UpdateMetricRequest) :=
  requests.filterMap fun request ↦
    match Api.UpdateMetricRequest.ofBody request.2 with
    | .error _ => none
    | .ok body => (Grpc.requestOf env struct body).toOption.map fun message ↦ (request.1, message)

/-- Requests that are served one after the other. -/
def Api.updateMetrics (env : Env) (state : AppState) : List (Instant × PyDict) → AppState × List Api.UpdateReply
  | [] => (state, [])
  | request :: rest =>
    let (state, reply) := Api.updateMetric env state request.1 request.2
    let (state, replies) := Api.updateMetrics env state rest
    (state, reply :: replies)

def Grpc.updateMetrics (env : Env) (float : String → PyFloat) (state : AppState) :
    List (Instant × Grpc.UpdateMetricRequest) → AppState × List (Reply Grpc.UpdateMetricResponse)
  | [] => (state, [])
  | request :: rest =>
    let (state, reply) := Grpc.updateMetric env float state request.1 request.2
    let (state, replies) := Grpc.updateMetrics env float state rest
    (state, reply :: replies)

/-- The same answer over both transports; only gRPC gives the leaf hash, and only of what it has accepted. -/
inductive SameUpdate : Api.UpdateReply → Reply Grpc.UpdateMetricResponse → Prop
  | accepted (leafHash : Bytes) : SameUpdate (.accepted "ACCEPTED") (.ok ⟨.accepted, hex leafHash⟩)
  | duplicate : SameUpdate (.accepted "DUPLICATE_IGNORED") (.ok ⟨.duplicateIgnored, ""⟩)

section Agreement

variable {env : Env} {float : String → PyFloat} {struct : Json → Json}

/-- No answer to a handled command is a refusal of the body. -/
theorem SameUpdate.isInvalid {reply : Api.UpdateReply} {answer : Reply Grpc.UpdateMetricResponse}
    (h : SameUpdate reply answer) : reply.isInvalid = false := by
  cases h <;> rfl

/-- The same answer is made of a command with evidence. -/
theorem sameUpdate_of_command (env : Env) (state : AppState) (now : Instant) {cmd : UpdateMetricCommand}
    (hrefs : cmd.evidenceRefs ≠ []) :
    SameUpdate (Api.updateReplyOf (handleUpdateMetric env state now cmd).2)
      (Grpc.updateResponseOf (handleUpdateMetric env state now cmd).2) := by
  rw [handleUpdateMetric, updateMetricEntry_commits env state now hrefs, Commit.segment]
  split
  · exact .duplicate
  · exact .accepted _

/-- A body and its gRPC request are one command, up to the context. -/
theorem Grpc.command?_requestOf (struct : Json → Json) {body : Api.UpdateMetricRequest}
    (hvalue : body.value.WellFormed env float) (hfits : body.value.intsFit = true) :
    ∃ request, Grpc.requestOf env struct body = .ok request ∧
      request.command? float = .ok { body.command with runtimeContext := struct body.runtimeContext } := by
  have hbytes : jsonBytes? env body.value = .ok (encodeUtf8 (jsonDumps env body.value)) := by
    rw [jsonBytes?, jsonDumps?, if_pos hfits]
    rfl
  obtain ⟨hread, hne⟩ := jsonOfBytes_jsonBytes hvalue hbytes
  refine ⟨_, by rw [Grpc.requestOf, hbytes]; rfl, ?_⟩
  have hsome : (encodeUtf8 (jsonDumps env body.value)).isEmpty = false := by simpa using hne
  simp only [UpdateMetricRequest.command?, hsome, Bool.false_eq_true, if_false, hread]
  rfl

/-- The context of a command changes nothing. -/
theorem handleUpdateMetric_context (state : AppState) (now : Instant) (cmd : UpdateMetricCommand) (context : Json) :
    handleUpdateMetric env state now { cmd with runtimeContext := context } =
      handleUpdateMetric env state now cmd := rfl

end Agreement

/-- A body of `POST /v1/metrics` with an idempotency key. -/
def sampleBody (key : String) (value : Json) : PyDict :=
  ⟨[("decision_id", .str "d"), ("metric_name", .str "roi"), ("value", value), ("idempotency_key", .str key),
    ("evidence_refs", .list [.str "ev-1"]), ("proposed_by", .str "agent")]⟩

/-- A body, the same once more, and one whose key is too short. -/
def sampleRequests : List (Instant × PyDict) :=
  [(0, sampleBody "0123456789abcdef" (.list [.int 7, .null])),
    (1, sampleBody "0123456789abcdef" (.list [.int 7, .null])), (2, sampleBody "short" (.int 8))]

end DecisionCore
