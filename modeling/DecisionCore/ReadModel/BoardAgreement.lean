import DecisionCore.Domain.JsonRoundTrip
import DecisionCore.ReadModel.Scoring
import DecisionCore.System.Ownership
import DecisionCore.Transport.Scoreboard

/-!
# The two scoreboard endpoints compared

The REST route and the gRPC method rebuild the same board.  The route finds nothing where the method answers with a
board without metrics; else the message has the board of the response, with its values as JSON bytes, its moments
in milliseconds, and the empty text and zero for what the response leaves out.
-/

namespace DecisionCore

open CommandHandler MetricsRegistry ScoreboardProjector

variable {env : Env} {float : String → PyFloat}

/-! ## Values that are read back -/

/-- The value can be written as JSON, and is read back as it was. -/
structure Json.Portable (env : Env) (float : String → PyFloat) (value : Json) : Prop where
  wellFormed : value.WellFormed env float
  fits : value.intsFit = true

theorem Json.Portable.jsonOfBytes {value : Json} (h : value.Portable env float) :
    jsonOfBytes float (encodeUtf8 (jsonDumps env value)) = .ok value := by
  have hbytes : jsonBytes? env value = .ok (encodeUtf8 (jsonDumps env value)) := by
    rw [jsonBytes?, jsonDumps?, if_pos h.fits]
    rfl
  exact (jsonOfBytes_jsonBytes h.wellFormed hbytes).1

/-- The values that the call is given have come as JSON. -/
def Call.Portable (env : Env) (float : String → PyFloat) : Call → Prop
  | .updateMetric cmd => cmd.value.Portable env float
  | .inbound _ payload => ∀ key value, payload.get? key = some value → value.Portable env float
  | _ => True

/-- The value in the record of an event is one that its call was given. -/
theorem Call.Stores.portable {call : Call} {entry : Entry} (h : call.Stores env entry)
    (hcall : call.Portable env float) {value : Json} (hvalue : entry.record.get? "value" = some value) :
    value.Portable env float := by
  rw [entry.record_get?_own (by decide)] at hvalue
  obtain horigin | ⟨commit, hcommits, hentry⟩ := h
  · cases horigin with
    | inbound hinbound =>
      subst hinbound
      exact hcall "value" value hvalue
    | rejected _ => cases hvalue
    | superseded _ => cases hvalue
    | published _ _ => cases hvalue
  · rw [hentry] at hvalue
    obtain rfl : commit.value = value := Option.some.inj hvalue
    cases call with
    | updateMetric cmd =>
      obtain ⟨-, -, hsame, -⟩ := hcommits
      rw [hsame]
      exact hcall
    | inbound kind payload =>
      cases kind with
      | reconciledDecision => exact hcall "final_value" _ hcommits.2.2.1
      | _ => cases hcommits
    | _ => cases hcommits

/-! ## The records of a board -/

theorem nodup_keys_replay {decisionId : String} {log : List PyDict} {metrics after : Metrics}
    (h : replay env decisionId metrics log = .ok after) (hnodup : metrics.keys.Nodup) : after.keys.Nodup := by
  induction log generalizing metrics with
  | nil =>
    obtain rfl := Except.ok.inj h
    exact hnodup
  | cons evt rest ih =>
    obtain ⟨next, stop, hconsumes, hrest⟩ := replay_cons_ok h
    have hset (metrics : Metrics) (key : String) (record : MetricRecord) (h : metrics.keys.Nodup) :
        (metrics.set key record).keys.Nodup := Dict.nodup_keys_set h key record
    have hnext : next.keys.Nodup := hconsumes.keeps hset hnodup
    cases stop with
    | true =>
      obtain rfl : after = next := hrest
      exact hnext
    | false => exact ih hrest hnext

/-- The value of a record is the one of its event, or the `None` of a rejection. -/
theorem committedRecord_value {decisionId : String} {evt : PyDict} {record : MetricRecord}
    (h : committedRecord env decisionId evt = .ok record) : evt.get? "value" = some record.value := by
  simp only [committedRecord, bind_eq_ok] at h
  obtain ⟨metricName, _, value, hvalue, idempotencyKey, _, evidenceRefs, _, committedAt, _, createdAt, _, leafHash, _,
    hbuild⟩ := h
  unfold MetricRecord.build at hbuild
  split at hbuild
  · obtain rfl := Except.ok.inj hbuild
    exact item_ok hvalue
  · cases hbuild

theorem rejectedRecord_value {decisionId : String} {evt : PyDict} {record : MetricRecord}
    (h : rejectedRecord env decisionId evt = .ok record) : record.value = .null := by
  simp only [rejectedRecord, bind_eq_ok] at h
  obtain ⟨metricName, _, idempotencyKey, _, occurredAt, _, createdAt, _, hbuild⟩ := h
  unfold MetricRecord.build at hbuild
  split at hbuild
  · obtain rfl := Except.ok.inj hbuild
    rfl
  · cases hbuild

/-- A board of a stream whose values are read back has values that are read back. -/
theorem project_portable {decisionId : String} {requiredMetrics : List String} {now : Instant} {log : List PyDict}
    {board : ScoreboardState} (hlog : ∀ evt ∈ log, ∀ value, evt.get? "value" = some value → value.Portable env float)
    (h : project env decisionId requiredMetrics now log = .ok board) :
    ∀ binding ∈ board.metrics.entries, binding.2.value.Portable env float := by
  simp only [project, bind_eq_ok] at h
  obtain ⟨metrics, hmetrics, risks, _, root, _, moment, _, verdict, _, field, _, hboard⟩ := h
  obtain rfl := Except.ok.inj hboard
  have hnodup : metrics.keys.Nodup := nodup_keys_replay hmetrics List.nodup_nil
  have hrecords : ∀ name record, metrics.get? name = some record → record.value.Portable env float := by
    apply replay_records (fun record ↦ record.value.Portable env float) hmetrics
    · intro evt hevt _ record hrecord
      exact hlog evt hevt _ (committedRecord_value hrecord)
    · intro evt _ _ record hrecord
      rw [rejectedRecord_value hrecord]
      exact ⟨.null, rfl⟩
    · intro record by_ hrecord
      exact hrecord
    · intro name record hget
      cases hget
  intro binding hbinding
  obtain ⟨⟨name, record⟩, hmem, rfl⟩ := List.mem_map.mp hbinding
  exact hrecords name record (Dict.get?_of_mem hnodup hmem)

/-! ## Equal answers -/

/-- The same metric, once as a value and once as bytes. -/
structure SameMetric (float : String → PyFloat) (binding : String × Api.ScoreboardMetricOut)
    (entry : Grpc.MetricEntry) : Prop where
  name : entry.metricName = binding.1
  value : jsonOfBytes float entry.value = .ok binding.2.value
  evidence : entry.evidenceRefs = binding.2.evidenceRefs
  committedAt : entry.committedAtUnixMs = binding.2.committedAt.tdiv 1000

/-- The same board; the message also has the verdict of the policy and the status of each metric. -/
structure SameBoard (float : String → PyFloat) (response : Api.GetScoreboardResponse)
    (message : Grpc.ScoreboardMessage) : Prop where
  decisionId : message.decisionId = response.decisionId
  trustScore : message.trustScoreResult = match response.trustScore with
    | .inl score => .trustScore score
    | .inr _ => .insufficientReason
  metrics : List.Forall₂ (SameMetric float) response.metrics.entries message.metrics
  root : message.merkleRootRef = response.merkleRootRef.getD ""
  rebuiltAt : message.rebuiltAtUnixMs = response.rebuiltAt.tdiv 1000
  merkleTimestamp : message.merkleTimestampUnixMs = (response.merkleTimestamp.map fun moment ↦ moment.tdiv 1000).getD 0

/-- The same answer; the REST route finds nothing where the board of the method has no metrics. -/
inductive SameScoreboard (float : String → PyFloat) :
    Reply Api.GetScoreboardResponse → Reply Grpc.ScoreboardMessage → Prop
  | raised (error : PyError) : SameScoreboard float (.raised error) (.raised error)
  | unknown {message : Grpc.ScoreboardMessage} : message.metrics = [] →
    SameScoreboard float (.notFound "decision_id not found") (.ok message)
  | found {response : Api.GetScoreboardResponse} {message : Grpc.ScoreboardMessage} : message.metrics ≠ [] →
    SameBoard float response message → SameScoreboard float (.ok response) (.ok message)

theorem sameBoard_of_portable {board : ScoreboardState}
    (h : ∀ binding ∈ board.metrics.entries, binding.2.value.Portable env float) :
    SameBoard float (Api.scoreboardResponseOf board) (Grpc.scoreboardMessageOf env board) where
  decisionId := rfl
  trustScore := by
    simp only [Grpc.scoreboardMessageOf, Api.scoreboardResponseOf]
    cases board.trustScore <;> rfl
  metrics := by
    apply List.forall₂_map_left_iff.mpr
    apply List.forall₂_map_right_iff.mpr
    apply List.forall₂_same.mpr
    intro binding hbinding
    exact ⟨rfl, (h binding hbinding).jsonOfBytes, rfl, rfl⟩
  root := rfl
  rebuiltAt := rfl
  merkleTimestamp := by
    simp only [Grpc.scoreboardMessageOf, Api.scoreboardResponseOf]
    cases board.merkleTimestamp <;> rfl

/-- A rebuild reads and writes what the processes share. -/
theorem rebuild_shared (env : Env) {state other : AppState} (h : state.shared = other.shared) (now : Instant)
    (decisionId : String) (requiredMetrics : List String) :
    (rebuild env state now decisionId requiredMetrics).1.shared =
      (rebuild env other now decisionId requiredMetrics).1.shared := by
  obtain ⟨htrail, hstore, hdrawn⟩ : state.auditTrail = other.auditTrail ∧
      state.projectionStore = other.projectionStore ∧ state.drawn = other.drawn := by
    simpa [AppState.shared] using h
  simp only [rebuild, htrail]
  cases project env decisionId requiredMetrics now (other.auditTrail.readRange decisionId 0) with
  | error error => exact h
  | ok board =>
    simp only [AppState.shared, hstore, hdrawn]

/-- The answers of both endpoints in states that share the same, after a rebuild of a stream of portable values. -/
theorem getScoreboard_same {state other : AppState} (hshared : state.shared = other.shared) {decisionId : String}
    (hlog : ∀ evt ∈ state.auditTrail.readRange decisionId 0, ∀ value, evt.get? "value" = some value →
      value.Portable env float) (requiredMetricsByDecision : Dict String (List String)) (now : Instant) :
    (Api.getScoreboard env requiredMetricsByDecision state now decisionId).1.shared =
        (Grpc.getScoreboard env requiredMetricsByDecision other now decisionId).1.shared ∧
      SameScoreboard float (Api.getScoreboard env requiredMetricsByDecision state now decisionId).2
        (Grpc.getScoreboard env requiredMetricsByDecision other now decisionId).2 := by
  let required := (requiredMetricsByDecision.get? decisionId).getD []
  have hstates := rebuild_shared env hshared now decisionId required
  have hresult : (rebuild env state now decisionId required).2 =
      project env decisionId required now (state.auditTrail.readRange decisionId 0) :=
    rebuild_result state now decisionId required
  have hother : (rebuild env other now decisionId required).2 =
      project env decisionId required now (other.auditTrail.readRange decisionId 0) :=
    rebuild_result other now decisionId required
  have htrail : other.auditTrail = state.auditTrail := (congrArg Shared.auditTrail hshared).symm
  rw [htrail, ← hresult] at hother
  simp only [Api.getScoreboard, Grpc.getScoreboard]
  cases hrest : rebuild env state now decisionId required with
  | mk first result =>
    cases hgrpc : rebuild env other now decisionId required with
    | mk second outcome =>
      rw [hrest] at hstates hresult hother
      rw [hgrpc] at hstates hother
      obtain rfl : outcome = result := hother
      cases outcome with
      | error error => exact ⟨hstates, .raised error⟩
      | ok board =>
        have hportable := project_portable hlog hresult.symm
        by_cases hempty : board.metrics.entries = []
        · have hnone : (Grpc.scoreboardMessageOf env board).metrics = [] := by
            simp [Grpc.scoreboardMessageOf, hempty]
          simp only [hempty, List.isEmpty_nil, if_true]
          exact ⟨hstates, .unknown hnone⟩
        · have hsome : (Grpc.scoreboardMessageOf env board).metrics ≠ [] := by
            simpa [Grpc.scoreboardMessageOf] using hempty
          have hnot : board.metrics.entries.isEmpty = false := by simpa using hempty
          simp only [hnot, Bool.false_eq_true, if_false]
          exact ⟨hstates, .found hsome (sameBoard_of_portable hportable)⟩

section Runs

variable {trace : List (Deployment × Components.Action (ℤ × ℚ) Label)} {last : Deployment}

/-- The values in the stream of a decision have come with the calls of the processes. -/
theorem Deployment.portable (run : Run (Deployment.step env) .initial trace last)
    (hcalls : ∀ part ∈ last.parts, ∀ call ∈ part.own.calls, call.Portable env float) (decisionId : String) :
    ∀ evt ∈ last.shared.auditTrail.readRange decisionId 0, ∀ value, evt.get? "value" = some value →
      value.Portable env float := by
  intro evt hevt value hvalue
  simp only [MemoryAuditTrail.readRange, sliceFrom_zero] at hevt
  obtain ⟨entry, hentry, rfl⟩ := List.mem_map.mp hevt
  have hevents := (MemoryAuditTrail.mem_entriesOf.mp hentry).1
  obtain ⟨part, hpart, hstored⟩ := List.mem_flatMap.mp ((Deployment.stored_perm run).mem_iff.mp hevents)
  obtain ⟨call, hcall, hstores⟩ := (Deployment.processOk run hpart).stored entry hstored
  exact hstores.portable (hcalls part hpart call hcall) hvalue

/-- The call commits an integer, or it closes a batch. -/
def Call.carriesInteger : Call → Bool
  | updateMetric cmd =>
    match cmd.value with
    | .int n => (Json.int n).intsFit
    | _ => false
  | call => call.isCloser

theorem Call.portable_of_carriesInteger {call : Call} (h : call.carriesInteger = true) : call.Portable env float := by
  cases call with
  | updateMetric cmd =>
    simp only [carriesInteger] at h
    split at h
    · rename_i n hvalue
      refine ⟨?_, ?_⟩
      · rw [hvalue]
        exact .int n
      · rwa [hvalue]
    · cases h
  | inbound kind payload => cases h
  | _ => trivial

end Runs

end DecisionCore
