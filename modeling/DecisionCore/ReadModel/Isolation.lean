import DecisionCore.ReadModel.Readiness

/-!
# Decisions do not interfere

Decisions share the trail, its index of keys, the staging area and the open batch.  As long as no idempotency
key is used by calls about different decisions, a decision is staged, logged, batched and rebuilt as if the calls
about it were the only ones; only the identifiers that its events are given tell the difference.
-/

namespace DecisionCore

open CommandHandler MetricsRegistry ScoreboardProjector

variable {env : Env} {decisionId : String}

/-! ## Streams up to identifiers -/

/-- The records agree on everything but the identifier of the event. -/
def SameRecord (first second : PyDict) : Prop := ∀ key, key ≠ "event_id" → first.get? key = second.get? key

namespace SameRecord

variable {first second : PyDict}

theorem hasType (h : SameRecord first second) (eventType : String) :
    first.hasType eventType = second.hasType eventType := by
  rw [PyDict.hasType, PyDict.hasType, h "event_type" (by decide)]

theorem item (h : SameRecord first second) {key : String} (hkey : key ≠ "event_id") :
    MetricsRegistry.item first key = MetricsRegistry.item second key := by
  rw [MetricsRegistry.item, MetricsRegistry.item, h key hkey]

theorem committedRecord (h : SameRecord first second) :
    committedRecord env decisionId first = committedRecord env decisionId second := by
  simp only [MetricsRegistry.committedRecord, h.item (by decide : "metric_name" ≠ _),
    h.item (by decide : "value" ≠ _), h "proposed_by" (by decide), h.item (by decide : "idempotency_key" ≠ _),
    h.item (by decide : "evidence_refs" ≠ _), h.item (by decide : "committed_at" ≠ _),
    h.item (by decide : "leaf_hash" ≠ _)]

theorem rejectedRecord (h : SameRecord first second) :
    rejectedRecord env decisionId first = rejectedRecord env decisionId second := by
  simp only [MetricsRegistry.rejectedRecord, h.item (by decide : "metric_name" ≠ _),
    h.item (by decide : "idempotency_key" ≠ _), h.item (by decide : "occurred_at" ≠ _)]

theorem entryOf (h : SameRecord first second) :
    RiskMatrix.entryOf env decisionId first = RiskMatrix.entryOf env decisionId second := by
  simp only [RiskMatrix.entryOf, h.item (by decide : "metric_name" ≠ _), h "risk_level" (by decide),
    h "severity" (by decide), h "contradiction_flags" (by decide)]

end SameRecord

section Streams

variable {first second : List PyDict}

theorem replay_same (h : List.Forall₂ SameRecord first second) (metrics : Metrics) :
    replay env decisionId metrics first = replay env decisionId metrics second := by
  induction h generalizing metrics with
  | nil => rfl
  | cons hsame _ ih =>
    simp only [replay, hsame.hasType, hsame.committedRecord, hsame.rejectedRecord,
      hsame.item (by decide : "metric_name" ≠ _), hsame.item (by decide : "superseded_by_idempotency_key" ≠ _), ih]

theorem riskSignals_same (h : List.Forall₂ SameRecord first second) :
    RiskMatrix.reconstruct env decisionId first = RiskMatrix.reconstruct env decisionId second := by
  induction h with
  | nil => rfl
  | cons hsame _ ih => simp only [RiskMatrix.reconstruct, hsame.hasType, hsame.entryOf, ih]

theorem find?_same (h : List.Forall₂ SameRecord first second) :
    Option.Rel SameRecord (first.find? isRootEvent) (second.find? isRootEvent) := by
  induction h with
  | nil => exact .none
  | @cons evt other _ _ hsame _ ih =>
    have htype : isRootEvent evt = isRootEvent other := hsame.hasType _
    rw [List.find?_cons, List.find?_cons, htype]
    cases isRootEvent other with
    | true => exact .some hsame
    | false => exact ih

theorem lastRootEvent_same (h : List.Forall₂ SameRecord first second) :
    Option.Rel SameRecord (lastRootEvent first) (lastRootEvent second) :=
  find?_same (List.forall₂_reverse_iff.mpr h)

theorem merkleRootRef_same (h : Option.Rel SameRecord (lastRootEvent first) (lastRootEvent second)) :
    merkleRootRef first = merkleRootRef second := by
  unfold merkleRootRef
  generalize lastRootEvent first = found at h ⊢
  generalize lastRootEvent second = other at h ⊢
  cases h with
  | none => rfl
  | some hsame => simp only [hsame.item (by decide : "root" ≠ _)]

theorem merkleTimestamp_same (env : Env) (h : Option.Rel SameRecord (lastRootEvent first) (lastRootEvent second)) :
    merkleTimestamp env first = merkleTimestamp env second := by
  unfold merkleTimestamp
  generalize lastRootEvent first = found at h ⊢
  generalize lastRootEvent second = other at h ⊢
  cases h with
  | none => rfl
  | some hsame => simp only [hsame.item (by decide : "anchor_timestamp" ≠ _)]

/-- A rebuild reads no identifier. -/
theorem project_same (h : List.Forall₂ SameRecord first second) (requiredMetrics : List String) (now : Instant) :
    project env decisionId requiredMetrics now first = project env decisionId requiredMetrics now second := by
  have hlast := lastRootEvent_same h
  simp only [project, reconstruct, replay_same h, riskSignals_same h, merkleRootRef_same hlast,
    merkleTimestamp_same env hlast, h.length_eq]

end Streams

/-! ## States that one decision cannot tell apart -/

/-- The entries agree on everything but the identifier. -/
def SameEntry (first second : Entry) : Prop := { first with eventId := second.eventId } = second

theorem SameEntry.record {first second : Entry} (h : SameEntry first second) :
    SameRecord first.record second.record := by
  intro key hkey
  rw [← h]
  exact Entry.record_get?_of_ne first.eventId second.eventId first.decisionId first.eventType first.payload
    first.idempotencyKey hkey

/-- The leaf hashes of the decision that wait in the open batch. -/
def pendingOf (state : AppState) (decisionId : String) : List Bytes :=
  (state.merkleBuilder.pending.filter fun leaf ↦ decide (leaf.decisionId = decisionId)).map (·.leafHash)

/-- The decision has the same stages, events and pending leaves, and the same ones of its keys are known. -/
structure Alike (keys : String → Prop) (decisionId : String) (first second : AppState) : Prop where
  entries : List.Forall₂ SameEntry (first.auditTrail.entriesOf decisionId) (second.auditTrail.entriesOf decisionId)
  staging : ∀ metric, first.staging.get? (.str decisionId, metric) = second.staging.get? (.str decisionId, metric)
  known : ∀ key, keys key → ((first.auditTrail.existing? (some key)).isSome = true ↔
    (second.auditTrail.existing? (some key)).isSome = true)
  pending : pendingOf first decisionId = pendingOf second decisionId

theorem Alike.refl (keys : String → Prop) (state : AppState) : Alike keys decisionId state state where
  entries := List.forall₂_same.mpr fun _ _ ↦ rfl
  staging _ := rfl
  known _ _ := Iff.rfl
  pending := rfl

theorem Alike.log {keys : String → Prop} {first second : AppState} (h : Alike keys decisionId first second) :
    List.Forall₂ SameRecord (first.log decisionId) (second.log decisionId) := by
  simp only [AppState.log, MemoryAuditTrail.readRange, sliceFrom_zero]
  exact List.forall₂_map_left_iff.mpr (List.forall₂_map_right_iff.mpr (h.entries.imp fun _ _ hsame ↦ hsame.record))

/-- The events of the decision behind an append. -/
theorem append_entriesOf (env : Env) (state : AppState) (target : Json) (eventType : String) (payload : PyDict)
    (key : Option String) :
    (state.append env target eventType payload key).1.auditTrail.entriesOf decisionId =
      state.auditTrail.entriesOf decisionId ++
        if (state.auditTrail.existing? key).isSome = false ∧ target.isStr decisionId = true
        then [⟨env.uuid4 state.drawn, target, eventType, payload, key⟩] else [] := by
  obtain ⟨hevents, hknown⟩ | ⟨hevents, hnone⟩ := MemoryAuditTrail.append_events_cases state.auditTrail
    (env.uuid4 state.drawn) target eventType payload key
  · have hsame : (state.append env target eventType payload key).1.auditTrail.events = state.auditTrail.events :=
      hevents
    simp [MemoryAuditTrail.entriesOf, hsame, hknown]
  · have hmore : (state.append env target eventType payload key).1.auditTrail.events =
        state.auditTrail.events ++ [⟨env.uuid4 state.drawn, target, eventType, payload, key⟩] := hevents
    rw [MemoryAuditTrail.entriesOf, hmore, List.filter_append, hnone]
    cases htarget : target.isStr decisionId <;> simp [MemoryAuditTrail.entriesOf, htarget]

/-- The keys that are known behind an append. -/
theorem append_known_iff (env : Env) (state : AppState) (target : Json) (eventType : String) (payload : PyDict)
    (key : Option String) (other : String) :
    ((state.append env target eventType payload key).1.auditTrail.existing? (some other)).isSome = true ↔
      (state.auditTrail.existing? (some other)).isSome = true ∨ key = some other ∧ target.hashable = true := by
  simp only [AppState.append, MemoryAuditTrail.append]
  cases hexisting : state.auditTrail.existing? key with
  | some existing =>
    refine ⟨.inl, ?_⟩
    rintro (hknown | ⟨rfl, -⟩)
    · exact hknown
    · simp [hexisting]
  | none =>
    cases hash : target.hashable with
    | false => simp [MemoryAuditTrail.existing?]
    | true =>
      cases key with
      | none => simp [MemoryAuditTrail.existing?, MemoryAuditTrail.indexWith]
      | some key =>
        simp only [MemoryAuditTrail.existing?, MemoryAuditTrail.indexWith, Option.bind_some, Dict.get?_set, if_true]
        obtain rfl | hne := eq_or_ne key other
        · simp
        · simp [hne]

/-! ## Appends and leaves -/

section Segments

variable {keys : String → Prop} {first second : AppState}

/-- An append for the decision, or one under a key of its own, is made on both sides. -/
theorem Alike.append (h : Alike keys decisionId first second) (target : Json) (eventType : String)
    (payload : PyDict) {key : Option String} (hkey : ∀ text, key = some text → keys text) :
    Alike keys decisionId (first.append env target eventType payload key).1
      (second.append env target eventType payload key).1 where
  entries := by
    have hknown : (first.auditTrail.existing? key).isSome = (second.auditTrail.existing? key).isSome := by
      cases key with
      | none => rfl
      | some text => exact Bool.eq_iff_iff.mpr (h.known text (hkey text rfl))
    rw [append_entriesOf, append_entriesOf, hknown]
    apply List.rel_append h.entries
    split
    · exact .cons rfl .nil
    · exact .nil
  staging := h.staging
  known other hother := by rw [append_known_iff, append_known_iff, h.known other hother]
  pending := h.pending

/-- An append for another decision under a key that is not one of its own is not seen. -/
theorem Alike.append_left (h : Alike keys decisionId first second) {target : Json}
    (htarget : target.isStr decisionId = false) (eventType : String) (payload : PyDict) {key : Option String}
    (hkey : ∀ text, key = some text → ¬ keys text) :
    Alike keys decisionId (first.append env target eventType payload key).1 second where
  entries := by
    rw [append_entriesOf, htarget]
    simpa using h.entries
  staging := h.staging
  known other hother := by
    rw [append_known_iff, ← h.known other hother]
    refine or_iff_left ?_
    rintro ⟨rfl, -⟩
    exact hkey other rfl hother
  pending := h.pending

/-- Both sides write the same stage under the key, or neither stage is one of the decision. -/
theorem Alike.stage (h : Alike keys decisionId first second) {key : PyKey × PyKey}
    (stage : Option PyDict → PyDict) : Alike keys decisionId
      { first with staging := first.staging.set key (stage (first.staging.get? key)) }
      { second with staging := second.staging.set key (stage (second.staging.get? key)) } where
  entries := h.entries
  staging metric := by
    rw [Dict.get?_set, Dict.get?_set]
    split
    · rename_i hkey
      rw [hkey, h.staging]
    · exact h.staging metric
  known := h.known
  pending := h.pending

theorem Alike.stage_left (h : Alike keys decisionId first second) {key : PyKey × PyKey}
    (hkey : key.1 ≠ .str decisionId) (stage : PyDict) :
    Alike keys decisionId { first with staging := first.staging.set key stage } second where
  entries := h.entries
  staging metric := by
    rw [Dict.get?_set, if_neg (fun heq ↦ hkey (congrArg Prod.fst heq))]
    exact h.staging metric
  known := h.known
  pending := h.pending

theorem commitFinish_pendingOf (state : AppState) (step : AddLeafStep) :
    pendingOf (commitFinish state step).1 decisionId =
      pendingOf state decisionId ++ if step.leaf.decisionId = decisionId then [step.leaf.leafHash] else [] := by
  simp only [pendingOf, commitFinish, MerkleBatchBuilder.addLeaf, List.filter_append, List.map_append]
  split <;> rename_i hdecision <;> simp [hdecision]

/-- The leaves are added for the same commit; its event may have two identifiers. -/
structure SameLeaf (first second : AddLeafStep) : Prop where
  leafHash : first.leaf.leafHash = second.leaf.leafHash
  decisionId : first.leaf.decisionId = second.leaf.decisionId
  metricName : first.metricName = second.metricName

theorem Alike.commitFinish (h : Alike keys decisionId first second) {step other : AddLeafStep}
    (hsame : SameLeaf step other) :
    Alike keys decisionId (CommandHandler.commitFinish first step).1 (CommandHandler.commitFinish second other).1 where
  entries := h.entries
  staging metric := by
    simp only [CommandHandler.commitFinish, Dict.get?_set, hsame.leafHash, hsame.decisionId, hsame.metricName]
    split
    · rename_i hkey
      rw [hkey, h.staging]
    · exact h.staging metric
  known := h.known
  pending := by
    rw [commitFinish_pendingOf, commitFinish_pendingOf, h.pending, hsame.leafHash, hsame.decisionId]

theorem Alike.commitFinish_left (h : Alike keys decisionId first second) {step : AddLeafStep}
    (hstep : step.leaf.decisionId ≠ decisionId) :
    Alike keys decisionId (CommandHandler.commitFinish first step).1 second where
  entries := h.entries
  staging metric := by
    have hkey : (PyKey.str step.leaf.decisionId, PyKey.str step.metricName) ≠ (.str decisionId, metric) := by
      intro heq
      exact hstep (PyKey.str.inj (congrArg Prod.fst heq))
    simp only [CommandHandler.commitFinish, Dict.get?_set, if_neg hkey]
    exact h.staging metric
  known := h.known
  pending := by rw [commitFinish_pendingOf, if_neg hstep, List.append_nil, h.pending]

/-- The same progress on both sides. -/
inductive SameProgress : Except PyError Progress → Except PyError Progress → Prop
  | same (progress : Except PyError Progress) : SameProgress progress progress
  | leaf {step other : AddLeafStep} : SameLeaf step other → SameProgress (.ok (.addLeaf step)) (.ok (.addLeaf other))

theorem Alike.finish (h : Alike keys decisionId first second) {progress other : Except PyError Progress}
    (hsame : SameProgress progress other) :
    Alike keys decisionId (CommandHandler.finish (first, progress)).1 (CommandHandler.finish (second, other)).1 := by
  cases hsame with
  | same =>
    cases progress with
    | error error => exact h
    | ok progress =>
      cases progress with
      | done result => exact h
      | addLeaf step => exact h.commitFinish ⟨rfl, rfl, rfl⟩
  | leaf hleaf => exact h.commitFinish hleaf

/-! ## Handlers -/

theorem Alike.segment (h : Alike keys decisionId first second) {commit : Commit} (hkey : keys commit.idempotencyKey) :
    Alike keys decisionId (CommandHandler.finish (commit.segment env first)).1
      (CommandHandler.finish (commit.segment env second)).1 := by
  have happend : Alike keys decisionId (commit.segment env first).1 (commit.segment env second).1 := by
    apply h.append
    intro text htext
    rwa [← Option.some.inj htext]
  apply happend.finish
  have hknown := Bool.eq_iff_iff.mpr (h.known _ hkey)
  simp only [hknown]
  split
  · exact .same _
  · exact .leaf ⟨rfl, rfl, rfl⟩

theorem Alike.segment_left (h : Alike keys decisionId first second) {commit : Commit}
    (hdecision : commit.decisionId ≠ decisionId) (hkey : ¬ keys commit.idempotencyKey) :
    Alike keys decisionId (CommandHandler.finish (commit.segment env first)).1 second := by
  have happend : Alike keys decisionId (commit.segment env first).1 second := by
    apply h.append_left
    · exact decide_eq_false hdecision
    · intro text htext
      rwa [← Option.some.inj htext]
  unfold Commit.segment at happend ⊢
  split
  · exact happend
  · exact happend.commitFinish_left hdecision

/-- Whether `_commit` goes on to its append, and with what, does not depend on the state. -/
theorem commitAppend_plan (env : Env) (now : Instant)
    (target metricName value evidenceRefs idempotencyKey proposedBy : Json) :
    (∃ commit : Commit, target = .str commit.decisionId ∧ idempotencyKey = .str commit.idempotencyKey ∧
      ∀ state, commitAppend env state now target metricName value evidenceRefs idempotencyKey proposedBy =
        commit.segment env state) ∨
      ∀ state, commitAppend env state now target metricName value evidenceRefs idempotencyKey proposedBy =
        (state, .error .typeError) := by
  cases htarget : target.asStr? with
  | none => exact .inr fun state ↦ by simp [commitAppend, htarget]
  | some decision =>
    cases hmetric : metricName.asStr? with
    | none => exact .inr fun state ↦ by simp [commitAppend, hmetric]
    | some metric =>
      cases hrefs : evidenceRefs.iterStrs? with
      | none => exact .inr fun state ↦ by simp [commitAppend, hrefs]
      | some refs =>
        cases hkey : idempotencyKey.asStr? with
        | none => exact .inr fun state ↦ by simp [commitAppend, hkey]
        | some key =>
          rw [Json.asStr?_eq_some] at htarget hmetric hkey
          subst htarget hmetric hkey
          let commit : Commit := ⟨decision, metric, value, refs, key, proposedBy, now⟩
          refine .inl ⟨commit, rfl, rfl, ?_⟩
          exact fun state ↦ commitAppend_eq env state commit hrefs

/-- What the gate of a reconciled decision goes on with does not depend on the state. -/
theorem reconciledGate_plan (env : Env) (now : Instant) (payload : PyDict) :
    (∃ commit : Commit, payload.get? "decision_id" = some (.str commit.decisionId) ∧
      payload.text? "idempotency_key" = some commit.idempotencyKey ∧
      ∀ state, (CommandHandler.finish (reconciledGate env state now payload)).1 =
        (CommandHandler.finish (commit.segment env state)).1) ∨
    (∃ target metricName key, payload.get? "decision_id" = some target ∧
      ∀ state, (CommandHandler.finish (reconciledGate env state now payload)).1 =
        (AppState.append env state target "MetricRejected" (rejectedPayload env target metricName key now) none).1) ∨
    ∀ state, (CommandHandler.finish (reconciledGate env state now payload)).1 = state := by
  cases hdecision : field payload "decision_id" with
  | error error =>
    refine .inr (.inr ?_)
    intro state
    simp only [reconciledGate, hdecision]
    split <;> rfl
  | ok target =>
    cases hmetric : field payload "metric_name" with
    | error error =>
      refine .inr (.inr ?_)
      intro state
      simp only [reconciledGate, hdecision, hmetric]
      split <;> rfl
    | ok metricName =>
      cases htruthy : ((payload.get? "evidence_refs").getD (.list [])).truthy with
      | false =>
        cases hkey : field payload "idempotency_key" with
        | error error =>
          refine .inr (.inr ?_)
          intro state
          simp only [reconciledGate, htruthy, hdecision, hmetric, hkey, Bool.false_eq_true, if_false]
          rfl
        | ok key =>
          refine .inr (.inl ⟨target, metricName, key, field_ok hdecision, ?_⟩)
          intro state
          simp only [reconciledGate, htruthy, hdecision, hmetric, hkey, Bool.false_eq_true, if_false]
          cases AppState.append env state target "MetricRejected" (rejectedPayload env target metricName key now)
            none with
          | mk next result => cases result <;> rfl
      | true =>
        cases hvalue : field payload "final_value" with
        | error error =>
          refine .inr (.inr ?_)
          intro state
          simp only [reconciledGate, htruthy, hdecision, hmetric, hvalue, if_true]
          rfl
        | ok value =>
          cases hkey : field payload "idempotency_key" with
          | error error =>
            refine .inr (.inr ?_)
            intro state
            simp only [reconciledGate, htruthy, hdecision, hmetric, hvalue, hkey, if_true]
            rfl
          | ok key =>
            obtain ⟨commit, rfl, rfl, hcommit⟩ | hraises := commitAppend_plan env now target metricName value
              ((payload.get? "evidence_refs").getD (.list [])) key
              ((payload.get? "proposed_by").getD (.str "reconciliation"))
            · refine .inl ⟨commit, field_ok hdecision, ?_, ?_⟩
              · rw [PyDict.text?, field_ok hkey]
                rfl
              · intro state
                simp only [reconciledGate, htruthy, hdecision, hmetric, hvalue, hkey, if_true, hcommit]
            · refine .inr (.inr ?_)
              intro state
              simp only [reconciledGate, htruthy, hdecision, hmetric, hvalue, hkey, if_true, hraises]
              rfl

/-- What a command goes on with does not depend on the state. -/
theorem handleUpdateMetric_plan (env : Env) (now : Instant) (cmd : UpdateMetricCommand) :
    (∀ state, handleUpdateMetric env state now cmd = CommandHandler.finish ((cmd.commit now).segment env state)) ∨
    ∀ state, (handleUpdateMetric env state now cmd).1 =
      (AppState.append env state (.str cmd.decisionId) "MetricRejected" (rejectedPayload env (.str cmd.decisionId)
        (.str cmd.metricName) (.str cmd.idempotencyKey) now) none).1 := by
  by_cases hempty : cmd.evidenceRefs = []
  · right
    intro state
    rw [handleUpdateMetric, updateMetricEntry, hempty, List.isEmpty_nil, if_pos rfl, append_unkeyed_ok rfl]
    rfl
  · exact .inl fun state ↦ congrArg CommandHandler.finish (updateMetricEntry_commits env state now hempty)

/-- Whether a reconciled decision is staged does not depend on the state. -/
theorem onReconciledDecision_plan (env : Env) (now : Instant) (payload : PyDict) :
    (∃ error, ∀ state, onReconciledDecision env state now payload = (state, .error error)) ∨
    ∃ stage, ∀ state, (onReconciledDecision env state now payload).1 =
      (CommandHandler.finish (reconciledGate env (stageAndAppend env state "ReconciledDecision" payload stage).1 now
        payload)).1 := by
  cases hkey : stagingKey payload with
  | error error =>
    refine .inl ⟨error, ?_⟩
    intro state
    simp only [onReconciledDecision, reconciledEntry, stageAndAppend, hkey]
  | ok found =>
    obtain ⟨target, key⟩ := found
    refine .inr ⟨fun stage ↦
      ((stage.getD .empty).update payload).set "status" (.str MetricStatus.reconciled.value), ?_⟩
    intro state
    obtain ⟨middle, hmiddle, -⟩ := stageAndAppend_ok env state hkey "ReconciledDecision" fun stage ↦
      ((stage.getD .empty).update payload).set "status" (.str MetricStatus.reconciled.value)
    rw [onReconciledDecision_of_entry hmiddle, hmiddle]
    rfl

/-! ## Calls -/

/-- The decision id a call appends under. -/
def Call.target? : Call → Option Json
  | .updateMetric cmd => some (.str cmd.decisionId)
  | .inbound .runtimeArtifactDeployed payload => some ((payload.get? "decision_id").getD (.str "runtime"))
  | .inbound .runtimeConfigUpdated payload => some ((payload.get? "decision_id").getD (.str "runtime"))
  | .inbound _ payload => payload.get? "decision_id"
  | .supersede args => some (.str args.decisionId)
  | _ => none

/-- The call is about the decision. -/
def Call.isAbout (decisionId : String) (call : Call) : Bool := call.target?.any (Json.isStr decisionId)

/-- An append without a key meets every condition on keys. -/
theorem forall_key_none {p : String → Prop} : ∀ text, none = some text → p text := by
  intro text h
  cases h

theorem stagingKey_target {payload : PyDict} {target : Json} {key : PyKey × PyKey}
    (h : stagingKey payload = .ok (target, key)) :
    payload.get? "decision_id" = some target ∧ target.key? = some key.1 := by
  simp only [stagingKey, bind_eq_ok] at h
  obtain ⟨found, hdecision, metricName, -, hkeys⟩ := h
  split at hkeys
  · rename_i decisionKey metricKey hdecisionKey hmetricKey
    obtain ⟨rfl, rfl⟩ := Prod.mk.inj (Except.ok.inj hkeys)
    exact ⟨field_ok hdecision, hdecisionKey⟩
  · cases hkeys

theorem Json.isStr_of_key? {value : Json} {text : String} (h : value.key? = some (.str text)) :
    value.isStr text = true := by
  cases value with
  | str found => exact decide_eq_true (PyKey.str.inj (Option.some.inj h))
  | float number => cases number <;> cases h
  | _ => cases h

section Handlers

variable (h : Alike keys decisionId first second)

include h

theorem Alike.stageAndAppend (eventType : String) (payload : PyDict) (stage : Option PyDict → PyDict) :
    Alike keys decisionId (stageAndAppend env first eventType payload stage).1
      (CommandHandler.stageAndAppend env second eventType payload stage).1 := by
  unfold CommandHandler.stageAndAppend
  cases stagingKey payload with
  | error error => exact h
  | ok found =>
    obtain ⟨target, key⟩ := found
    exact (h.stage stage).append target eventType payload forall_key_none

theorem Alike.stageAndAppend_left (eventType : String) {payload : PyDict} (stage : Option PyDict → PyDict)
    (htarget : (payload.get? "decision_id").any (Json.isStr decisionId) = false) :
    Alike keys decisionId (CommandHandler.stageAndAppend env first eventType payload stage).1 second := by
  unfold CommandHandler.stageAndAppend
  cases hkey : stagingKey payload with
  | error error => exact h
  | ok found =>
    obtain ⟨target, key⟩ := found
    obtain ⟨hdecision, hfirst⟩ := stagingKey_target hkey
    rw [hdecision, Option.any_some] at htarget
    have hother : key.1 ≠ .str decisionId := by
      intro heq
      rw [heq] at hfirst
      exact Bool.false_ne_true (htarget.symm.trans (Json.isStr_of_key? hfirst))
    exact (h.stage_left hother _).append_left htarget eventType payload forall_key_none

theorem Alike.appendInbound (eventType : String) (payload : PyDict) :
    Alike keys decisionId (appendInbound env first eventType payload).1
      (CommandHandler.appendInbound env second eventType payload).1 := by
  unfold CommandHandler.appendInbound
  cases field payload "decision_id" with
  | error error => exact h
  | ok target => exact h.append target eventType payload forall_key_none

theorem Alike.appendInbound_left (eventType : String) {payload : PyDict}
    (htarget : (payload.get? "decision_id").any (Json.isStr decisionId) = false) :
    Alike keys decisionId (CommandHandler.appendInbound env first eventType payload).1 second := by
  unfold CommandHandler.appendInbound
  cases hdecision : field payload "decision_id" with
  | error error => exact h
  | ok target =>
    rw [field_ok hdecision, Option.any_some] at htarget
    exact h.append_left htarget eventType payload forall_key_none

theorem Alike.appendRuntime (eventType : String) (payload : PyDict) :
    Alike keys decisionId (appendRuntime env first eventType payload).1
      (CommandHandler.appendRuntime env second eventType payload).1 :=
  h.append _ eventType payload forall_key_none

theorem Alike.appendRuntime_left (eventType : String) {payload : PyDict}
    (htarget : ((payload.get? "decision_id").getD (.str "runtime")).isStr decisionId = false) :
    Alike keys decisionId (CommandHandler.appendRuntime env first eventType payload).1 second :=
  h.append_left htarget eventType payload forall_key_none

theorem Alike.reconciledGate (now : Instant) (payload : PyDict)
    (hkey : ∀ text, payload.text? "idempotency_key" = some text → keys text) :
    Alike keys decisionId (CommandHandler.finish (reconciledGate env first now payload)).1
      (CommandHandler.finish (CommandHandler.reconciledGate env second now payload)).1 := by
  obtain ⟨commit, -, hown, hcommit⟩ | ⟨target, metricName, key, -, hrejects⟩ | hraises :=
    reconciledGate_plan env now payload
  · rw [hcommit, hcommit]
    exact h.segment (hkey _ hown)
  · rw [hrejects, hrejects]
    exact h.append target "MetricRejected" _ forall_key_none
  · rw [hraises, hraises]
    exact h

theorem Alike.reconciledGate_left (now : Instant) {payload : PyDict}
    (htarget : (payload.get? "decision_id").any (Json.isStr decisionId) = false)
    (hkey : ∀ text, payload.text? "idempotency_key" = some text → ¬ keys text) :
    Alike keys decisionId (CommandHandler.finish (CommandHandler.reconciledGate env first now payload)).1 second := by
  obtain ⟨commit, hdecision, hown, hcommit⟩ | ⟨target, metricName, key, hdecision, hrejects⟩ | hraises :=
    reconciledGate_plan env now payload
  · rw [hcommit]
    rw [hdecision, Option.any_some] at htarget
    exact h.segment_left (of_decide_eq_false htarget) (hkey _ hown)
  · rw [hrejects]
    rw [hdecision, Option.any_some] at htarget
    exact h.append_left htarget "MetricRejected" _ forall_key_none
  · rw [hraises]
    exact h

theorem Alike.updateMetric (now : Instant) (cmd : UpdateMetricCommand) (hkey : keys cmd.idempotencyKey) :
    Alike keys decisionId (handleUpdateMetric env first now cmd).1 (handleUpdateMetric env second now cmd).1 := by
  obtain hcommit | hrejects := handleUpdateMetric_plan env now cmd
  · rw [hcommit, hcommit]
    exact h.segment hkey
  · rw [hrejects, hrejects]
    exact h.append _ "MetricRejected" _ forall_key_none

theorem Alike.updateMetric_left (now : Instant) {cmd : UpdateMetricCommand} (htarget : cmd.decisionId ≠ decisionId)
    (hkey : ¬ keys cmd.idempotencyKey) :
    Alike keys decisionId (handleUpdateMetric env first now cmd).1 second := by
  obtain hcommit | hrejects := handleUpdateMetric_plan env now cmd
  · rw [hcommit]
    exact h.segment_left htarget hkey
  · rw [hrejects]
    have hother : (Json.str cmd.decisionId).isStr decisionId = false := decide_eq_false htarget
    exact h.append_left hother "MetricRejected" _ forall_key_none

theorem Alike.reconciledDecision (now : Instant) (payload : PyDict)
    (hkey : ∀ text, payload.text? "idempotency_key" = some text → keys text) :
    Alike keys decisionId (onReconciledDecision env first now payload).1
      (onReconciledDecision env second now payload).1 := by
  obtain ⟨error, hraises⟩ | ⟨stage, hstage⟩ := onReconciledDecision_plan env now payload
  · rw [hraises, hraises]
    exact h
  · rw [hstage, hstage]
    exact (h.stageAndAppend "ReconciledDecision" payload stage).reconciledGate now payload hkey

theorem Alike.reconciledDecision_left (now : Instant) {payload : PyDict}
    (htarget : (payload.get? "decision_id").any (Json.isStr decisionId) = false)
    (hkey : ∀ text, payload.text? "idempotency_key" = some text → ¬ keys text) :
    Alike keys decisionId (onReconciledDecision env first now payload).1 second := by
  obtain ⟨error, hraises⟩ | ⟨stage, hstage⟩ := onReconciledDecision_plan env now payload
  · rw [hraises]
    exact h
  · rw [hstage]
    exact (h.stageAndAppend_left "ReconciledDecision" stage htarget).reconciledGate_left now htarget hkey

theorem Alike.inbound (now : Instant) (kind : Inbound) (payload : PyDict)
    (hkey : ∀ text, (Call.inbound kind payload).key? = some text → keys text) :
    Alike keys decisionId (onInbound env first now kind payload).1 (onInbound env second now kind payload).1 := by
  cases kind with
  | metricProposed => exact h.stageAndAppend _ payload _
  | debateOutcome => exact h.stageAndAppend _ payload _
  | riskSignal => exact h.stageAndAppend _ payload _
  | reconciledDecision => exact h.reconciledDecision now payload hkey
  | evidenceAttached => exact h.appendInbound _ payload
  | goalCreated => exact h.appendInbound _ payload
  | goalCancelled => exact h.appendInbound _ payload
  | runtimeArtifactDeployed => exact h.appendRuntime _ payload
  | runtimeConfigUpdated => exact h.appendRuntime _ payload

theorem Alike.inbound_left (now : Instant) {kind : Inbound} {payload : PyDict}
    (hother : (Call.inbound kind payload).isAbout decisionId = false)
    (hkey : ∀ text, (Call.inbound kind payload).key? = some text → ¬ keys text) :
    Alike keys decisionId (onInbound env first now kind payload).1 second := by
  cases kind with
  | metricProposed => exact h.stageAndAppend_left _ _ hother
  | debateOutcome => exact h.stageAndAppend_left _ _ hother
  | riskSignal => exact h.stageAndAppend_left _ _ hother
  | reconciledDecision => exact h.reconciledDecision_left now hother hkey
  | evidenceAttached => exact h.appendInbound_left _ hother
  | goalCreated => exact h.appendInbound_left _ hother
  | goalCancelled => exact h.appendInbound_left _ hother
  | runtimeArtifactDeployed => exact h.appendRuntime_left _ hother
  | runtimeConfigUpdated => exact h.appendRuntime_left _ hother

/-- A call about the decision is made on both sides. -/
theorem Alike.step {label : Instant × Call} (hkey : ∀ text, label.2.key? = some text → keys text) {next : AppState}
    (hstep : CommandHandler.step env first label = some next) :
    ∃ after, CommandHandler.step env second label = some after ∧ Alike keys decisionId next after := by
  obtain ⟨now, call⟩ := label
  cases call with
  | updateMetric cmd =>
    obtain rfl := Option.some.inj hstep
    exact ⟨_, rfl, h.updateMetric now cmd (hkey _ rfl)⟩
  | inbound kind payload =>
    obtain rfl := Option.some.inj hstep
    exact ⟨_, rfl, h.inbound now kind payload hkey⟩
  | supersede args =>
    obtain rfl := Option.some.inj hstep
    refine ⟨_, rfl, h.append _ "MetricSuperseded" _ ?_⟩
    intro text htext
    exact hkey text htext
  | _ => cases hstep

/-- A call about another decision is not seen. -/
theorem Alike.step_left {label : Instant × Call} (hother : label.2.isAbout decisionId = false)
    (hkey : ∀ text, label.2.key? = some text → ¬ keys text) {next : AppState}
    (hstep : CommandHandler.step env first label = some next) : Alike keys decisionId next second := by
  obtain ⟨now, call⟩ := label
  cases call with
  | updateMetric cmd =>
    obtain rfl := Option.some.inj hstep
    exact h.updateMetric_left now (of_decide_eq_false hother) (hkey _ rfl)
  | inbound kind payload =>
    obtain rfl := Option.some.inj hstep
    exact h.inbound_left now hother hkey
  | supersede args =>
    obtain rfl := Option.some.inj hstep
    have htarget : (Json.str args.decisionId).isStr decisionId = false := hother
    apply h.append_left htarget "MetricSuperseded"
    intro text htext
    exact hkey text htext
  | _ => cases hstep

end Handlers

end Segments

/-! ## A decision on its own -/

/-- The keys of the calls about the decision. -/
def ownKeys (decisionId : String) (labels : List (Instant × Call)) (key : String) : Prop :=
  ∃ label ∈ labels, label.2.isAbout decisionId = true ∧ label.2.key? = some key

/-- No key of a call about the decision is used by a call about another one. -/
def KeysApart (decisionId : String) (labels : List (Instant × Call)) : Prop :=
  ∀ label ∈ labels, ∀ own ∈ labels, label.2.isAbout decisionId = false → own.2.isAbout decisionId = true →
    ∀ key ∈ label.2.key?, own.2.key? ≠ some key

instance (decisionId : String) (labels : List (Instant × Call)) : Decidable (KeysApart decisionId labels) :=
  inferInstanceAs (Decidable (∀ label ∈ labels, ∀ own ∈ labels, _ → _ → ∀ key ∈ label.2.key?, _))

theorem KeysApart.not_own {labels : List (Instant × Call)} (h : KeysApart decisionId labels) {label : Instant × Call}
    (hlabel : label ∈ labels) (hother : label.2.isAbout decisionId = false) {key : String}
    (hkey : label.2.key? = some key) : ¬ ownKeys decisionId labels key := by
  rintro ⟨own, hown, habout, hownKey⟩
  exact h label hlabel own hown hother habout key hkey hownKey

/-- Commands and events of all decisions in any order: a decision has the stages, the events, the pending leaves
and the board that the calls about it have when they are the only ones. -/
theorem decision_as_if_alone {labels : List (Instant × Call)} (hkeys : KeysApart decisionId labels)
    {start last : AppState} (h : follow (CommandHandler.step env) start labels = some last) :
    ∃ alone, follow (CommandHandler.step env) start (labels.filter fun label ↦ label.2.isAbout decisionId) =
        some alone ∧
      List.Forall₂ SameEntry (last.auditTrail.entriesOf decisionId) (alone.auditTrail.entriesOf decisionId) ∧
      (∀ metric, last.staging.get? (.str decisionId, metric) = alone.staging.get? (.str decisionId, metric)) ∧
      pendingOf last decisionId = pendingOf alone decisionId ∧
      ∀ requiredMetrics now, project env decisionId requiredMetrics now (last.log decisionId) =
        project env decisionId requiredMetrics now (alone.log decisionId) := by
  let allowed : Instant × Call → Prop := fun label ↦ label ∈ labels
  have hkeeps {state other : AppState} {label : Instant × Call} {next : AppState}
      (hsame : Alike (ownKeys decisionId labels) decisionId state other) (hlabel : allowed label)
      (habout : label.2.isAbout decisionId = true) (hstep : CommandHandler.step env state label = some next) :=
    hsame.step (fun text htext ↦ ⟨label, hlabel, habout, htext⟩) hstep
  have hskips {state other : AppState} {label : Instant × Call} {next : AppState}
      (hsame : Alike (ownKeys decisionId labels) decisionId state other) (hlabel : allowed label)
      (hother : label.2.isAbout decisionId = false) (hstep : CommandHandler.step env state label = some next) :=
    hsame.step_left hother (fun _ htext ↦ hkeys.not_own hlabel hother htext) hstep
  obtain ⟨alone, halone, hsame⟩ := follow_filter hkeeps hskips (fun _ hlabel ↦ hlabel) (.refl _ start) h
  exact ⟨alone, halone, hsame.entries, hsame.staging, hsame.pending, project_same hsame.log⟩

/-- A commit of one decision between two commits of another one, and a supersession. -/
def twoDecisions : List (Instant × Call) :=
  [(0, .updateMetric sampleCommand),
    (1, .updateMetric { sampleCommand with decisionId := "d2", idempotencyKey := "k2" }),
    (2, .updateMetric (sampleCommit "cost" (.int 3) "k3")), (3, .supersede ⟨"d2", "roi", "", "late", "k4"⟩)]

theorem twoDecisions_as_if_alone : ∃ last alone : AppState,
    follow (CommandHandler.step .local) (.initial 100 60) twoDecisions = some last ∧
      follow (CommandHandler.step .local) (.initial 100 60)
        (twoDecisions.filter fun label ↦ label.2.isAbout "d1") = some alone ∧
      (last.auditTrail.events.length = 4 ∧ alone.auditTrail.events.length = 2) ∧
      project .local "d1" ["roi", "cost"] 9 (last.log "d1") =
        project .local "d1" ["roi", "cost"] 9 (alone.log "d1") := by
  have hsome : ((follow (CommandHandler.step .local) (.initial 100 60) twoDecisions).bind fun last ↦
      (follow (CommandHandler.step .local) (.initial 100 60) (twoDecisions.filter fun label ↦
        label.2.isAbout "d1")).map fun alone ↦
          decide (last.auditTrail.events.length = 4 ∧ alone.auditTrail.events.length = 2)) = some true := by
    decide +kernel
  obtain ⟨last, hlast, hsome⟩ := Option.bind_eq_some_iff.mp hsome
  obtain ⟨alone, halone, hlengths⟩ := Option.map_eq_some_iff.mp hsome
  have hkeys : KeysApart "d1" twoDecisions := by decide +kernel
  obtain ⟨other, hother, -, -, -, hboards⟩ := decision_as_if_alone hkeys hlast
  obtain rfl := Option.some.inj (halone.symm.trans hother)
  exact ⟨last, alone, hlast, halone, of_decide_eq_true hlengths, hboards _ _⟩

/-- With one key in two decisions the second commit is taken for a redelivery of the first. -/
example : (follow (CommandHandler.step .local) (.initial 100 60)
    [(0, .updateMetric { sampleCommand with decisionId := "d2" }), (1, .updateMetric sampleCommand)]).map
      (fun last ↦ (last.log "d1").length) = some 0 := by decide +kernel

end DecisionCore
