import DecisionCore.System.CommitPath

/-!
# Handlers over a trail that raises

A lifecycle handler writes the staging area before it appends, and the handler of a reconciled decision reads further
fields between its two appends.  When an append raises, or a field is missing behind the first one, what was written
before stays.  `_commit` is the other way round: it stages only behind its append.
-/

namespace DecisionCore

open CommandHandler

/-- The append calls of a handler that raise. -/
structure FailedAppends where
  first : Bool
  second : Bool

namespace CommandHandler.Failing

variable (env : Env)

/-- `await self._audit.append(…)` on a trail that may be out of reach; an append that raises stores nothing. -/
def append (raises : Bool) (state : AppState) (decisionId : Json) (eventType : String) (payload : PyDict)
    (key : Option String) : AppState × Except PyError AppendResult :=
  if raises then (state, .error .external) else state.append env decisionId eventType payload key

def stageAndAppend (raises : Bool) (state : AppState) (eventType : String) (payload : PyDict)
    (stage : Option PyDict → PyDict) : AppState × Except PyError Unit :=
  match stagingKey payload with
  | .error error => (state, .error error)
  | .ok (decisionId, key) =>
    let staging := state.staging.set key (stage (state.staging.get? key))
    discard (append env raises { state with staging } decisionId eventType payload none)

def onMetricProposed (raises : Bool) (state : AppState) (payload : PyDict) : AppState × Except PyError Unit :=
  stageAndAppend env raises state "MetricProposed" payload fun _ ↦
    payload.set "status" (.str MetricStatus.proposed.value)

def onDebateOutcome (raises : Bool) (state : AppState) (payload : PyDict) : AppState × Except PyError Unit :=
  stageAndAppend env raises state "DebateOutcome" payload fun stage ↦
    ((stage.getD .empty).update payload).set "status" (.str MetricStatus.debated.value)

def onRiskSignal (raises : Bool) (state : AppState) (payload : PyDict) : AppState × Except PyError Unit :=
  stageAndAppend env raises state "RiskSignal" payload fun stage ↦
    ((stage.getD .empty).set "status" (.str MetricStatus.critiqued.value)).set "risk_level"
      ((payload.get? "risk_level").getD .null)

def reconciledEntry (raises : Bool) (state : AppState) (payload : PyDict) : AppState × Except PyError Unit :=
  stageAndAppend env raises state "ReconciledDecision" payload fun stage ↦
    ((stage.getD .empty).update payload).set "status" (.str MetricStatus.reconciled.value)

def commitAppend (raises : Bool) (state : AppState) (now : Instant)
    (decisionId metricName value evidenceRefs idempotencyKey proposedBy : Json) :
    AppState × Except PyError Progress :=
  match decisionId.asStr?, metricName.asStr?, evidenceRefs.iterStrs?, idempotencyKey.asStr? with
  | some decisionId, some metricName, some refs, some idempotencyKey =>
    let timestampIso := env.isoformat now
    let leafHash := computeLeafHash env decisionId metricName value timestampIso refs idempotencyKey
    let payload := committedPayload decisionId metricName value refs idempotencyKey (hex leafHash)
      timestampIso proposedBy
    match append env raises state (.str decisionId) "MetricCommitted" payload (some idempotencyKey) with
    | (state, .error error) => (state, .error error)
    | (state, .ok result) =>
      if result.deduplicated then (state, .ok (.done (some ⟨.duplicateIgnored, none⟩)))
      else (state, .ok (.addLeaf ⟨⟨leafHash, result.eventId, decisionId⟩, metricName, timestamp now⟩))
  | _, _, _, _ => (state, .error .typeError)

def reconciledGate (raises : Bool) (state : AppState) (now : Instant) (payload : PyDict) :
    AppState × Except PyError Progress :=
  let evidenceRefs := (payload.get? "evidence_refs").getD (.list [])
  if evidenceRefs.truthy then
    match field payload "decision_id", field payload "metric_name", field payload "final_value",
      field payload "idempotency_key" with
    | .ok decisionId, .ok metricName, .ok finalValue, .ok idempotencyKey =>
      commitAppend env raises state now decisionId metricName finalValue evidenceRefs idempotencyKey
        ((payload.get? "proposed_by").getD (.str "reconciliation"))
    | .error error, _, _, _ => (state, .error error)
    | _, .error error, _, _ => (state, .error error)
    | _, _, .error error, _ => (state, .error error)
    | _, _, _, .error error => (state, .error error)
  else
    match field payload "decision_id", field payload "metric_name",
      field payload "idempotency_key" with
    | .ok decisionId, .ok metricName, .ok idempotencyKey =>
      match append env raises state decisionId "MetricRejected"
        (rejectedPayload env decisionId metricName idempotencyKey now) none with
      | (state, .error error) => (state, .error error)
      | (state, .ok _) => (state, .ok (.done none))
    | .error error, _, _ => (state, .error error)
    | _, .error error, _ => (state, .error error)
    | _, _, .error error => (state, .error error)

/-- Behind its append, `_commit` awaits nothing more and cannot raise. -/
def onReconciledDecision (fails : FailedAppends) (state : AppState) (now : Instant) (payload : PyDict) :
    AppState × Except PyError Unit :=
  match reconciledEntry env fails.first state payload with
  | (state, .error error) => (state, .error error)
  | (state, .ok ()) => discard (finish (reconciledGate env fails.second state now payload))

/-- Over a trail that answers, these are the handlers. -/
theorem onInbound_of_reached (state : AppState) (now : Instant) (payload : PyDict) :
    onMetricProposed env false state payload = CommandHandler.onMetricProposed env state payload ∧
      onDebateOutcome env false state payload = CommandHandler.onDebateOutcome env state payload ∧
      onRiskSignal env false state payload = CommandHandler.onRiskSignal env state payload ∧
      onReconciledDecision env ⟨false, false⟩ state now payload =
        CommandHandler.onReconciledDecision env state now payload :=
  ⟨rfl, rfl, rfl, rfl⟩

end CommandHandler.Failing

/-! ## Traces of a handler that raised -/

/-- The staging area holds the same stages, with the same fields. -/
def SameStages (before after : Staging) : Prop :=
  ∀ key, (after.get? key).map Dict.get? = (before.get? key).map Dict.get?

/-- Staging area, trail and open batch are as before. -/
structure Untouched (before after : AppState) : Prop where
  staging : SameStages before.staging after.staging
  auditTrail : after.auditTrail = before.auditTrail
  merkleBuilder : after.merkleBuilder = before.merkleBuilder

/-- A handler that raised has left the state as it was. -/
def LeavesNoTrace (state : AppState) (outcome : AppState × Except PyError Unit) : Prop :=
  ∀ error, outcome.2 = .error error → Untouched state outcome.1

/-- The metric of the payload has a stage like this, or the payload has no staging key. -/
def StagedAs (state : AppState) (payload : PyDict) (like : PyDict → Prop) : Prop :=
  ∀ decisionId key, stagingKey payload = .ok (decisionId, key) → ∃ stage ∈ state.staging.get? key, like stage

/-- The stage of a proposal: its payload with the status. -/
def IsProposal (payload stage : PyDict) : Prop :=
  ∀ name, stage.get? name = if name = "status" then some (.str MetricStatus.proposed.value) else payload.get? name

/-- A stage of the status with all fields of the payload. -/
def IsMerged (status : MetricStatus) (payload stage : PyDict) : Prop :=
  stage.get? "status" = some (.str status.value) ∧
    ∀ name value, name ≠ "status" → payload.get? name = some value → stage.get? name = some value

/-- The stage of a risk signal of this level. -/
def IsCritiqued (payload stage : PyDict) : Prop :=
  stage.get? "status" = some (.str MetricStatus.critiqued.value) ∧
    stage.get? "risk_level" = some ((payload.get? "risk_level").getD .null)

/-- The gate of a decision with this payload has the fields it needs: with evidence those of a commit, all of their
types, and without it those of a rejection. -/
def GateEnds (payload : PyDict) : Prop :=
  (∃ commit, (Call.inbound .reconciledDecision payload).Commits commit) ∨
    ∃ decisionId metricName idempotencyKey,
      (Call.inbound .reconciledDecision payload).LacksEvidence decisionId metricName idempotencyKey

section Traces

variable {env : Env} {state : AppState} {payload : PyDict}

theorem untouched_refl (state : AppState) : Untouched state state := ⟨fun _ ↦ rfl, rfl, rfl⟩

theorem leavesNoTrace_of_ok {next : AppState} : LeavesNoTrace state (next, .ok ()) := nofun

theorem leavesNoTrace_error {next : AppState} {error : PyError} :
    LeavesNoTrace state (next, .error error) ↔ Untouched state next := by
  constructor
  · intro h
    exact h error rfl
  · intro h _ _
    exact h

/-- Staging under a key is no change when the stage written has the fields of the one it replaces. -/
theorem sameStages_set {staging : Staging} {key : PyKey × PyKey} {stage : PyDict} :
    SameStages staging (staging.set key stage) ↔ ∃ old ∈ staging.get? key, stage.get? = old.get? := by
  constructor
  · intro h
    have hown := h key
    rw [Dict.get?_set, if_pos rfl, Option.map_some] at hown
    obtain ⟨old, hold, hfields⟩ := Option.map_eq_some_iff.mp hown.symm
    exact ⟨old, hold, hfields.symm⟩
  · rintro ⟨old, hold, hfields⟩ other
    rw [Dict.get?_set]
    split
    · rename_i hsame
      rw [← hsame, Option.mem_def.mp hold, Option.map_some, Option.map_some, hfields]
    · rfl

theorem isProposal_iff {stage : PyDict} :
    (payload.set "status" (.str MetricStatus.proposed.value)).get? = stage.get? ↔ IsProposal payload stage := by
  rw [funext_iff]
  apply forall_congr'
  intro name
  rw [Dict.get?_set, eq_comm, if_congr eq_comm rfl rfl]

theorem isMerged_iff (status : MetricStatus) {stage : PyDict} :
    ((stage.update payload).set "status" (.str status.value)).get? = stage.get? ↔ IsMerged status payload stage := by
  rw [funext_iff]
  constructor
  · intro h
    constructor
    · have hstatus := h "status"
      rw [Dict.get?_set, if_pos rfl] at hstatus
      exact hstatus.symm
    · intro name value hname hvalue
      have hfield := h name
      rw [Dict.get?_set, if_neg (Ne.symm hname), Dict.get?_update, hvalue, Option.some_or] at hfield
      exact hfield.symm
  · rintro ⟨hstatus, hfields⟩ name
    rw [Dict.get?_set]
    split
    · rename_i hname
      rw [← hname, hstatus]
    · rename_i hname
      rw [Dict.get?_update]
      cases hvalue : payload.get? name with
      | none => rw [Option.none_or]
      | some value => rw [Option.some_or, hfields name value (Ne.symm hname) hvalue]

theorem isCritiqued_iff {stage : PyDict} :
    ((stage.set "status" (.str MetricStatus.critiqued.value)).set "risk_level"
      ((payload.get? "risk_level").getD .null)).get? = stage.get? ↔ IsCritiqued payload stage := by
  rw [funext_iff]
  constructor
  · intro h
    have hstatus := h "status"
    have hlevel := h "risk_level"
    simp only [Dict.get?_set] at hstatus hlevel
    exact ⟨hstatus.symm, hlevel.symm⟩
  · rintro ⟨hstatus, hlevel⟩ name
    rw [Dict.get?_set, Dict.get?_set]
    split
    · rename_i hname
      rw [← hname, hlevel]
    · split
      · rename_i hname
        rw [← hname, hstatus]
      · rfl

/-- A handler that only stages and appends leaves no trace when its append does not raise, or when the stage it writes
is there already. -/
theorem stageAndAppend_leavesNoTrace_iff (env : Env) (raises : Bool) (state : AppState) (eventType : String)
    {stage : Option PyDict → PyDict} {like : PyDict → Prop}
    (hlike : ∀ old, (stage (some old)).get? = old.get? ↔ like old) :
    LeavesNoTrace state (Failing.stageAndAppend env raises state eventType payload stage) ↔
      (raises = true → StagedAs state payload like) := by
  unfold StagedAs Failing.stageAndAppend
  cases hkey : stagingKey payload with
  | error error =>
    refine iff_of_true (leavesNoTrace_error.mpr (untouched_refl state)) ?_
    intro _ _ _ hformed
    cases hformed
  | ok found =>
    obtain ⟨decisionId, key⟩ := found
    cases raises with
    | false =>
      obtain ⟨next, hcall, -⟩ := stageAndAppend_ok env state hkey eventType stage
      simp only [stageAndAppend, hkey] at hcall
      refine iff_of_true ?_ fun h ↦ absurd h Bool.false_ne_true
      simp only [Failing.append, Bool.false_eq_true, if_false]
      rw [hcall]
      exact leavesNoTrace_of_ok
    | true =>
      simp only [Failing.append, if_true, discard, Except.map, leavesNoTrace_error, forall_const]
      constructor
      · intro huntouched
        rintro _ _ ⟨⟩
        obtain ⟨old, hold, hfields⟩ := sameStages_set.mp huntouched.staging
        refine ⟨old, hold, (hlike old).mp ?_⟩
        rw [Option.mem_def.mp hold] at hfields
        exact hfields
      · intro hstaged
        obtain ⟨old, hold, holdLike⟩ := hstaged decisionId key rfl
        refine ⟨sameStages_set.mpr ⟨old, hold, ?_⟩, rfl, rfl⟩
        rw [Option.mem_def.mp hold]
        exact (hlike old).mpr holdLike

/-- The gate raises and leaves the state alone when a field it needs is missing, or when its append raises. -/
theorem failingGate_raises (env : Env) {raises : Bool} (state : AppState) (now : Instant)
    (h : ¬ (raises = false ∧ GateEnds payload)) :
    ∃ error, Failing.reconciledGate env raises state now payload = (state, .error error) := by
  have happend (hends : GateEnds payload) : raises = true := by
    cases raises with
    | true => rfl
    | false => exact absurd ⟨rfl, hends⟩ h
  unfold Failing.reconciledGate
  by_cases htruthy : ((payload.get? "evidence_refs").getD (.list [])).truthy = true
  · simp only [htruthy, if_true]
    split
    · rename_i hdecision hmetric hvalue hkey
      unfold Failing.commitAppend
      split
      · rename_i decision metric refs key hdecisionText hmetricText hrefs hkeyText
        rw [Json.asStr?_eq_some] at hdecisionText hmetricText hkeyText
        subst hdecisionText hmetricText hkeyText
        have hends : GateEnds payload := .inl ⟨⟨decision, metric, _, refs, key, _, now⟩, field_ok hdecision,
          field_ok hmetric, field_ok hvalue, hrefs, htruthy, field_ok hkey, rfl⟩
        simp only [Failing.append, happend hends, if_true]
        exact ⟨.external, rfl⟩
      · exact ⟨.typeError, rfl⟩
    all_goals exact ⟨_, rfl⟩
  · simp only [htruthy, Bool.false_eq_true, if_false]
    split
    · rename_i hdecision hmetric hkey
      have hends : GateEnds payload := .inr ⟨_, _, _, field_ok hdecision, field_ok hmetric, field_ok hkey,
        by simpa [reconciledEvidence] using htruthy⟩
      simp only [Failing.append, happend hends, if_true]
      exact ⟨.external, rfl⟩
    all_goals exact ⟨_, rfl⟩

theorem reconciledGate_raises (env : Env) (state : AppState) (now : Instant) (h : ¬ GateEnds payload) :
    ∃ error, reconciledGate env state now payload = (state, .error error) := by
  have hreached : Failing.reconciledGate env false state now payload = reconciledGate env state now payload := rfl
  rw [← hreached]
  exact failingGate_raises env state now fun hends ↦ h hends.2

/-- With all its fields, and over a trail that answers, the gate does not raise. -/
theorem reconciledGate_ends (env : Env) (state : AppState) (now : Instant) {decisionId : Json} {key : PyKey × PyKey}
    (hkey : stagingKey payload = .ok (decisionId, key)) (h : GateEnds payload) :
    ∃ next result, finish (reconciledGate env state now payload) = (next, .ok result) := by
  obtain ⟨commit, hcommits⟩ | ⟨decision, metric, name, hlacks⟩ := h
  · rw [reconciledGate_commits_at env state now hcommits]
    unfold Commit.segment
    split
    · exact ⟨_, _, rfl⟩
    · exact ⟨_, _, rfl⟩
  · obtain ⟨hdecision, hash⟩ := stagingKey_ok hkey
    obtain rfl := Option.some.inj (hlacks.1.symm.trans hdecision)
    exact ⟨_, _, by rw [reconciledGate_rejects env state now hash hlacks]; rfl⟩

/-- A handler that stages its payload raises, or has stored the payload. -/
theorem failingStage_cases (env : Env) (raises : Bool) (state : AppState) (payload : PyDict) (eventType : String)
    (stage : Option PyDict → PyDict) :
    (∃ next error, Failing.stageAndAppend env raises state eventType payload stage = (next, .error error)) ∧
        (raises = true ∨ (stagingKey payload).isOk = false) ∨
      raises = false ∧ ∃ decisionId key next stored, stagingKey payload = .ok (decisionId, key) ∧
        Failing.stageAndAppend env raises state eventType payload stage = (next, .ok ()) ∧
        Appends env state next (some stored) := by
  unfold Failing.stageAndAppend
  cases hkey : stagingKey payload with
  | error error => exact .inl ⟨⟨state, error, rfl⟩, .inr rfl⟩
  | ok found =>
    obtain ⟨decisionId, key⟩ := found
    cases raises with
    | true => exact .inl ⟨⟨_, .external, rfl⟩, .inl rfl⟩
    | false =>
      obtain ⟨next, hcall, happends⟩ := stageAndAppend_ok env state hkey eventType stage
      simp only [stageAndAppend, hkey] at hcall
      exact .inr ⟨rfl, decisionId, key, next, _, rfl, hcall, happends⟩

/-- The handler of a reconciled decision has stored the event once it is at its gate, so it must not raise there. -/
theorem onReconciledDecision_leavesNoTrace_iff (env : Env) (fails : FailedAppends) (state : AppState) (now : Instant)
    (payload : PyDict) :
    LeavesNoTrace state (Failing.onReconciledDecision env fails state now payload) ↔
      (fails.first = true → StagedAs state payload (IsMerged .reconciled payload)) ∧
        (fails.first = false → (stagingKey payload).isOk = true → fails.second = false ∧ GateEnds payload) := by
  have hentry : LeavesNoTrace state (Failing.reconciledEntry env fails.first state payload) ↔
      (fails.first = true → StagedAs state payload (IsMerged .reconciled payload)) :=
    stageAndAppend_leavesNoTrace_iff env fails.first state "ReconciledDecision" fun _ ↦ isMerged_iff .reconciled
  unfold Failing.onReconciledDecision
  obtain ⟨⟨next, error, hraised⟩, hreason⟩ | ⟨hfirst, decisionId, key, middle, stored, hkey, hcall, happends⟩ :=
    failingStage_cases env fails.first state payload "ReconciledDecision" fun stage ↦
      ((stage.getD .empty).update payload).set "status" (.str MetricStatus.reconciled.value)
  · have hsame : Failing.reconciledEntry env fails.first state payload = (next, .error error) := hraised
    rw [hsame] at hentry ⊢
    rw [hentry]
    refine (and_iff_left ?_).symm
    intro hfirst hkey
    rw [hfirst, hkey] at hreason
    simp at hreason
  · have hreached : Failing.reconciledEntry env fails.first state payload = (middle, .ok ()) := hcall
    have hok : (stagingKey payload).isOk = true := by rw [hkey]; rfl
    rw [hreached]
    simp only [hfirst, hok, Bool.false_eq_true, false_implies, true_and, forall_const]
    by_cases hends : fails.second = false ∧ GateEnds payload
    · obtain ⟨last, result, hgate⟩ := reconciledGate_ends env middle now hkey hends.2
      have hanswers : Failing.reconciledGate env fails.second middle now payload =
          reconciledGate env middle now payload := by
        rw [hends.1]
        rfl
      rw [hanswers, hgate]
      exact iff_of_true leavesNoTrace_of_ok hends
    · obtain ⟨error, hgate⟩ := failingGate_raises env middle now hends
      rw [hgate]
      refine iff_of_false ?_ hends
      intro h
      have huntouched : Untouched state middle := leavesNoTrace_error.mp h
      have hlength := congrArg (fun trail ↦ trail.events.length) huntouched.auditTrail
      rw [happends.events] at hlength
      simp at hlength

end Traces

end DecisionCore
