import DecisionCore.System.CommitPath
import DecisionCore.ReadModel.Scoring

/-!
# Logs that stay replayable

Handlers store payloads as they come, and a rebuild reads them back through validating models.  The
fields a rebuild needs of a record are listed here by the type the record carries, which the payload
may choose itself.  When every call that gets to store something stores such records, no rebuild of
any decision raises, at any later moment.
-/

namespace DecisionCore

open CommandHandler MerkleAnchorService MetricsRegistry ScoreboardProjector PolicyEvaluator

variable {env : Env}

/-! ## The fields a rebuild reads -/

section Fields

variable (evt : PyDict) (key : String)

def HasText : Prop := ∃ text, evt.get? key = some (.str text)

def TextIfAny : Prop := ∀ value, evt.get? key = some value → ∃ text, value = .str text

def HasMoment (env : Env) : Prop :=
  ∃ text moment, evt.get? key = some (.str text) ∧ env.fromisoformat text = some moment

end Fields

/-- What the registry needs of a commit, and the evaluator of its value. -/
@[mk_iff] structure CommittedFields (env : Env) (evt : PyDict) : Prop where
  metricName : HasText evt "metric_name"
  value : ∃ value, evt.get? "value" = some value ∧ Fits value
  proposedBy : TextIfAny evt "proposed_by"
  idempotencyKey : HasText evt "idempotency_key"
  evidenceRefs : ∃ refs texts, evt.get? "evidence_refs" = some refs ∧ refs.asStrList? = some texts
  committedAt : HasMoment evt "committed_at" env
  leafHash : ∃ value leaf, evt.get? "leaf_hash" = some value ∧ leafHashField? value = some leaf

@[mk_iff] structure RejectedFields (env : Env) (evt : PyDict) : Prop where
  metricName : HasText evt "metric_name"
  idempotencyKey : HasText evt "idempotency_key"
  occurredAt : HasMoment evt "occurred_at" env

/-- A name that is not a text has no record, so nothing else is read of its supersession. -/
@[mk_iff] structure SupersededFields (evt : PyDict) : Prop where
  metricName : ∃ name, evt.get? "metric_name" = some name ∧ name.hashable = true
  supersededBy : HasText evt "metric_name" → evt.contains "superseded_by_idempotency_key" = true

@[mk_iff] structure RiskFields (env : Env) (evt : PyDict) : Prop where
  metricName : HasText evt "metric_name"
  riskLevel : TextIfAny evt "risk_level"
  severity : ∀ value, evt.get? "severity" = some value → ∃ severity, severityField? env value = some severity
  flags : ∀ value, evt.get? "contradiction_flags" = some value → ∃ texts, value.asStrList? = some texts

@[mk_iff] structure RootFields (env : Env) (evt : PyDict) : Prop where
  root : ∃ root, evt.get? "root" = some root ∧ (root = .null ∨ ∃ text, root = .str text)
  anchorTimestamp : HasMoment evt "anchor_timestamp" env

/-- What a rebuild needs of a record of the type. -/
def FieldsOf (env : Env) (evt : PyDict) (eventType : String) : Prop :=
  if eventType = "MetricCommitted" then CommittedFields env evt
  else if eventType = "MetricRejected" then RejectedFields env evt
  else if eventType = "MetricSuperseded" then SupersededFields evt
  else if eventType = "RiskSignal" then RiskFields env evt
  else if eventType = "MerkleRootPublished" then RootFields env evt
  else True

/-- The record has the fields of the type it carries. -/
def Replayable (env : Env) (evt : PyDict) : Prop :=
  ∀ eventType, evt.hasType eventType = true → FieldsOf env evt eventType

/-- A record carries one type. -/
theorem Replayable.of_hasType {evt : PyDict} {eventType : String} (htype : evt.hasType eventType = true)
    (hfields : FieldsOf env evt eventType) : Replayable env evt := by
  intro other hother
  by_cases heq : eventType = other
  · exact heq ▸ hfields
  · rw [hasType_of_hasType htype heq] at hother
    cases hother

section Readers

variable {evt : PyDict} (decisionId : String)

theorem HasMoment.parse {key : String} (h : HasMoment evt key env) :
    ∃ text moment, item evt key = .ok (.str text) ∧ MetricsRegistry.parse env (.str text) = .ok moment := by
  obtain ⟨text, moment, hget, hmoment⟩ := h
  exact ⟨text, moment, item_eq hget, by simp [MetricsRegistry.parse, hmoment]⟩

/-- A defaulted text field holds a text. -/
theorem TextIfAny.getD {key : String} (h : TextIfAny evt key) (default : String) :
    ∃ text, (evt.get? key).getD (.str default) = .str text := by
  cases hget : evt.get? key with
  | none => exact ⟨default, rfl⟩
  | some value => exact h value hget

theorem CommittedFields.record (h : CommittedFields env evt) :
    ∃ record, committedRecord env decisionId evt = .ok record ∧ Fits record.value := by
  obtain ⟨name, hname⟩ := h.metricName
  obtain ⟨value, hvalue, hfits⟩ := h.value
  obtain ⟨proposedBy, hproposed⟩ := h.proposedBy.getD "unknown"
  obtain ⟨key, hkey⟩ := h.idempotencyKey
  obtain ⟨refs, texts, hrefs, htexts⟩ := h.evidenceRefs
  obtain ⟨text, moment, hitem, hparse⟩ := h.committedAt.parse
  obtain ⟨leafHash, leaf, hleafHash, hleaf⟩ := h.leafHash
  refine ⟨⟨decisionId, name, value, proposedBy, key, sortedSet texts, .committed, moment, leaf, none⟩, ?_, hfits⟩
  simp [committedRecord, item_eq hname, item_eq hvalue, hproposed, item_eq hkey, item_eq hrefs, hitem, hparse,
    item_eq hleafHash, bind, Except.bind, MetricRecord.build, Json.asStr?, htexts, hleaf]

theorem RejectedFields.record (h : RejectedFields env evt) :
    ∃ record, rejectedRecord env decisionId evt = .ok record ∧ Fits record.value := by
  obtain ⟨name, hname⟩ := h.metricName
  obtain ⟨key, hkey⟩ := h.idempotencyKey
  obtain ⟨text, moment, hitem, hparse⟩ := h.occurredAt.parse
  refine ⟨⟨decisionId, name, .null, "unknown", key, [], .rejected, moment, none, none⟩, ?_, trivial⟩
  simp [rejectedRecord, item_eq hname, item_eq hkey, hitem, hparse, bind, Except.bind, MetricRecord.build,
    Json.asStr?, Json.asStrList?, leafHashField?]
  rfl

theorem RiskFields.entry (h : RiskFields env evt) : ∃ risk, RiskMatrix.entryOf env decisionId evt = .ok risk := by
  obtain ⟨name, hname⟩ := h.metricName
  obtain ⟨level, hlevel⟩ := h.riskLevel.getD "UNKNOWN"
  exact RiskMatrix.exists_entryOf decisionId hname hlevel h.severity h.flags

end Readers

/-! ## A rebuild of replayable records -/

section Rebuild

variable (decisionId : String) {log : List PyDict}

/-- Every value of the registry converts to a float. -/
def FitsAll (metrics : Metrics) : Prop := ∀ binding ∈ metrics.entries, Fits binding.2.value

theorem FitsAll.set {metrics : Metrics} (h : FitsAll metrics) (key : String) {record : MetricRecord}
    (hfits : Fits record.value) : FitsAll (metrics.set key record) := by
  intro binding hbinding
  obtain rfl | hold := Dict.mem_of_mem_set hbinding
  · exact hfits
  · exact h binding hold

/-- A lookup of a name that can be hashed answers, and finds records under texts only. -/
theorem recordOf?_hashable (metrics : Metrics) {name : Json} (hhash : name.hashable = true) :
    recordOf? metrics name = .ok none ∨ ∃ text record, name = .str text ∧
      metrics.get? text = some record ∧ recordOf? metrics name = .ok (some (text, record)) := by
  cases name with
  | str text =>
    cases hget : metrics.get? text with
    | none => exact .inl (by simp [recordOf?, hget])
    | some record => exact .inr ⟨text, record, rfl, hget, by simp [recordOf?, hget]⟩
  | list _ => cases hhash
  | dict _ => cases hhash
  | _ => exact .inl rfl

/-- One round over a replayable record does not raise. -/
theorem Replayable.consumed {evt : PyDict} (h : Replayable env evt) {metrics : Metrics}
    (hfits : FitsAll metrics) :
    ∃ round, consume env decisionId metrics evt = .ok round ∧ FitsAll round.1 := by
  unfold consume
  by_cases hcommit : evt.hasType "MetricCommitted" = true
  · have hfields : CommittedFields env evt := by simpa [FieldsOf] using h _ hcommit
    obtain ⟨record, hrecord, hvalue⟩ := hfields.record decisionId
    rw [if_pos hcommit, hrecord]
    exact ⟨_, rfl, hfits.set _ hvalue⟩
  rw [if_neg hcommit]
  by_cases hreject : evt.hasType "MetricRejected" = true
  · have hfields : RejectedFields env evt := by simpa [FieldsOf] using h _ hreject
    obtain ⟨name, hname⟩ := hfields.metricName
    obtain ⟨record, hrecord, hvalue⟩ := hfields.record decisionId
    rw [if_pos hreject, item_eq hname, hrecord]
    obtain hnone | ⟨text, found, -, -, hfound⟩ := recordOf?_hashable metrics (rfl : (Json.str name).hashable = true)
    · refine ⟨(metrics.set record.metricName record, false), ?_, hfits.set _ hvalue⟩
      simp [hnone, bind, Except.bind, pure, Except.pure]
    · refine ⟨(metrics, false), ?_, hfits⟩
      simp [hfound, bind, Except.bind, pure, Except.pure]
  rw [if_neg hreject]
  by_cases hsupersede : evt.hasType "MetricSuperseded" = true
  · have hfields : SupersededFields evt := by simpa [FieldsOf] using h _ hsupersede
    obtain ⟨name, hname, hhash⟩ := hfields.metricName
    rw [if_pos hsupersede, item_eq hname]
    obtain hnone | ⟨text, record, rfl, hget, hfound⟩ := recordOf?_hashable metrics hhash
    · refine ⟨(metrics, false), ?_, hfits⟩
      simp [hnone, bind, Except.bind, pure, Except.pure]
    · obtain ⟨by_, hby⟩ := Option.isSome_iff_exists.mp (hfields.supersededBy ⟨text, hname⟩)
      refine ⟨(metrics.set text (supersede record by_), true), ?_, hfits.set _ ?_⟩
      · simp [hfound, item_eq hby, bind, Except.bind, pure, Except.pure]
      · exact hfits _ (Dict.mem_of_get?_eq_some hget)
  rw [if_neg hsupersede]
  exact ⟨(metrics, false), rfl, hfits⟩

theorem replay_of_replayable (hall : ∀ evt ∈ log, Replayable env evt) {metrics : Metrics}
    (hfits : FitsAll metrics) :
    ∃ settled, replay env decisionId metrics log = .ok settled ∧ FitsAll settled := by
  induction log generalizing metrics with
  | nil => exact ⟨metrics, rfl, hfits⟩
  | cons evt rest ih =>
    obtain ⟨⟨next, stops⟩, hround, hnext⟩ := (hall evt List.mem_cons_self).consumed decisionId hfits
    rw [replay_cons, hround]
    cases stops with
    | true => exact ⟨next, rfl, hnext⟩
    | false => exact ih (fun other hother ↦ hall other (List.mem_cons_of_mem _ hother)) hnext

theorem riskMatrix_of_replayable (hall : ∀ evt ∈ log, Replayable env evt) :
    ∃ risks, RiskMatrix.reconstruct env decisionId log = .ok risks := by
  apply riskMatrix_ok
  intro evt hevt htype
  have hfields : RiskFields env evt := by simpa [FieldsOf] using hall evt hevt _ htype
  exact hfields.entry decisionId

theorem root_of_replayable (hall : ∀ evt ∈ log, Replayable env evt) :
    ∃ found root moment, merkleRootRef log = .ok found ∧ rootField found = .ok root ∧
      merkleTimestamp env log = .ok moment := by
  cases hlast : lastRootEvent log with
  | none => exact ⟨none, none, none, by simp [merkleRootRef, hlast], rfl, by simp [merkleTimestamp, hlast]⟩
  | some evt =>
    have hmem : evt ∈ log := List.mem_reverse.mp (List.mem_of_find?_eq_some hlast)
    have htype : isRootEvent evt = true := List.find?_some hlast
    have hfields : RootFields env evt := by simpa [FieldsOf] using hall evt hmem _ htype
    obtain ⟨root, hroot, htext⟩ := hfields.root
    obtain ⟨text, moment, hitem, hparse⟩ := hfields.anchorTimestamp.parse
    have hfield : ∃ field, rootField (some root) = .ok field := by
      obtain rfl | ⟨text, rfl⟩ := htext
      · exact ⟨none, rfl⟩
      · exact ⟨some text, rfl⟩
    obtain ⟨field, hfield⟩ := hfield
    refine ⟨some root, field, some moment, ?_, hfield, ?_⟩
    · simp [merkleRootRef, hlast, item_eq hroot, Except.map]
    · simp [merkleTimestamp, hlast, hitem, hparse, bind, Except.bind, pure, Except.pure]

/-- The evaluator does not raise on values that fit. -/
theorem evaluatePolicy_of_fitsAll {metrics : Metrics} (hfits : FitsAll metrics) (requiredMetrics : List String)
    (risks : List RiskSignalEntry) :
    ∃ verdict, evaluatePolicy requiredMetrics metrics risks none .default = .ok verdict := by
  have hbase : ∃ base, baseScore none (committed requiredMetrics metrics) = .ok base := by
    rw [baseScore, baseLoop_ok_iff]
    intro binding hbinding
    exact hfits binding (List.mem_of_mem_filter hbinding)
  obtain ⟨base, hbase⟩ := hbase
  unfold evaluatePolicy
  by_cases hmissing : (missing requiredMetrics (committed requiredMetrics metrics)).isEmpty = true
  · simp only [if_pos hmissing, hbase]
    exact ⟨_, rfl⟩
  · simp only [if_neg hmissing]
    exact ⟨_, rfl⟩

/-- A stream of replayable records can be rebuilt, whatever metrics are required. -/
theorem project_of_replayable (hall : ∀ evt ∈ log, Replayable env evt) (requiredMetrics : List String)
    (rebuiltAt : Instant) : ∃ board, project env decisionId requiredMetrics rebuiltAt log = .ok board := by
  have hempty : FitsAll Dict.empty := by simp [FitsAll, Dict.empty]
  obtain ⟨metrics, hmetrics, hfits⟩ := replay_of_replayable decisionId hall hempty
  obtain ⟨risks, hrisks⟩ := riskMatrix_of_replayable decisionId hall
  obtain ⟨found, root, moment, hfound, hroot, hmoment⟩ := root_of_replayable hall
  obtain ⟨verdict, hverdict⟩ := evaluatePolicy_of_fitsAll hfits requiredMetrics risks
  simp [project, reconstruct, hmetrics, hrisks, hfound, hmoment, hverdict, hroot, bind, Except.bind, pure,
    Except.pure]

end Rebuild

/-! ## Calls that get to store something -/

/-- The handler of a bus call gets to its append. -/
def Call.GetsThrough : Call → Prop
  | .inbound kind payload => kind.appends payload = true
  | _ => True

/-- The segments of a bus call that does not get to its append store nothing, and do not lead to the
gate. -/
theorem resume_of_not_getsThrough {now : Instant} {state : AppState} {task : Task} (hsound : task.Sound env)
    (hidle : ¬ task.call.GetsThrough) (hgate : ∀ payload, task.pc ≠ .reconciledGate payload) :
    (resume env now state task).1.auditTrail.events = state.auditTrail.events ∧
      ∀ payload, (resume env now state task).2 ≠ .next (.reconciledGate payload) := by
  obtain ⟨call, pc⟩ := task
  cases call with
  | inbound kind payload =>
    have happends : kind.appends payload = false := by simpa [Call.GetsThrough] using hidle
    cases pc with
    | entry =>
      by_cases hkind : kind = .reconciledDecision
      · subst hkind
        have hkey : ∃ error, stagingKey payload = .error error := by
          cases hkey : stagingKey payload with
          | error error => exact ⟨error, rfl⟩
          | ok found => simp [Inbound.appends, hkey, Except.isOk, Except.toBool] at happends
        obtain ⟨error, hkey⟩ := hkey
        simp [resume, enter, reconciledEntry, stageAndAppend, hkey]
      · have hstored := onInbound_stored env state now payload hkind
        rw [happends, if_neg Bool.false_ne_true] at hstored
        have henter : enter env now state (.inbound kind payload) =
            ((onInbound env state now kind payload).1, .ofUnit (onInbound env state now kind payload).2) := by
          cases kind <;> first | rfl | exact absurd rfl hkind
        simp only [resume, henter]
        refine ⟨by simpa using hstored.events, ?_⟩
        intro found
        cases (onInbound env state now kind payload).2 <;> simp [Move.ofUnit]
    | reconciledGate found => exact absurd rfl (hgate found)
    | addLeaf step => simp [resume, commitFinish]
    | storeBoard board => simp [resume]
    | sign job => simp [resume]
    | stamp job signature => simp [resume]
    | anchoring stamped todo => cases (hsound.anchoring stamped todo rfl).1
  | _ => exact absurd trivial hidle

section Runs

variable {good : Call → Prop} {maxLeaves : ℤ} {maxSeconds : ℚ} {trace : List (System × Label)}
  {last : System}

/-- Every event stems from a call that meets the condition and gets to its append. -/
theorem Run.storedBy_getsThrough
    (run : Run (System.step env) (System.initial maxLeaves maxSeconds) trace last)
    (along : Along (fun _ label ↦ label.Starts good) trace) :
    (∀ task ∈ last.tasks, ∀ payload, task.pc = .reconciledGate payload → task.call.GetsThrough) ∧
      StoredBy env (fun call ↦ good call ∧ call.GetsThrough) last.state := by
  refine run.keeps (fun sys ↦ (∀ task ∈ sys.tasks, ∀ payload, task.pc = .reconciledGate payload →
      task.call.GetsThrough) ∧ StoredBy env (fun call ↦ good call ∧ call.GetsThrough) sys.state)
    along ⟨by simp [System.initial], by simp [System.initial, AppState.initial, MemoryAuditTrail.empty,
      StoredBy]⟩ ?_
  rintro before sys label next hrun hbefore - hstepped ⟨hgates, hstored⟩
  have hgood := (hrun.storedBy hbefore).1
  cases hstepped with
  | started =>
    refine ⟨?_, hstored⟩
    intro task htask
    rcases List.mem_append.mp htask with hold | hnew
    · exact hgates task hold
    · obtain rfl := List.mem_singleton.mp hnew
      simp
  | @resumed index now task state move htask hsound hres hresume =>
    have hmem := List.mem_of_getElem? htask
    by_cases hthrough : task.call.GetsThrough
    · refine ⟨System.forall_advance htask hgates ?_,
        hstored.extended ⟨hgood task hmem, hthrough⟩ (hres.stores hsound)⟩
      intro other hother payload hpc
      cases move with
      | next pc =>
        obtain rfl := List.mem_singleton.mp hother
        exact hthrough
      | finish answer => cases hother
    · have hidle : (resume env now sys.state task).1.auditTrail.events = sys.state.auditTrail.events ∧
          ∀ payload, (resume env now sys.state task).2 ≠ .next (.reconciledGate payload) :=
        resume_of_not_getsThrough hsound hthrough fun payload hpc ↦ hthrough (hgates task hmem payload hpc)
      rw [hresume] at hidle
      refine ⟨System.forall_advance htask hgates ?_, ?_⟩
      · intro other hother payload hpc
        cases move with
        | next pc =>
          obtain rfl := List.mem_singleton.mp hother
          obtain rfl : pc = .reconciledGate payload := hpc
          exact absurd rfl (hidle.2 payload)
        | finish answer => cases hother
      · intro entry hentry
        have hevents : state.auditTrail.events = sys.state.auditTrail.events := hidle.1
        exact hstored entry (hevents ▸ hentry)
  | @failed index took task htask hsound hcloser =>
    have hthrough : task.call.GetsThrough := by
      cases hcall : task.call with
      | inbound kind payload => simp [hcall, Call.isCloser] at hcloser
      | _ => trivial
    refine ⟨fun other hother ↦ hgates other (List.mem_of_mem_eraseIdx hother), ?_⟩
    cases took with
    | false => exact hstored
    | true =>
      exact hstored.extended ⟨hgood task (List.mem_of_getElem? htask), hthrough⟩ (failedEffect_stores hsound)

end Runs

/-! ## Replayable calls -/

/-- What the gate stores of a reconciled decision can be read back: the proposer of a commit is a
text and its value no integer that overflows, and a rejection names metric and key by texts. -/
structure GateFields (payload : PyDict) : Prop where
  proposedBy : ∀ commit, (Call.inbound .reconciledDecision payload).Commits commit →
    TextIfAny payload "proposed_by"
  value : ∀ commit, (Call.inbound .reconciledDecision payload).Commits commit → Fits commit.value
  rejected : ∀ decisionId metricName idempotencyKey,
    (Call.inbound .reconciledDecision payload).LacksEvidence decisionId metricName idempotencyKey →
    HasText payload "metric_name" ∧ HasText payload "idempotency_key"

/-- Whatever the call gets to store under a decision has the fields of the type it carries: the
payload's own `event_type` or else the handler's. -/
def Call.Replayable (env : Env) : Call → Prop
  | .updateMetric cmd => cmd.evidenceRefs ≠ [] → Fits cmd.value
  | .inbound kind payload =>
    kind.appends payload = true →
    (∃ decisionId, (payload.get? "decision_id").getD (.str "runtime") = .str decisionId) →
      (∀ eventType, (payload.get? "event_type").getD (.str kind.eventType) = .str eventType →
        FieldsOf env payload eventType) ∧
      (kind = .reconciledDecision → GateFields payload)
  | _ => True

/-- No field a rebuild reads is one of the envelope. -/
theorem fieldsOf_record (entry : Entry) (eventType : String) :
    FieldsOf env entry.record eventType ↔ FieldsOf env entry.payload eventType := by
  simp (disch := decide) only [FieldsOf, committedFields_iff, rejectedFields_iff, supersededFields_iff,
    riskFields_iff, rootFields_iff, HasText, TextIfAny, HasMoment, Dict.contains, Entry.record_get?_own]

/-- An honest entry is read as what it was appended as. -/
theorem Entry.Honest.replayable {entry : Entry} (h : entry.Honest)
    (hfields : FieldsOf env entry.payload entry.eventType) : Replayable env entry.record := by
  have htype : entry.record.hasType entry.eventType = true := by simp [h.hasType]
  exact .of_hasType htype ((fieldsOf_record entry _).mpr hfields)

theorem Commit.replayable (hdigest : env.DigestSized) (commit : Commit) (eventId : String) {proposedBy : String}
    (hproposed : commit.proposedBy = .str proposedBy) (hfits : Fits commit.value) :
    Replayable env (commit.entry env eventId).record := by
  have hpattern : leafHashPattern (hex (commit.leafHash env)) = true := leafHashPattern_hex (hdigest _)
  apply (commit.entry_honest eventId).replayable
  simp [FieldsOf, committedFields_iff, HasText, TextIfAny, HasMoment, Commit.entry, committedPayload, hfits,
    hproposed, env.fromisoformat_isoformat, leafHashField?, hpattern]

/-- A replayable call that gets to its append commits replayable values only. -/
theorem Call.Commits.fits {call : Call} {commit : Commit} (h : call.Commits commit)
    (hreplayable : call.Replayable env) (hthrough : call.GetsThrough) :
    (∃ proposedBy, commit.proposedBy = .str proposedBy) ∧ Fits commit.value := by
  cases call with
  | updateMetric cmd =>
    obtain ⟨-, -, hvalue, -, hrefs, -, hproposed⟩ := h
    exact ⟨⟨_, hproposed⟩, hvalue ▸ hreplayable hrefs⟩
  | inbound kind payload =>
    cases kind with
    | reconciledDecision =>
      have hdecision : (payload.get? "decision_id").getD (.str "runtime") = .str commit.decisionId := by
        simp [h.1]
      have hgate := (hreplayable hthrough ⟨_, hdecision⟩).2 rfl
      refine ⟨?_, hgate.value commit h⟩
      obtain ⟨text, htext⟩ := (hgate.proposedBy commit h).getD "reconciliation"
      obtain ⟨-, -, -, -, -, -, hproposed⟩ := h
      exact ⟨text, hproposed.trans htext⟩
    | _ => exact h.elim
  | _ => exact h.elim

/-- A replayable call that gets to its append names what it rejects by texts. -/
theorem Call.LacksEvidence.named {call : Call} {decisionId : String} {metricName idempotencyKey : Json}
    (h : call.LacksEvidence (.str decisionId) metricName idempotencyKey) (hreplayable : call.Replayable env)
    (hthrough : call.GetsThrough) : ∃ name key, metricName = .str name ∧ idempotencyKey = .str key := by
  cases call with
  | updateMetric cmd =>
    obtain ⟨-, hname, hkey, -⟩ := h
    exact ⟨_, _, hname, hkey⟩
  | inbound kind payload =>
    cases kind with
    | reconciledDecision =>
      have hdecision : (payload.get? "decision_id").getD (.str "runtime") = .str decisionId := by simp [h.1]
      obtain ⟨⟨name, hname⟩, key, hkey⟩ := ((hreplayable hthrough ⟨_, hdecision⟩).2 rfl).rejected _ _ _ h
      obtain ⟨-, hfirst, hsecond, -⟩ := h
      exact ⟨name, key, Option.some.inj (hfirst.symm.trans hname), Option.some.inj (hsecond.symm.trans hkey)⟩
    | _ => exact h.elim
  | _ => exact h.elim

/-- What a replayable call stores under a decision is replayable. -/
theorem Call.Stores.replayable (hdigest : env.DigestSized) {call : Call} {entry : Entry} {decisionId : String}
    (h : call.Stores env entry) (hreplayable : call.Replayable env) (hthrough : call.GetsThrough)
    (hdecision : entry.decisionId = .str decisionId) : DecisionCore.Replayable env entry.record := by
  rcases h with horigin | ⟨commit, hcommits, hcommit⟩
  · cases horigin with
    | @inbound kind payload eventId hcall =>
      subst hcall
      intro eventType htype
      rw [fieldsOf_record]
      apply (hreplayable hthrough ⟨_, hdecision⟩).1
      rw [PyDict.hasType_iff, Entry.record_get?] at htype
      cases hown : payload.get? "event_type" with
      | none => simpa [hown, Entry.envelope] using htype
      | some value => simpa [hown] using htype
    | @rejected decision metricName idempotencyKey now eventId hlacks =>
      obtain rfl : decision = .str decisionId := hdecision
      obtain ⟨name, key, rfl, rfl⟩ := hlacks.named hreplayable hthrough
      apply Entry.Honest.replayable
      · simp [Entry.Honest, rejectedPayload]
      · simp [FieldsOf, rejectedFields_iff, HasText, HasMoment, rejectedPayload, env.fromisoformat_isoformat]
    | superseded _ =>
      apply Entry.Honest.replayable
      · simp [Entry.Honest, supersededPayload]
      · simp [FieldsOf, supersededFields_iff, supersededPayload, Json.hashable, Dict.contains]
    | published _ hnow =>
      apply Entry.Honest.replayable
      · simp [Entry.Honest, payloadCommon]
      · simp [FieldsOf, rootFields_iff, HasMoment, payloadCommon, hnow, env.fromisoformat_isoformat]
  · obtain ⟨⟨proposedBy, hproposed⟩, hfits⟩ := hcommits.fits hreplayable hthrough
    rw [hcommit]
    exact commit.replayable hdigest _ hproposed hfits

section Runs

variable {maxLeaves : ℤ} {maxSeconds : ℚ} {trace : List (System × Label)} {last : System}

end Runs

/-- A risk signal about the sample's metric that does not say when it occurred. -/
def undatedSignal (severity : ℚ) : PyDict :=
  ⟨[("decision_id", .str "d1"), ("metric_name", .str "roi"), ("risk_level", .str "CRITICAL"),
    ("severity", .float (.fin severity))]⟩

/-- A commit, and a risk signal about it. -/
def commitThenSignal (severity : ℚ) : List Label :=
  uninterrupted (.updateMetric sampleCommand) 2 ++
    uninterrupted (.inbound .riskSignal (undatedSignal severity)) 1

theorem undatedSignal_replayable : Call.Replayable .local (.inbound .riskSignal (undatedSignal (1 / 2))) := by
  rintro - -
  refine ⟨?_, by simp⟩
  intro eventType htype
  obtain rfl : "RiskSignal" = eventType := by simpa [undatedSignal, Inbound.eventType] using htype
  have hseverity : ∃ severity, severityField? .local (.float (.fin (1 / 2))) = some severity :=
    ⟨⟨1 / 2, by norm_num, by norm_num⟩, by simp [severityField?, floatField?]; norm_num⟩
  simpa [FieldsOf, riskFields_iff, HasText, TextIfAny, undatedSignal] using hseverity

end DecisionCore
