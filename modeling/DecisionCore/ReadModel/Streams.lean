import DecisionCore.System.Provenance
import DecisionCore.ReadModel.Policy
import DecisionCore.Application.ScoreboardProjector

/-!
# Streams of conforming runs

When every bus payload conforms to its model, the registries and the projector can read the stream
of every decision: no event of it raises, and a rebuild is the evaluation of the settled registry.
-/

namespace DecisionCore

open CommandHandler MerkleAnchorService MetricsRegistry

variable {env : Env}

/-- The bus payload of the call conforms to its model. -/
def Call.Conforms (env : Env) : Call → Prop
  | .inbound kind payload => kind.Conforms env payload
  | _ => True

theorem Call.Conforms.honest {call : Call} (h : call.Conforms env) : call.Honest := by
  cases call with
  | inbound kind payload => exact Inbound.Conforms.event_type h
  | _ => trivial

/-! ## Events of a stream -/

theorem digitChar_pattern {n : ℕ} (h : n < 16) :
    (fun c : Char ↦ decide ('a' ≤ c ∧ c ≤ 'f' ∨ '0' ≤ c ∧ c ≤ '9')) (Nat.digitChar n) = true := by
  interval_cases n <;> decide

/-- The hex text of a digest is a leaf hash. -/
theorem leafHashPattern_hex {data : Bytes} (h : data.length = 32) : leafHashPattern (hex data) = true := by
  have hlength (bytes : Bytes) : (bytes.flatMap hexByte).length = 2 * bytes.length := by
    induction bytes with
    | nil => rfl
    | cons byte rest ih => rw [List.flatMap_cons, List.length_append, ih, List.length_cons]; simp [hexByte]; omega
  unfold leafHashPattern hex
  rw [String.toList_ofList, Bool.and_eq_true, decide_eq_true_eq, List.all_eq_true]
  refine ⟨by rw [hlength, h], ?_⟩
  intro c hc
  obtain ⟨byte, -, hdigit⟩ := List.mem_flatMap.mp hc
  have hlt : byte.toNat < 256 := byte.toNat_lt
  simp only [hexByte, List.mem_cons, List.not_mem_nil, or_false] at hdigit
  rcases hdigit with rfl | rfl
  · exact digitChar_pattern (by omega)
  · exact digitChar_pattern (Nat.mod_lt _ (by decide))

/-- The registry record of a commit. -/
def Commit.record (env : Env) (commit : Commit) (proposedBy : String) : MetricRecord where
  decisionId := commit.decisionId
  metricName := commit.metricName
  value := commit.value
  proposedBy := proposedBy
  idempotencyKey := commit.idempotencyKey
  evidenceRefs := sortedSet (sorted commit.evidenceRefs)
  status := .committed
  createdAt := commit.now - commit.now % 1000
  leafHash := some (hex (commit.leafHash env))
  supersededBy := none

theorem Commit.entry_honest (commit : Commit) (eventId : String) : (commit.entry env eventId).Honest := by
  simp [Entry.Honest, Commit.entry, committedPayload]

theorem Commit.reads (hdigest : env.DigestSized) (commit : Commit) (eventId : String) {proposedBy : String}
    (hproposed : commit.proposedBy = .str proposedBy) :
    Reads env commit.decisionId (commit.entry env eventId).record (.commit (commit.record env proposedBy)) := by
  have hpattern : leafHashPattern (hex (commit.leafHash env)) = true := leafHashPattern_hex (hdigest _)
  refine .commit ?_ ?_ ?_ ?_ rfl
  · rw [(commit.entry_honest eventId).hasType]
    rfl
  · simp [committedRecord, item, Entry.record_get?, Commit.entry, committedPayload, parse,
      env.fromisoformat_isoformat, bind, Except.bind, MetricRecord.build, hproposed, Json.asStr?,
      leafHashField?, hpattern, Commit.record]
  · simp [Entry.record_get?, Commit.entry, committedPayload, Commit.record]
  · simp [Entry.record_get?, Commit.entry, committedPayload, Commit.record]

/-- A conforming call names its proposer by a text. -/
theorem Call.Commits.proposedBy {call : Call} {commit : Commit} (h : call.Commits commit)
    (hconforms : call.Conforms env) : ∃ proposedBy, commit.proposedBy = .str proposedBy := by
  cases call with
  | updateMetric cmd =>
    obtain ⟨-, -, -, -, -, -, hproposed⟩ := h
    exact ⟨_, hproposed⟩
  | inbound kind payload =>
    cases kind with
    | reconciledDecision =>
      obtain ⟨-, -, -, -, -, -, hproposed⟩ := h
      obtain ⟨text, htext⟩ := Inbound.Conforms.texts hconforms "proposed_by" (by decide)
      exact ⟨text, by simp [hproposed, PyDict.get?_of_text? htext]⟩
    | _ => exact h.elim
  | _ => exact h.elim

/-- A conforming call without evidence names its metric and key by texts. -/
theorem Call.LacksEvidence.texts {call : Call} {decisionId metricName idempotencyKey : Json}
    (h : call.LacksEvidence decisionId metricName idempotencyKey) (hconforms : call.Conforms env) :
    ∃ name key, metricName = .str name ∧ idempotencyKey = .str key := by
  cases call with
  | updateMetric cmd =>
    obtain ⟨-, hname, hkey, -⟩ := h
    exact ⟨_, _, hname, hkey⟩
  | inbound kind payload =>
    cases kind with
    | reconciledDecision =>
      obtain ⟨-, hname, hkey, -⟩ := h
      obtain ⟨name, hnameText⟩ := Inbound.Conforms.texts hconforms "metric_name" (by decide)
      obtain ⟨key, hkeyText⟩ := Inbound.Conforms.texts hconforms "idempotency_key" (by decide)
      exact ⟨name, key, Option.some.inj (hname.symm.trans (PyDict.get?_of_text? hnameText)),
        Option.some.inj (hkey.symm.trans (PyDict.get?_of_text? hkeyText))⟩
    | _ => exact h.elim
  | _ => exact h.elim

/-- The registry record of a rejection. -/
def rejection (decisionId name key : String) (now : Instant) : MetricRecord where
  decisionId := decisionId
  metricName := name
  value := .null
  proposedBy := "unknown"
  idempotencyKey := key
  evidenceRefs := []
  status := .rejected
  createdAt := now - now % 1000
  leafHash := none
  supersededBy := none

theorem rejection_reads (decisionId eventId name key : String) (stored : Json) (now : Instant) :
    Reads env decisionId (Entry.record ⟨eventId, stored, "MetricRejected",
      rejectedPayload env stored (.str name) (.str key) now, none⟩)
      (.reject (rejection decisionId name key now)) := by
  have honest : Entry.Honest ⟨eventId, stored, "MetricRejected",
      rejectedPayload env stored (.str name) (.str key) now, none⟩ := by
    simp [Entry.Honest, rejectedPayload]
  refine .reject ?_ ?_ ?_ rfl
  · rw [honest.hasType]
    rfl
  · simp [rejectedRecord, item, Entry.record_get?, rejectedPayload, parse, env.fromisoformat_isoformat, bind,
      Except.bind, MetricRecord.build, Json.asStr?, Json.asStrList?, leafHashField?, rejection]
    rfl
  · simp [Entry.record_get?, rejectedPayload, rejection]

theorem supersession_reads (decisionId eventId : String) (now : Instant) (args : SupersedeArgs) :
    Reads env decisionId (supersessionEntry env eventId now args).record
      (.supersede args.metricName (.str args.supersedingIdempotencyKey)) := by
  have honest : (supersessionEntry env eventId now args).Honest := by
    simp [Entry.Honest, supersessionEntry, supersededPayload]
  refine .supersede ?_ ?_ ?_
  · rw [honest.hasType]
    rfl
  · simp [Entry.record_get?, supersessionEntry, supersededPayload]
  · simp [Entry.record_get?, supersessionEntry, supersededPayload]

/-- An honest entry of another type means nothing to the registry. -/
theorem Entry.Honest.skip {entry : Entry} (h : entry.Honest) (decisionId : String)
    (hcommit : entry.eventType ≠ "MetricCommitted") (hreject : entry.eventType ≠ "MetricRejected")
    (hsupersede : entry.eventType ≠ "MetricSuperseded") : Reads env decisionId entry.record .skip :=
  .skip (by rw [h.hasType]; exact decide_eq_false hcommit) (by rw [h.hasType]; exact decide_eq_false hreject)
    (by rw [h.hasType]; exact decide_eq_false hsupersede)

theorem Inbound.eventType_ne_registry (kind : Inbound) : kind.eventType ≠ "MetricCommitted" ∧
    kind.eventType ≠ "MetricRejected" ∧ kind.eventType ≠ "MetricSuperseded" ∧
    kind.eventType ≠ "MerkleRootPublished" := by
  cases kind <;> decide

/-- Every entry a conforming call stores under a decision can be read by the registry. -/
theorem Call.Stores.reads (hdigest : env.DigestSized) {call : Call} {entry : Entry} {decisionId : String}
    (h : call.Stores env entry) (hconforms : call.Conforms env) (hdecision : entry.decisionId = .str decisionId) :
    ∃ change, Reads env decisionId entry.record change := by
  have honest := h.honest hconforms.honest
  rcases h with horigin | ⟨commit, hcommits, hcommit⟩
  · cases horigin with
    | @inbound kind payload eventId _ =>
      obtain ⟨hcommit, hreject, hsupersede, -⟩ := kind.eventType_ne_registry
      exact ⟨_, honest.skip decisionId hcommit hreject hsupersede⟩
    | rejected hlacks =>
      obtain ⟨name, key, rfl, rfl⟩ := hlacks.texts hconforms
      exact ⟨_, rejection_reads decisionId _ name key _ _⟩
    | @superseded args now eventId _ => exact ⟨_, supersession_reads decisionId eventId now args⟩
    | published _ _ =>
      exact ⟨_, honest.skip decisionId (by simp) (by simp) (by simp)⟩
  · obtain ⟨proposedBy, hproposed⟩ := hcommits.proposedBy hconforms
    rw [hcommit] at hdecision ⊢
    obtain rfl : commit.decisionId = decisionId := Json.str.inj hdecision
    exact ⟨_, commit.reads hdigest _ hproposed⟩

/-- Every risk signal a conforming call stores can be read by the risk matrix. -/
theorem Call.Stores.readsRisk {call : Call} {entry : Entry} (h : call.Stores env entry)
    (hconforms : call.Conforms env) (decisionId : String)
    (htype : entry.record.hasType "RiskSignal" = true) :
    ∃ risk, RiskMatrix.entryOf env decisionId entry.record = .ok risk := by
  have honest := h.honest hconforms.honest
  rw [honest.hasType, decide_eq_true_eq] at htype
  rcases h with horigin | ⟨commit, -, hcommit⟩
  · cases horigin with
    | @inbound kind payload eventId hcall =>
      subst hcall
      obtain rfl : kind = .riskSignal := by
        cases kind <;> first | rfl | exact absurd htype (by simp [Inbound.eventType])
      obtain ⟨name, hname⟩ := Inbound.Conforms.texts hconforms "metric_name" (by decide)
      obtain ⟨level, hlevel⟩ := Inbound.Conforms.texts hconforms "risk_level" (by decide)
      apply @RiskMatrix.exists_entryOf env decisionId _ name level
      · simpa [Entry.record_get?, Entry.envelope] using PyDict.get?_of_text? hname
      · simp [Entry.record_get?, Entry.envelope, PyDict.get?_of_text? hlevel]
      · simpa [Entry.record_get?, Entry.envelope] using Inbound.Conforms.severity hconforms rfl
      · simpa [Entry.record_get?, Entry.envelope] using
          Inbound.Conforms.textLists hconforms "contradiction_flags" (by decide)
    | _ => exact absurd htype (by simp)
  · rw [hcommit] at htype
    exact absurd htype (by simp [Commit.entry])

/-- Every publication carries a root and a moment. -/
theorem Call.Stores.readsRoot {call : Call} {entry : Entry} (h : call.Stores env entry)
    (hconforms : call.Conforms env) (htype : entry.record.hasType "MerkleRootPublished" = true) :
    ∃ root text moment, entry.record.get? "root" = some (.str root) ∧
      entry.record.get? "anchor_timestamp" = some (.str text) ∧ env.fromisoformat text = some moment := by
  have honest := h.honest hconforms.honest
  rw [honest.hasType, decide_eq_true_eq] at htype
  rcases h with horigin | ⟨commit, -, hcommit⟩
  · cases horigin with
    | @inbound kind payload eventId _ => exact absurd htype kind.eventType_ne_registry.2.2.2
    | @published stamped decisionId eventId now _ hnow =>
      exact ⟨hex stamped.job.root, stamped.timestampIso, _, by simp [Entry.record_get?, payloadCommon],
        by simp [Entry.record_get?, payloadCommon], by rw [hnow, env.fromisoformat_isoformat]⟩
    | _ => exact absurd htype (by simp)
  · rw [hcommit] at htype
    exact absurd htype (by simp [Commit.entry])

/-- Events that can all be read, read as a list of changes. -/
theorem exists_changes {decisionId : String} {log : List PyDict}
    (h : ∀ evt ∈ log, ∃ change, Reads env decisionId evt change) :
    ∃ changes, List.Forall₂ (Reads env decisionId) log changes := by
  induction log with
  | nil => exact ⟨[], .nil⟩
  | cons evt rest ih =>
    obtain ⟨change, hchange⟩ := h evt List.mem_cons_self
    obtain ⟨changes, hchanges⟩ := ih fun other hother ↦ h other (List.mem_cons_of_mem _ hother)
    exact ⟨change :: changes, .cons hchange hchanges⟩

/-! ## Readable streams -/

/-- No event of the stream raises in a rebuild. -/
structure Readable (env : Env) (decisionId : String) (log : List PyDict) : Prop where
  registry : ∀ evt ∈ log, ∃ change, Reads env decisionId evt change
  risks : ∀ evt ∈ log, evt.hasType "RiskSignal" = true → ∃ risk, RiskMatrix.entryOf env decisionId evt = .ok risk
  roots : ∀ evt ∈ log, evt.hasType "MerkleRootPublished" = true → ∃ root text moment,
    evt.get? "root" = some (.str root) ∧ evt.get? "anchor_timestamp" = some (.str text) ∧
      env.fromisoformat text = some moment

/-- The risk matrix of a stream whose risk signals can be read. -/
theorem riskMatrix_ok {decisionId : String} {log : List PyDict}
    (h : ∀ evt ∈ log, evt.hasType "RiskSignal" = true → ∃ risk, RiskMatrix.entryOf env decisionId evt = .ok risk) :
    ∃ risks, RiskMatrix.reconstruct env decisionId log = .ok risks := by
  induction log with
  | nil => exact ⟨[], rfl⟩
  | cons evt rest ih =>
    obtain ⟨risks, hrisks⟩ := ih fun other hother ↦ h other (List.mem_cons_of_mem _ hother)
    by_cases htype : evt.hasType "RiskSignal" = true
    · obtain ⟨risk, hrisk⟩ := h evt List.mem_cons_self htype
      exact ⟨risk :: risks, by simp [RiskMatrix.reconstruct, htype, hrisk, hrisks, bind, Except.bind, pure,
        Except.pure]⟩
    · exact ⟨risks, by simp [RiskMatrix.reconstruct, htype, hrisks]⟩

/-- The streams of a conforming run are readable. -/
theorem Run.readable {maxLeaves : ℤ} {maxSeconds : ℚ} {trace : List (System × Label)} {last : System}
    (run : Run (System.step env) (System.initial maxLeaves maxSeconds) trace last)
    (conforms : Along (fun _ label ↦ label.Starts (Call.Conforms env)) trace) (hdigest : env.DigestSized)
    (decisionId : String) : Readable env decisionId (last.state.auditTrail.readRange decisionId 0) := by
  have hstored := (run.storedBy conforms).2
  have hread : ∀ evt ∈ last.state.auditTrail.readRange decisionId 0, ∃ call entry, Call.Conforms env call ∧
      call.Stores env entry ∧ entry.decisionId = .str decisionId ∧ evt = entry.record := by
    intro evt hevt
    obtain ⟨entry, hentry, rfl⟩ := List.mem_map.mp hevt
    obtain ⟨hmem, hdecision⟩ := MemoryAuditTrail.mem_entriesOf.mp hentry
    obtain ⟨call, hconforms, hstores⟩ := hstored entry hmem
    exact ⟨call, entry, hconforms, hstores, hdecision, rfl⟩
  refine ⟨?_, ?_, ?_⟩
  · intro evt hevt
    obtain ⟨call, entry, hconforms, hstores, hdecision, rfl⟩ := hread evt hevt
    exact hstores.reads hdigest hconforms hdecision
  · intro evt hevt htype
    obtain ⟨call, entry, hconforms, hstores, -, rfl⟩ := hread evt hevt
    exact hstores.readsRisk hconforms decisionId htype
  · intro evt hevt htype
    obtain ⟨call, entry, hconforms, hstores, -, rfl⟩ := hread evt hevt
    exact hstores.readsRoot hconforms htype

namespace Readable

variable {decisionId : String} {log : List PyDict}

theorem changes (h : Readable env decisionId log) :
    ∃ changes, List.Forall₂ (Reads env decisionId) log changes :=
  exists_changes h.registry

theorem riskSignals (h : Readable env decisionId log) :
    ∃ risks, RiskMatrix.reconstruct env decisionId log = .ok risks :=
  riskMatrix_ok h.risks

theorem root (h : Readable env decisionId log) :
    ∃ (root : Option String) (moment : Option Instant),
      ScoreboardProjector.merkleRootRef log = .ok (root.map Json.str) ∧
      ScoreboardProjector.merkleTimestamp env log = .ok moment := by
  cases hlast : ScoreboardProjector.lastRootEvent log with
  | none => exact ⟨none, none, by simp [ScoreboardProjector.merkleRootRef, hlast],
      by simp [ScoreboardProjector.merkleTimestamp, hlast]⟩
  | some evt =>
    have hmem : evt ∈ log := List.mem_reverse.mp (List.mem_of_find?_eq_some hlast)
    have htype : ScoreboardProjector.isRootEvent evt = true := List.find?_some hlast
    obtain ⟨root, text, moment, hroot, htext, hmoment⟩ := h.roots evt hmem htype
    exact ⟨some root, some moment, by simp [ScoreboardProjector.merkleRootRef, hlast, item_eq hroot, Except.map],
      by simp [ScoreboardProjector.merkleTimestamp, hlast, item_eq htext, parse, hmoment, bind, Except.bind,
        pure, Except.pure]⟩

/-- The board of a readable stream. -/
def board (decisionId : String) (metrics : Metrics) (root : Option String) (moment : Option Instant)
    (rebuiltAt : Instant) (rebuildSeq : ℕ) (verdict : PolicyVerdictResult) : ScoreboardState where
  decisionId := decisionId
  trustScore := verdict.trustScore
  policyVerdict := verdict.status
  metrics := ScoreboardProjector.viewsOf metrics
  merkleRootRef := root
  merkleTimestamp := moment
  rebuiltAt := rebuiltAt
  rebuildSeq := rebuildSeq

/-- A rebuild of a readable stream evaluates the policy on the settled registry. -/
theorem project_eq (requiredMetrics : List String) (rebuiltAt : Instant) {changes : List Change}
    {risks : List RiskSignalEntry} {root : Option String} {moment : Option Instant}
    (hchanges : List.Forall₂ (Reads env decisionId) log changes)
    (hrisks : RiskMatrix.reconstruct env decisionId log = .ok risks)
    (hroot : ScoreboardProjector.merkleRootRef log = .ok (root.map Json.str))
    (hmoment : ScoreboardProjector.merkleTimestamp env log = .ok moment) :
    ScoreboardProjector.project env decisionId requiredMetrics rebuiltAt log =
      (PolicyEvaluator.evaluatePolicy requiredMetrics (settle .empty changes) risks none .default).map
        (board decisionId (settle .empty changes) root moment rebuiltAt log.length) := by
  have hfield : ScoreboardProjector.rootField (root.map Json.str) = .ok root := by cases root <;> rfl
  have hmetrics : reconstruct env decisionId log = .ok (settle .empty changes) :=
    replay_eq_settle hchanges .empty
  simp only [ScoreboardProjector.project, hmetrics, hrisks, hroot, hmoment, bind, Except.bind, pure, Except.pure]
  cases PolicyEvaluator.evaluatePolicy requiredMetrics (settle .empty changes) risks none .default with
  | error error => rfl
  | ok verdict =>
    simp only [hfield]
    rfl

end Readable

end DecisionCore
