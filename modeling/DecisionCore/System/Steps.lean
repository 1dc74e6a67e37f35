import DecisionCore.System.Tasks

/-!
# What a step can do

Every segment either appends at most one event to the trail, or moves one leaf into the open batch,
or closes the open batch, or writes one row, or marks one batch.  `resume_cases` says this once, with
the call every stored event stems from; the invariants of the system are derived from it.
-/

namespace DecisionCore

open CommandHandler MerkleAnchorService

variable {env : Env}

/-! ## Where entries come from -/

/-- The texts and values of one commit. -/
structure Commit where
  decisionId : String
  metricName : String
  value : Json
  evidenceRefs : List String
  idempotencyKey : String
  proposedBy : Json
  now : Instant

namespace Commit

def leafHash (env : Env) (commit : Commit) : Bytes :=
  computeLeafHash env commit.decisionId commit.metricName commit.value (env.isoformat commit.now)
    commit.evidenceRefs commit.idempotencyKey

def entry (env : Env) (commit : Commit) (eventId : String) : Entry where
  eventId := eventId
  decisionId := .str commit.decisionId
  eventType := "MetricCommitted"
  payload := committedPayload commit.decisionId commit.metricName commit.value commit.evidenceRefs
    commit.idempotencyKey (hex (commit.leafHash env)) (env.isoformat commit.now) commit.proposedBy
  idempotencyKey := some commit.idempotencyKey

def leaf (env : Env) (commit : Commit) (eventId : String) : PendingLeaf :=
  ⟨commit.leafHash env, eventId, commit.decisionId⟩

def addLeaf (env : Env) (commit : Commit) (eventId : String) : AddLeafStep :=
  ⟨commit.leaf env eventId, commit.metricName, timestamp commit.now⟩

end Commit

/-- The evidence a reconciled decision carries. -/
def reconciledEvidence (payload : PyDict) : Json := (payload.get? "evidence_refs").getD (.list [])

/-- The call asks for this commit. -/
def Call.Commits (call : Call) (commit : Commit) : Prop :=
  match call with
  | .updateMetric cmd =>
    commit.decisionId = cmd.decisionId ∧ commit.metricName = cmd.metricName ∧ commit.value = cmd.value ∧
      commit.evidenceRefs = cmd.evidenceRefs ∧ cmd.evidenceRefs ≠ [] ∧
      commit.idempotencyKey = cmd.idempotencyKey ∧ commit.proposedBy = .str cmd.proposedBy
  | .inbound .reconciledDecision payload =>
    payload.get? "decision_id" = some (.str commit.decisionId) ∧
      payload.get? "metric_name" = some (.str commit.metricName) ∧
      payload.get? "final_value" = some commit.value ∧
      (reconciledEvidence payload).iterStrs? = some commit.evidenceRefs ∧
      (reconciledEvidence payload).truthy = true ∧
      payload.get? "idempotency_key" = some (.str commit.idempotencyKey) ∧
      commit.proposedBy = (payload.get? "proposed_by").getD (.str "reconciliation")
  | _ => False

/-- The call is a request without evidence for this decision, metric and key. -/
def Call.LacksEvidence (call : Call) (decisionId metricName idempotencyKey : Json) : Prop :=
  match call with
  | .updateMetric cmd =>
    decisionId = .str cmd.decisionId ∧ metricName = .str cmd.metricName ∧
      idempotencyKey = .str cmd.idempotencyKey ∧ cmd.evidenceRefs = []
  | .inbound .reconciledDecision payload =>
    payload.get? "decision_id" = some decisionId ∧ payload.get? "metric_name" = some metricName ∧
      payload.get? "idempotency_key" = some idempotencyKey ∧
      (reconciledEvidence payload).truthy = false
  | _ => False

/-- The entries a call can store, apart from commits. -/
inductive Origin (env : Env) (call : Call) : Entry → Prop
  | inbound {kind : Inbound} {payload : PyDict} {eventId : String} :
    call = .inbound kind payload →
    Origin env call ⟨eventId, (payload.get? "decision_id").getD (.str "runtime"), kind.eventType,
      payload, none⟩
  | rejected {decisionId metricName idempotencyKey : Json} {now : Instant} {eventId : String} :
    call.LacksEvidence decisionId metricName idempotencyKey →
    Origin env call ⟨eventId, decisionId, "MetricRejected",
      rejectedPayload env decisionId metricName idempotencyKey now, none⟩
  | superseded {args : SupersedeArgs} {now : Instant} {eventId : String} :
    call = .supersede args →
    Origin env call ⟨eventId, .str args.decisionId, "MetricSuperseded", supersededPayload env now args,
      some args.supersedingIdempotencyKey⟩
  | published {stamped : StampedJob} {decisionId eventId : String} {now : Instant} :
    call.isCloser = true → stamped.timestampIso = env.isoformat now →
    Origin env call ⟨eventId, .str decisionId, "MerkleRootPublished", payloadCommon stamped, none⟩

theorem Inbound.eventType_ne_committed (kind : Inbound) : kind.eventType ≠ "MetricCommitted" := by
  cases kind <;> decide

theorem Origin.eventType_ne_committed {call : Call} {entry : Entry} (h : Origin env call entry) :
    entry.eventType ≠ "MetricCommitted" := by
  cases h with
  | inbound _ => exact Inbound.eventType_ne_committed _
  | rejected _ => exact (by decide : "MetricRejected" ≠ "MetricCommitted")
  | superseded _ => exact (by decide : "MetricSuperseded" ≠ "MetricCommitted")
  | published _ _ => exact (by decide : "MerkleRootPublished" ≠ "MetricCommitted")

/-! ## Appending segments -/

/-- One append at most, under a freshly drawn identifier.  Beside the trail only the staging area
and the count of drawn identifiers may change. -/
structure Appends (env : Env) (state next : AppState) (stored : Option Entry) : Prop where
  events : next.auditTrail.events = state.auditTrail.events ++ stored.toList
  batched : next.auditTrail.batched = state.auditTrail.batched
  builder : next.merkleBuilder = state.merkleBuilder
  store : next.projectionStore = state.projectionStore
  drawn : state.drawn + stored.toList.length ≤ next.drawn
  eventId : ∀ entry ∈ stored, entry.eventId = env.uuid4 state.drawn
  unseen : ∀ entry ∈ stored, ∀ key, entry.idempotencyKey = some key →
    state.auditTrail.idempotencyIndex.get? key = none
  index : ∀ key, next.auditTrail.idempotencyIndex.get? key =
    if stored.bind (·.idempotencyKey) = some key then stored.map (·.eventId)
    else state.auditTrail.idempotencyIndex.get? key

namespace Appends

variable {state next : AppState} {stored : Option Entry}

theorem refl (state : AppState) : Appends env state state none := by
  constructor <;> simp

theorem of_staging {staging : Staging} (h : Appends env { state with staging } next stored) :
    Appends env state next stored :=
  ⟨h.events, h.batched, h.builder, h.store, h.drawn, h.eventId, h.unseen, h.index⟩

end Appends

section Append

variable {state : AppState} {decisionId : Json} {eventType : String} {payload : PyDict}

/-- A stored append. -/
theorem append_fresh {key : Option String} (hexisting : state.auditTrail.existing? key = none)
    (hhash : key = none ∨ decisionId.hashable = true) :
    Appends env state (state.append env decisionId eventType payload key).1
      (some ⟨env.uuid4 state.drawn, decisionId, eventType, payload, key⟩) := by
  have hevents : (state.append env decisionId eventType payload key).1.auditTrail.events =
      state.auditTrail.events ++ [⟨env.uuid4 state.drawn, decisionId, eventType, payload, key⟩] := by
    rcases MemoryAuditTrail.append_events_cases state.auditTrail (env.uuid4 state.drawn) decisionId
      eventType payload key with ⟨-, hsome⟩ | ⟨hevents, -⟩
    · simp [hexisting] at hsome
    · exact hevents
  have hindex : (state.append env decisionId eventType payload key).1.auditTrail.idempotencyIndex =
      state.auditTrail.indexWith key (env.uuid4 state.drawn) := by
    by_cases hash : decisionId.hashable = true
    · simp [AppState.append, MemoryAuditTrail.append_of_fresh hexisting hash]
    · obtain rfl := hhash.resolve_right hash
      simp [AppState.append, MemoryAuditTrail.append, MemoryAuditTrail.indexWith, hash]
  refine ⟨by simpa using hevents, MemoryAuditTrail.append_batched, rfl, rfl, le_rfl, by simp, ?_, ?_⟩
  · intro entry hentry key' hkey
    obtain rfl := (Option.some.inj hentry).symm
    obtain rfl : key = some key' := hkey
    exact hexisting
  · intro key'
    rw [hindex]
    cases key with
    | none => simp [MemoryAuditTrail.indexWith]
    | some key => simp [MemoryAuditTrail.indexWith]

/-- An append under a key that is already known stores nothing. -/
theorem append_known {key existing : String}
    (hexisting : state.auditTrail.existing? (some key) = some existing) :
    Appends env state (state.append env decisionId eventType payload (some key)).1 none := by
  simp only [AppState.append, MemoryAuditTrail.append_of_existing hexisting]
  constructor <;> simp

/-- The answer of an append under a key. -/
theorem append_result_pair (env : Env) (state : AppState) (eventType : String) (payload : PyDict)
    (key : String) (hash : decisionId.hashable = true) :
    state.append env decisionId eventType payload (some key) =
      ((state.append env decisionId eventType payload (some key)).1,
        .ok (match state.auditTrail.existing? (some key) with
          | some existing => ⟨existing, true, some existing⟩
          | none => ⟨env.uuid4 state.drawn, false, none⟩)) := by
  cases hexisting : state.auditTrail.existing? (some key) with
  | some existing => simp only [AppState.append, MemoryAuditTrail.append_of_existing hexisting]
  | none => simp only [AppState.append, MemoryAuditTrail.append_of_fresh hexisting hash]

theorem append_unkeyed (env : Env) (state : AppState) (decisionId : Json) (eventType : String)
    (payload : PyDict) :
    Appends env state (state.append env decisionId eventType payload none).1
      (some ⟨env.uuid4 state.drawn, decisionId, eventType, payload, none⟩) :=
  append_fresh rfl (.inl rfl)

theorem append_unkeyed_ok (hash : decisionId.hashable = true) (state : AppState) (eventType : String)
    (payload : PyDict) :
    state.append env decisionId eventType payload none =
      ((state.append env decisionId eventType payload none).1, .ok ⟨env.uuid4 state.drawn, false, none⟩) := by
  simp only [AppState.append, MemoryAuditTrail.append_of_fresh MemoryAuditTrail.existing?_none hash]

end Append

/-! ## Segments of the handlers -/

section Handlers

variable {state : AppState} {now : Instant} {payload : PyDict}

theorem field_ok {key : String} {value : Json} (h : field payload key = .ok value) :
    payload.get? key = some value := by
  unfold field at h
  split at h
  · rename_i found hfound
    rw [hfound, Except.ok.inj h]
  · cases h

theorem stagingKey_ok {decisionId : Json} {key : PyKey × PyKey}
    (h : stagingKey payload = .ok (decisionId, key)) :
    payload.get? "decision_id" = some decisionId ∧ decisionId.hashable = true := by
  simp only [stagingKey, bind_eq_ok] at h
  obtain ⟨found, hdecision, metricName, -, hkeys⟩ := h
  split at hkeys
  · rename_i decisionKey metricKey hdecisionKey hmetricKey
    obtain ⟨rfl, -⟩ := Prod.mk.inj (Except.ok.inj hkeys)
    refine ⟨field_ok hdecision, ?_⟩
    cases found <;> first | rfl | cases hdecisionKey
  · cases hkeys

/-- A staging handler stores a payload whose staging key can be formed. -/
theorem stageAndAppend_ok (env : Env) (state : AppState) {decisionId : Json} {key : PyKey × PyKey}
    (hkey : stagingKey payload = .ok (decisionId, key)) (eventType : String) (stage : Option PyDict → PyDict) :
    ∃ next, stageAndAppend env state eventType payload stage = (next, .ok ()) ∧
      Appends env state next (some ⟨env.uuid4 state.drawn, decisionId, eventType, payload, none⟩) := by
  let staged : AppState :=
    { state with staging := state.staging.set key (stage (state.staging.get? key)) }
  have happends : Appends env staged (staged.append env decisionId eventType payload none).1
      (some ⟨env.uuid4 staged.drawn, decisionId, eventType, payload, none⟩) :=
    append_unkeyed env staged decisionId eventType payload
  refine ⟨(staged.append env decisionId eventType payload none).1, ?_, happends.of_staging⟩
  have hcall : stageAndAppend env state eventType payload stage =
      discard (staged.append env decisionId eventType payload none) := by
    simp only [stageAndAppend, hkey, staged]
  rw [hcall, append_unkeyed_ok (stagingKey_ok hkey).2]
  rfl

/-- A staging handler that does not raise stores the payload as an event of its type. -/
theorem stageAndAppend_cases (env : Env) (state : AppState) (payload : PyDict) (eventType : String)
    (stage : Option PyDict → PyDict) :
    ∃ stored, Appends env state (stageAndAppend env state eventType payload stage).1 stored ∧
      ∀ entry ∈ stored, entry = ⟨env.uuid4 state.drawn,
        (payload.get? "decision_id").getD (.str "runtime"), eventType, payload, none⟩ := by
  unfold stageAndAppend
  cases hkey : stagingKey payload with
  | error error => exact ⟨none, .refl state, by simp⟩
  | ok found =>
    obtain ⟨decisionId, key⟩ := found
    refine ⟨_, (append_unkeyed env _ decisionId eventType payload).of_staging, ?_⟩
    rintro entry ⟨⟩
    simp [(stagingKey_ok hkey).1]

/-- A bus handler other than the one for reconciled decisions stores at most its own payload. -/
theorem onInbound_cases (env : Env) (state : AppState) (now : Instant) (payload : PyDict)
    {kind : Inbound} (hkind : kind ≠ .reconciledDecision) :
    ∃ stored, Appends env state (onInbound env state now kind payload).1 stored ∧
      ∀ entry ∈ stored, entry = ⟨env.uuid4 state.drawn,
        (payload.get? "decision_id").getD (.str "runtime"), kind.eventType, payload, none⟩ := by
  have happend (eventType : String) :
      ∃ stored, Appends env state (appendInbound env state eventType payload).1 stored ∧
        ∀ entry ∈ stored, entry = ⟨env.uuid4 state.drawn,
          (payload.get? "decision_id").getD (.str "runtime"), eventType, payload, none⟩ := by
    unfold appendInbound
    cases hdecision : field payload "decision_id" with
    | error error => exact ⟨none, .refl state, by simp⟩
    | ok decisionId =>
      refine ⟨_, append_unkeyed _ _ _ _ _, ?_⟩
      rintro entry ⟨⟩
      simp [field_ok hdecision]
  have hruntime (eventType : String) :
      ∃ stored, Appends env state (appendRuntime env state eventType payload).1 stored ∧
        ∀ entry ∈ stored, entry = ⟨env.uuid4 state.drawn,
          (payload.get? "decision_id").getD (.str "runtime"), eventType, payload, none⟩ := by
    refine ⟨_, append_unkeyed _ _ _ _ _, ?_⟩
    rintro entry ⟨⟩
    rfl
  cases kind with
  | metricProposed => exact stageAndAppend_cases _ _ _ _ _
  | debateOutcome => exact stageAndAppend_cases _ _ _ _ _
  | riskSignal => exact stageAndAppend_cases _ _ _ _ _
  | reconciledDecision => exact absurd rfl hkind
  | evidenceAttached => exact happend _
  | goalCreated => exact happend _
  | goalCancelled => exact happend _
  | runtimeArtifactDeployed => exact hruntime _
  | runtimeConfigUpdated => exact hruntime _

/-- The handler of a reconciled decision goes on with its gate once the payload is stored. -/
theorem onReconciledDecision_of_entry {middle : AppState} (h : reconciledEntry env state payload = (middle, .ok ())) :
    onReconciledDecision env state now payload = discard (finish (reconciledGate env middle now payload)) := by
  rw [onReconciledDecision, h]

/-- The entry of a supersession. -/
def supersessionEntry (env : Env) (eventId : String) (now : Instant) (args : SupersedeArgs) : Entry where
  eventId := eventId
  decisionId := .str args.decisionId
  eventType := "MetricSuperseded"
  payload := supersededPayload env now args
  idempotencyKey := some args.supersedingIdempotencyKey

/-- A supersession is stored unless its key is known. -/
theorem supersedeMetric_appends (env : Env) (state : AppState) (now : Instant) (args : SupersedeArgs) :
    Appends env state (supersedeMetric env state now args).1
      (if (state.auditTrail.existing? (some args.supersedingIdempotencyKey)).isSome then none
        else some (supersessionEntry env (env.uuid4 state.drawn) now args)) := by
  cases hexisting : state.auditTrail.existing? (some args.supersedingIdempotencyKey) with
  | some existing => exact append_known hexisting
  | none => exact append_fresh hexisting (.inr rfl)

/-- The first segment of `_commit` on a commit whose fields have their types. -/
def Commit.segment (env : Env) (commit : Commit) (state : AppState) : AppState × Except PyError Progress :=
  ((state.append env (.str commit.decisionId) "MetricCommitted" (commit.entry env "").payload
      (some commit.idempotencyKey)).1,
    .ok (if (state.auditTrail.existing? (some commit.idempotencyKey)).isSome
      then .done (some ⟨.duplicateIgnored, none⟩) else .addLeaf (commit.addLeaf env (env.uuid4 state.drawn))))

theorem Commit.segment_appends (env : Env) (commit : Commit) (state : AppState) :
    Appends env state (commit.segment env state).1
      (if (state.auditTrail.existing? (some commit.idempotencyKey)).isSome then none
        else some (commit.entry env (env.uuid4 state.drawn))) := by
  cases hexisting : state.auditTrail.existing? (some commit.idempotencyKey) with
  | some existing => exact append_known hexisting
  | none => exact append_fresh hexisting (.inr rfl)

theorem commitAppend_eq (env : Env) (state : AppState) (commit : Commit) {evidenceRefs : Json}
    (hrefs : evidenceRefs.iterStrs? = some commit.evidenceRefs) :
    commitAppend env state commit.now (.str commit.decisionId) (.str commit.metricName) commit.value evidenceRefs
      (.str commit.idempotencyKey) commit.proposedBy = commit.segment env state := by
  simp only [commitAppend, Json.asStr?, hrefs]
  rw [append_result_pair env state "MetricCommitted" _ _ rfl]
  simp only [Commit.segment]
  cases state.auditTrail.existing? (some commit.idempotencyKey) <;> rfl

/-- The gate of a decision with evidence commits its final value. -/
theorem reconciledGate_commits (env : Env) (state : AppState) {commit : Commit}
    (h : (Call.inbound .reconciledDecision payload).Commits commit) :
    reconciledGate env state commit.now payload = commit.segment env state := by
  obtain ⟨hdecision, hmetric, hvalue, hrefs, htruthy, hkey, hproposed⟩ := h
  rw [← commitAppend_eq env state commit hrefs, hproposed]
  unfold reconciledEvidence at htruthy ⊢
  simp only [reconciledGate, htruthy, if_true, field, hdecision, hmetric, hvalue, hkey]

/-- When a commit happens is not part of what a call asks for. -/
theorem reconciledGate_commits_at (env : Env) (state : AppState) (now : Instant) {commit : Commit}
    (h : (Call.inbound .reconciledDecision payload).Commits commit) :
    reconciledGate env state now payload = ({ commit with now } : Commit).segment env state := by
  obtain ⟨hdecision, hmetric, hvalue, hrefs, htruthy, hkey, hproposed⟩ := h
  have hasked : (Call.inbound .reconciledDecision payload).Commits { commit with now } :=
    ⟨hdecision, hmetric, hvalue, hrefs, htruthy, hkey, hproposed⟩
  have hgate := reconciledGate_commits env state hasked
  exact hgate

/-- The gate of a decision without evidence stores the rejection. -/
theorem reconciledGate_rejects (env : Env) (state : AppState) (now : Instant)
    {decisionId metricName idempotencyKey : Json} (hash : decisionId.hashable = true)
    (h : (Call.inbound .reconciledDecision payload).LacksEvidence decisionId metricName idempotencyKey) :
    reconciledGate env state now payload = ((state.append env decisionId "MetricRejected"
      (rejectedPayload env decisionId metricName idempotencyKey now) none).1, .ok (.done none)) := by
  obtain ⟨hdecision, hmetric, hkey, hlacks⟩ := h
  unfold reconciledEvidence at hlacks
  simp only [reconciledGate, hlacks, Bool.false_eq_true, if_false, field, hdecision, hmetric, hkey]
  rw [append_unkeyed_ok hash]

/-- What the first segment of `_commit` does: raise before storing anything, ignore a known key, or
store the commit and leave its leaf to be added. -/
inductive CommitSegment (env : Env) (state : AppState) (commits : Commit → Prop) :
    AppState × Except PyError Progress → Prop
  | raised {error : PyError} : CommitSegment env state commits (state, .error error)
  | duplicate {next : AppState} : Appends env state next none →
    CommitSegment env state commits (next, .ok (.done (some ⟨.duplicateIgnored, none⟩)))
  | stored {next : AppState} {commit : Commit} : commits commit →
    Appends env state next (some (commit.entry env (env.uuid4 state.drawn))) →
    CommitSegment env state commits (next, .ok (.addLeaf (commit.addLeaf env (env.uuid4 state.drawn))))

/-- Type errors aside, `_commit` appends under the caller's key. -/
theorem commitAppend_cases {decisionId metricName value evidenceRefs idempotencyKey proposedBy : Json}
    {commits : Commit → Prop}
    (hcommits : ∀ commit : Commit, decisionId = .str commit.decisionId →
      metricName = .str commit.metricName → commit.value = value →
      evidenceRefs.iterStrs? = some commit.evidenceRefs →
      idempotencyKey = .str commit.idempotencyKey → commit.proposedBy = proposedBy → commits commit) :
    CommitSegment env state commits (commitAppend env state now decisionId metricName value
      evidenceRefs idempotencyKey proposedBy) := by
  unfold commitAppend
  split
  · rename_i decisionId' metricName' refs idempotencyKey' hdecision hmetric hrefs hkey
    let commit : Commit := ⟨decisionId', metricName', value, refs, idempotencyKey', proposedBy, now⟩
    have hcommit : commits commit := hcommits commit (by simpa using hdecision)
      (by simpa using hmetric) rfl hrefs (by simpa using hkey) rfl
    have hpair := append_result_pair env state "MetricCommitted" (committedPayload decisionId' metricName'
      value refs idempotencyKey' (hex (computeLeafHash env decisionId' metricName' value
        (env.isoformat now) refs idempotencyKey')) (env.isoformat now) proposedBy) idempotencyKey'
      (rfl : (Json.str decisionId').hashable = true)
    dsimp only
    rw [hpair]
    cases hexisting : state.auditTrail.existing? (some idempotencyKey') with
    | some existing => exact .duplicate (append_known hexisting)
    | none =>
      have happends : Appends env state (state.append env (.str decisionId') "MetricCommitted"
          (commit.entry env "").payload (some idempotencyKey')).1
          (some (commit.entry env (env.uuid4 state.drawn))) := append_fresh hexisting (.inr rfl)
      have hsegment : CommitSegment env state commits
          (_, .ok (.addLeaf (commit.addLeaf env (env.uuid4 state.drawn)))) := .stored hcommit happends
      exact hsegment
  · exact .raised

end Handlers

/-! ## Closing a batch -/

/-- A job whose batch holds the leaves it covers and proves each of them under its root. -/
structure JobOk (env : Env) (job : AnchorJob) : Prop where
  nonempty : job.pending ≠ []
  leaves : job.batch.leaves = job.pending.map (·.leafHash)
  root : (MerkleBatch.ofLeaves (job.pending.map (·.leafHash))).close env.sha256 = .ok (job.batch, job.root)
  proofs : ∀ (index : ℕ) (leaf : Bytes), job.batch.leaves[index]? = some leaf →
    ∃ proof, job.batch.proofFor index = .ok proof ∧
      verifyInclusionProof env.sha256 leaf proof job.root = true

/-- Closing a non-empty builder empties it and yields a well-formed job. -/
theorem closeEntry_cases (env : Env) {state : AppState} (hne : state.merkleBuilder.pending ≠ []) :
    ∃ job, JobOk env job ∧ job.pending = state.merkleBuilder.pending ∧
      job.batchId = env.uuid4 state.drawn ∧
      closeEntry env state =
        ({ state with
            merkleBuilder := { state.merkleBuilder with pending := [], firstLeafTs := none }
            drawn := state.drawn + 1 }, .ok job) := by
  have hleaves : state.merkleBuilder.pending.map (·.leafHash) ≠ [] := by simpa using hne
  obtain ⟨batch, root, hclose, hbatch, hproofs⟩ :=
    MerkleBatch.close_complete env.sha256 hleaves
  refine ⟨⟨batch, root, state.merkleBuilder.pending, env.uuid4 state.drawn⟩,
    ⟨hne, hbatch, hclose, ?_⟩, rfl, rfl, ?_⟩
  · intro index leaf hleaf
    obtain ⟨proof, hproof, -, hverify⟩ := hproofs index leaf (hbatch ▸ hleaf)
    exact ⟨proof, hproof, hverify⟩
  · simp [closeEntry, MerkleBatchBuilder.closeAndReset, hclose]

/-- One await of the straight line writes a row, appends a publication or marks the batch. -/
inductive Ran (env : Env) (state : AppState) (stamped : StampedJob) :
    AnchorOp → AppState × Except PyError Unit → Prop
  | unproved {index : ℕ} {leaf : Bytes} {error : PyError} : stamped.job.batch.proofFor index = .error error →
    Ran env state stamped (.setProof index leaf) (state, .error error)
  | row {index : ℕ} {leaf : Bytes} {proof : List ProofStep} : stamped.job.batch.proofFor index = .ok proof →
    Ran env state stamped (.setProof index leaf)
      ({ state with
          projectionStore := state.projectionStore.set (proofKey (hex leaf))
            (.proof (proofRow stamped leaf proof)) }, .ok ())
  | published {decisionId : String} {next : AppState} :
    Appends env state next (some ⟨env.uuid4 state.drawn, .str decisionId, "MerkleRootPublished",
      payloadCommon stamped, none⟩) →
    Ran env state stamped (.publishRoot decisionId) (next, .ok ())
  | marked : Ran env state stamped .markBatched
      ({ state with auditTrail := state.auditTrail.markBatched (stamped.job.pending.map (·.eventId)) },
        .ok ())

theorem runOp_cases (env : Env) (state : AppState) (stamped : StampedJob) (op : AnchorOp) :
    Ran env state stamped op (runOp env state stamped op) := by
  cases op with
  | setProof index leaf =>
    simp only [runOp]
    cases hproof : stamped.job.batch.proofFor index with
    | error error => exact .unproved hproof
    | ok proof => exact .row hproof
  | publishRoot decisionId =>
    have hresult : (runOp env state stamped (.publishRoot decisionId)).2 = .ok () := by
      simp [runOp, discard, AppState.append,
        MemoryAuditTrail.append_of_fresh MemoryAuditTrail.existing?_none
          (rfl : (Json.str decisionId).hashable = true), Except.map]
    have hpair : runOp env state stamped (.publishRoot decisionId) =
        ((state.append env (.str decisionId) "MerkleRootPublished" (payloadCommon stamped) none).1, .ok ()) :=
      Prod.ext rfl hresult
    rw [hpair]
    exact .published (append_unkeyed _ _ _ _ _)
  | markBatched => exact .marked

theorem setProof_mem_anchorOps {job : AnchorJob} {index : ℕ} {leaf : Bytes} :
    .setProof index leaf ∈ anchorOps job ↔ job.batch.leaves[index]? = some leaf := by
  simp [anchorOps, List.mem_mapIdx, List.getElem?_eq_some_iff]

theorem publishRoot_mem_anchorOps {job : AnchorJob} {decisionId : String} :
    .publishRoot decisionId ∈ anchorOps job ↔
      decisionId = "system" ∨ decisionId ∈ job.pending.map (·.decisionId) := by
  simp [anchorOps, coveredDecisions, mem_sortedSet]

/-- The mark is the last of the operations and only there. -/
theorem anchorOps_suffix {job : AnchorJob} {op : AnchorOp} {todo : List AnchorOp}
    (h : op :: todo <:+ anchorOps job) : op = .markBatched ↔ todo = [] := by
  obtain ⟨before, hbefore⟩ : ∃ before, anchorOps job = before ++ [.markBatched] ∧
      AnchorOp.markBatched ∉ before :=
    ⟨job.batch.leaves.mapIdx .setProof ++ .publishRoot "system" :: (coveredDecisions job).map .publishRoot,
      by simp [anchorOps], by simp [List.mem_mapIdx]⟩
  obtain ⟨done, hdone⟩ := h
  rw [hbefore.1] at hdone
  constructor
  · rintro rfl
    rcases List.eq_nil_or_concat todo with hnil | ⟨rest, last, rfl⟩
    · exact hnil
    · rw [List.concat_eq_append, ← List.cons_append, ← List.append_assoc] at hdone
      have hsplit := (List.append_inj' hdone rfl).1
      exact absurd (hsplit ▸ by simp) hbefore.2
  · rintro rfl
    simpa using (List.append_inj' hdone rfl).2

/-! ## One segment -/

/-- The call reaches `_commit`, unless it raises before. -/
def Call.committing : Call → Bool
  | .updateMetric cmd => !cmd.evidenceRefs.isEmpty
  | .inbound .reconciledDecision payload => (reconciledEvidence payload).truthy
  | _ => false

def Call.isRebuild : Call → Bool
  | .rebuild _ _ => true
  | _ => false

theorem Call.committing_of_isRebuild {call : Call} (h : call.isRebuild = true) :
    call.committing = false := by
  cases call <;> first | rfl | cases h

theorem Call.committing_of_isCloser {call : Call} (h : call.isCloser = true) :
    call.committing = false := by
  cases call <;> first | rfl | cases h

theorem Call.isCloser_of_isRebuild {call : Call} (h : call.isRebuild = true) :
    call.isCloser = false := by
  cases call <;> first | rfl | cases h

/-- A call that asks for a commit reaches `_commit`. -/
theorem Call.Commits.committing {call : Call} {commit : Commit} (h : call.Commits commit) :
    call.committing = true := by
  cases call with
  | updateMetric cmd =>
    obtain ⟨-, -, -, -, hne, -⟩ := h
    simpa [Call.committing] using hne
  | inbound kind payload =>
    cases kind with
    | reconciledDecision =>
      obtain ⟨-, -, -, -, htruthy, -⟩ := h
      exact htruthy
    | _ => exact h.elim
  | _ => exact h.elim

/-- A stamped job carries the signature of its root and the text of a moment. -/
structure StampOk (env : Env) (stamped : StampedJob) : Prop where
  job : JobOk env stamped.job
  signature : stamped.signature = env.sign stamped.job.root
  timestamp : ∃ now, stamped.timestampIso = env.isoformat now

/-- None of the operations of a stamped job raises. -/
theorem StampOk.ran {stamped : StampedJob} (h : StampOk env stamped) (state : AppState) {op : AnchorOp}
    (hop : op ∈ anchorOps stamped.job) :
    ∃ next, runOp env state stamped op = (next, .ok ()) ∧ Ran env state stamped op (next, .ok ()) := by
  have hran := runOp_cases env state stamped op
  generalize hout : runOp env state stamped op = outcome at hran
  cases hran with
  | unproved herror =>
    obtain ⟨proof, hproof, -⟩ := h.job.proofs _ _ (setProof_mem_anchorOps.mp hop)
    rw [hproof] at herror
    cases herror
  | row hproof => exact ⟨_, rfl, .row hproof⟩
  | published happends => exact ⟨_, rfl, .published happends⟩
  | marked => exact ⟨_, rfl, .marked⟩

/-- A task is at a segment of its own call, with the data that segment was given. -/
structure Task.Sound (env : Env) (task : Task) : Prop where
  gate : ∀ payload, task.pc = .reconciledGate payload → task.call = .inbound .reconciledDecision payload
  adding : ∀ step, task.pc = .addLeaf step →
    ∃ commit eventId, task.call.Commits commit ∧ step = commit.addLeaf env eventId
  board : ∀ board, task.pc = .storeBoard board → task.call.isRebuild = true
  sign : ∀ job, task.pc = .sign job → task.call.isCloser = true ∧ JobOk env job
  stamp : ∀ job signature, task.pc = .stamp job signature →
    task.call.isCloser = true ∧ JobOk env job ∧ signature = env.sign job.root
  anchoring : ∀ stamped todo, task.pc = .anchoring stamped todo →
    task.call.isCloser = true ∧ StampOk env stamped ∧ todo ≠ [] ∧ todo <:+ anchorOps stamped.job

/-- The moves of a segment that neither commits nor closes. -/
inductive Calm (call : Call) : Move → Prop
  | gate {payload : PyDict} : call = .inbound .reconciledDecision payload →
    Calm call (.next (.reconciledGate payload))
  | board {board : ScoreboardState} : call.isRebuild = true → Calm call (.next (.storeBoard board))
  | raised {error : PyError} : call.isCloser = false → Calm call (.finish (.error error))
  | duplicate : call.isCloser = false → Calm call (.finish (.ok (some ⟨.duplicateIgnored, none⟩)))
  | rejected : call.isCloser = false → call.committing = false →
    Calm call (.finish (.ok (some ⟨.rejectedMissingEvidence, none⟩)))
  | silent : call.committing = false → Calm call (.finish (.ok none))

/-- What one segment of a task can do. -/
inductive Resumed (env : Env) (now : Instant) (state : AppState) (task : Task) : AppState → Move → Prop
  | quiet {next : AppState} {move : Move} {stored : Option Entry} :
    Appends env state next stored → (∀ entry ∈ stored, Origin env task.call entry) →
    task.addLeaf? = none → task.job? = none → Calm task.call move →
    Resumed env now state task next move
  | committed {next : AppState} {commit : Commit} :
    task.call.Commits commit → task.addLeaf? = none → task.job? = none →
    Appends env state next (some (commit.entry env (env.uuid4 state.drawn))) →
    Resumed env now state task next (.next (.addLeaf (commit.addLeaf env (env.uuid4 state.drawn))))
  | added {step : AddLeafStep} : task.pc = .addLeaf step →
    Resumed env now state task (commitFinish state step).1
      (.finish (.ok (some ⟨.accepted, some (hex step.leaf.leafHash)⟩)))
  | stored {board : ScoreboardState} : task.pc = .storeBoard board →
    Resumed env now state task
      { state with
        projectionStore := state.projectionStore.set
          (ScoreboardProjector.scoreboardKey board.decisionId) (.scoreboard board) }
      (.finish (.ok none))
  | closed {job : AnchorJob} : task.pc = .entry → task.call.isCloser = true →
    JobOk env job → job.pending = state.merkleBuilder.pending → job.batchId = env.uuid4 state.drawn →
    Resumed env now state task
      { state with
        merkleBuilder := { state.merkleBuilder with pending := [], firstLeafTs := none }
        drawn := state.drawn + 1 }
      (.next (.sign job))
  | signed {job : AnchorJob} : task.pc = .sign job →
    Resumed env now state task state (.next (.stamp job (env.sign job.root)))
  | stamped {job : AnchorJob} {signature : Bytes} : task.pc = .stamp job signature →
    Resumed env now state task state
      (.next (.anchoring ⟨job, signature, env.isoformat now⟩ (anchorOps job)))
  | anchored {stamped : StampedJob} {op : AnchorOp} {todo : List AnchorOp} {next : AppState} :
    task.pc = .anchoring stamped (op :: todo) → Ran env state stamped op (next, .ok ()) →
    Resumed env now state task next
      (if todo.isEmpty then .finish (.ok none) else .next (.anchoring stamped todo))

section Resume

variable {now : Instant} {state : AppState} {task : Task}

/-- A committing segment is one of the first two kinds. -/
theorem Resumed.of_commitSegment {outcome : AppState × Except PyError Progress}
    (h : CommitSegment env state task.call.Commits outcome) (hcloser : task.call.isCloser = false)
    (hadd : task.addLeaf? = none) (hjob : task.job? = none) :
    Resumed env now state task outcome.1 (.ofProgress outcome.2) := by
  cases h with
  | raised => exact .quiet (.refl state) (by simp) hadd hjob (.raised hcloser)
  | duplicate happends => exact .quiet happends (by simp) hadd hjob (.duplicate hcloser)
  | stored hcommits happends => exact .committed hcommits hadd hjob happends

theorem Resumed.updateMetric {cmd : UpdateMetricCommand} (hcall : task.call = .updateMetric cmd)
    (hadd : task.addLeaf? = none) (hjob : task.job? = none) :
    Resumed env now state task (updateMetricEntry env state now cmd).1
      (.ofProgress (updateMetricEntry env state now cmd).2) := by
  have hcloser : task.call.isCloser = false := by rw [hcall]; rfl
  unfold updateMetricEntry
  by_cases hempty : cmd.evidenceRefs.isEmpty = true
  · rw [if_pos hempty]
    have happends := append_unkeyed env state (.str cmd.decisionId) "MetricRejected"
      (rejectedPayload env (.str cmd.decisionId) (.str cmd.metricName) (.str cmd.idempotencyKey) now)
    have hlacks : task.call.LacksEvidence (.str cmd.decisionId) (.str cmd.metricName)
        (.str cmd.idempotencyKey) := hcall ▸ ⟨rfl, rfl, rfl, by simpa using hempty⟩
    have horigin : Origin env task.call ⟨env.uuid4 state.drawn, .str cmd.decisionId, "MetricRejected",
        rejectedPayload env (.str cmd.decisionId) (.str cmd.metricName) (.str cmd.idempotencyKey) now,
        none⟩ := .rejected hlacks
    split
    · rename_i next error hout
      rw [hout] at happends
      exact .quiet happends (by rintro entry ⟨⟩; exact horigin) hadd hjob (.raised hcloser)
    · rename_i next result hout
      rw [hout] at happends
      exact .quiet happends (by rintro entry ⟨⟩; exact horigin) hadd hjob
        (.rejected hcloser (by simpa [hcall, Call.committing] using hempty))
  · rw [if_neg hempty]
    refine .of_commitSegment (commitAppend_cases ?_) hcloser hadd hjob
    intro commit hdecision hmetric hvalue hrefs hkey hproposed
    rw [hcall]
    have hrefs' : commit.evidenceRefs = cmd.evidenceRefs := by
      have := (Json.mapM_asStr?_map_str cmd.evidenceRefs).symm.trans hrefs
      exact (Option.some.inj this).symm
    exact ⟨(Json.str.inj hdecision).symm, (Json.str.inj hmetric).symm, hvalue, hrefs',
      by simpa using hempty, (Json.str.inj hkey).symm, hproposed⟩

theorem Resumed.gate {payload : PyDict} (hcall : task.call = .inbound .reconciledDecision payload)
    (hadd : task.addLeaf? = none) (hjob : task.job? = none) :
    Resumed env now state task (reconciledGate env state now payload).1
      (.ofProgress (reconciledGate env state now payload).2) := by
  have hcloser : task.call.isCloser = false := by rw [hcall]; rfl
  have hraised (error : PyError) :
      Resumed env now state task state (.ofProgress (.error error)) :=
    .quiet (.refl state) (by simp) hadd hjob (.raised hcloser)
  unfold reconciledGate
  by_cases htruthy : ((payload.get? "evidence_refs").getD (.list [])).truthy = true
  · simp only [htruthy, if_true]
    split
    · rename_i decisionId metricName finalValue idempotencyKey hdecision hmetric hvalue hkey
      refine .of_commitSegment (commitAppend_cases ?_) hcloser hadd hjob
      intro commit h₁ h₂ h₃ h₄ h₅ h₆
      subst h₁ h₂ h₅
      rw [hcall]
      exact ⟨field_ok hdecision, field_ok hmetric, h₃ ▸ field_ok hvalue, h₄, htruthy, field_ok hkey, h₆⟩
    all_goals exact hraised _
  · simp only [htruthy, if_false, Bool.false_eq_true]
    split
    · rename_i decisionId metricName idempotencyKey hdecision hmetric hkey
      have happends := append_unkeyed env state decisionId "MetricRejected"
        (rejectedPayload env decisionId metricName idempotencyKey now)
      have hlacks : task.call.LacksEvidence decisionId metricName idempotencyKey :=
        hcall ▸ ⟨field_ok hdecision, field_ok hmetric, field_ok hkey,
          by simpa [reconciledEvidence] using htruthy⟩
      have horigin : Origin env task.call ⟨env.uuid4 state.drawn, decisionId, "MetricRejected",
          rejectedPayload env decisionId metricName idempotencyKey now, none⟩ := .rejected hlacks
      split
      · rename_i next error hout
        rw [hout] at happends
        exact .quiet happends (by rintro entry ⟨⟩; exact horigin) hadd hjob (.raised hcloser)
      · rename_i next result hout
        rw [hout] at happends
        exact .quiet happends (by rintro entry ⟨⟩; exact horigin) hadd hjob
          (.silent (by simpa [hcall, Call.committing, reconciledEvidence] using htruthy))
    all_goals exact hraised _

theorem Calm.ofUnit {call : Call} (hcall : call.committing = false) (hcloser : call.isCloser = false)
    (result : Except PyError Unit) : Calm call (.ofUnit result) := by
  cases result with
  | error error => exact .raised hcloser
  | ok _ => exact .silent hcall

/-- A closer behind its guard. -/
theorem Resumed.closeIf {guard : Bool} (hpc : task.pc = .entry) (hcloser : task.call.isCloser = true)
    (hcommitting : task.call.committing = false)
    (hguard : guard = true → state.merkleBuilder.pending ≠ []) :
    Resumed env now state task (closeIf env guard state).1 (closeIf env guard state).2 := by
  unfold DecisionCore.closeIf
  cases guard with
  | false =>
    exact .quiet (.refl state) (by simp) (by simp [Task.addLeaf?, hpc]) (by simp [Task.job?, hpc])
      (.silent hcommitting)
  | true =>
    obtain ⟨job, hjob, hpending, hbatch, hclose⟩ := closeEntry_cases env (hguard rfl)
    rw [if_pos rfl, hclose]
    exact .closed hpc hcloser hjob hpending hbatch

theorem shouldClose_pending {builder : MerkleBatchBuilder} {nowTs : ℚ}
    (h : builder.shouldClose nowTs = true) : builder.pending ≠ [] := by
  rintro hempty
  simp [MerkleBatchBuilder.shouldClose, hempty] at h

theorem hasPending_pending {builder : MerkleBatchBuilder} (h : builder.hasPending = true) :
    builder.pending ≠ [] := by
  simpa [MerkleBatchBuilder.hasPending] using h

/-- The first segment of a call. -/
theorem enter_cases (hpc : task.pc = .entry) :
    Resumed env now state task (enter env now state task.call).1 (enter env now state task.call).2 := by
  have hadd : task.addLeaf? = none := by simp [Task.addLeaf?, hpc]
  have hjob : task.job? = none := by simp [Task.job?, hpc]
  cases hcall : task.call with
  | updateMetric cmd => exact .updateMetric hcall hadd hjob
  | inbound kind payload =>
    by_cases hkind : kind = .reconciledDecision
    · subst hkind
      obtain ⟨stored, happends, hstored⟩ := stageAndAppend_cases env state payload
        "ReconciledDecision" fun stage ↦
          ((stage.getD .empty).update payload).set "status" (.str MetricStatus.reconciled.value)
      have horigin : ∀ entry ∈ stored, Origin env task.call entry := by
        intro entry hentry
        rw [hstored entry hentry]
        exact Origin.inbound hcall
      change Appends env state (reconciledEntry env state payload).1 stored at happends
      simp only [enter]
      split
      · rename_i next error hout
        rw [hout] at happends
        exact .quiet happends horigin hadd hjob (.raised (by rw [hcall]; rfl))
      · rename_i next hout
        rw [hout] at happends
        exact .quiet happends horigin hadd hjob (.gate hcall)
    · obtain ⟨stored, happends, hstored⟩ := onInbound_cases env state now payload hkind
      have horigin : ∀ entry ∈ stored, Origin env task.call entry := by
        intro entry hentry
        rw [hstored entry hentry]
        exact .inbound hcall
      have hcloser : task.call.isCloser = false := by rw [hcall]; rfl
      have hcalm : task.call.committing = false := by
        rw [hcall]
        cases kind <;> first | rfl | exact absurd rfl hkind
      have henter : enter env now state (.inbound kind payload) =
          ((onInbound env state now kind payload).1, .ofUnit (onInbound env state now kind payload).2) := by
        cases kind <;> first | rfl | exact absurd rfl hkind
      rw [henter]
      exact .quiet happends horigin hadd hjob (.ofUnit hcalm hcloser _)
  | supersede args =>
    have hcloser : task.call.isCloser = false := by rw [hcall]; rfl
    have hcalm : task.call.committing = false := by rw [hcall]; rfl
    refine .quiet (supersedeMetric_appends env state now args) ?_ hadd hjob (.ofUnit hcalm hcloser _)
    intro entry hentry
    split at hentry
    · cases hentry
    · obtain rfl := Option.some.inj hentry
      exact .superseded hcall
  | rebuild decisionId requiredMetrics =>
    simp only [enter]
    split
    · exact .quiet (.refl state) (by simp) hadd hjob (.raised (by rw [hcall]; rfl))
    · exact .quiet (.refl state) (by simp) hadd hjob (.board (by rw [hcall]; rfl))
  | maybeCloseAndAnchor =>
    exact .closeIf hpc (by rw [hcall]; rfl) (by rw [hcall]; rfl) shouldClose_pending
  | forceClose => exact .closeIf hpc (by rw [hcall]; rfl) (by rw [hcall]; rfl) hasPending_pending

/-- Everything a segment can do. -/
theorem resume_cases (hsound : task.Sound env) :
    Resumed env now state task (resume env now state task).1 (resume env now state task).2 := by
  unfold resume
  cases hpc : task.pc with
  | entry => exact enter_cases hpc
  | reconciledGate payload =>
    exact .gate (hsound.gate payload hpc) (by simp [Task.addLeaf?, hpc]) (by simp [Task.job?, hpc])
  | addLeaf step => exact .added hpc
  | storeBoard board => exact .stored hpc
  | sign job => exact .signed hpc
  | stamp job signature => exact .stamped hpc
  | anchoring stamped todo =>
    obtain ⟨-, hstamp, hne, hsuffix⟩ := hsound.anchoring stamped todo hpc
    cases todo with
    | nil => exact absurd rfl hne
    | cons op todo =>
      have hop : op ∈ anchorOps stamped.job := hsuffix.subset List.mem_cons_self
      obtain ⟨next, hout, hran⟩ := hstamp.ran state hop
      simp only [hout]
      exact .anchored hpc hran

end Resume

end DecisionCore
