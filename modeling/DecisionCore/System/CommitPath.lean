import DecisionCore.System.Anchored

/-!
# The one place a commit can happen

Only `_commit` appends with the type of a commit, but a record takes its type from the payload when
the payload has one.  A bus payload that calls itself a commit is read as one wherever its record is
seen; every other call leaves what readers see of commits as it was.
-/

namespace DecisionCore

open CommandHandler MerkleAnchorService MemoryAuditTrail

variable {env : Env}

/-! ## The reads of the trail -/

/-- The records of commits in the stream of a decision. -/
def commitsIn (trail : MemoryAuditTrail) (decisionId : String) : List PyDict :=
  (trail.readRange decisionId 0).filter fun record ↦ record.hasType "MetricCommitted"

/-- No reader sees a commit in the second trail that is not in the first. -/
structure NoNewCommit (before after : MemoryAuditTrail) : Prop where
  range : ∀ decisionId, commitsIn after decisionId = commitsIn before decisionId
  unbatched : ∀ limit records, after.readUnbatched limit = .ok records → before.readUnbatched limit = .ok records

theorem NoNewCommit.refl_of {before after : MemoryAuditTrail} (hevents : after.events = before.events)
    (hbatched : after.batched = before.batched) : NoNewCommit before after := by
  refine ⟨?_, ?_⟩
  · intro decisionId
    simp only [commitsIn, readRange, entriesOf, hevents]
  · intro limit records hrecords
    rwa [readUnbatched, hevents, hbatched] at hrecords

/-- What `read_unbatched` collects when one more record is stored. -/
theorem collectUnbatched_concat (batched : Finset String) (records : List PyDict) (record : PyDict) :
    collectUnbatched batched (records ++ [record]) = (do
      let kept ← collectUnbatched batched records
      let keep ← isUnbatched batched record
      return if keep then kept ++ [record] else kept) := by
  induction records with
  | nil =>
    simp only [List.nil_append, collectUnbatched]
    cases isUnbatched batched record <;> rfl
  | cons first rest ih =>
    rw [List.cons_append, collectUnbatched, collectUnbatched, ih]
    cases isUnbatched batched first with
    | error error => rfl
    | ok keepFirst =>
      cases collectUnbatched batched rest with
      | error error => rfl
      | ok kept =>
        cases isUnbatched batched record with
        | error error => rfl
        | ok keep => cases keep <;> cases keepFirst <;> rfl

/-- `read_unbatched` answers with some of its records at every limit, or raises at every limit. -/
theorem readUnbatched_ok_iff (trail : MemoryAuditTrail) (limit : ℤ) (records : List PyDict) :
    trail.readUnbatched limit = .ok records ↔
      ∃ kept, collectUnbatched trail.batched (trail.events.map Entry.record) = .ok kept ∧
        sliceTo limit kept = records := by
  unfold readUnbatched
  cases collectUnbatched trail.batched (trail.events.map Entry.record) with
  | error error => simp [Except.map]
  | ok kept => simp [Except.map]

section Stored

variable {before after : MemoryAuditTrail} {entry : Entry}

/-- A set of identifiers can be asked for the value and does not have it. -/
def Unmarked (batched : Finset String) (value : Json) : Prop :=
  value.hashable = true ∧ ∀ eventId, value = .str eventId → eventId ∉ batched

theorem isUnbatched_iff {batched : Finset String} {record : PyDict} {value : Json}
    (hvalue : record.get? "event_id" = some value) (htype : record.hasType "MetricCommitted" = true) :
    isUnbatched batched record = .ok true ↔ Unmarked batched value := by
  unfold isUnbatched Unmarked
  rw [hvalue, htype]
  cases value <;> simp [Json.hashable]

theorem isUnbatched_true {batched : Finset String} {record : PyDict} (h : isUnbatched batched record = .ok true) :
    ∃ value, record.get? "event_id" = some value ∧ record.hasType "MetricCommitted" = true := by
  unfold isUnbatched at h
  split at h
  · cases h
  · rename_i eventId hvalue
    exact ⟨_, hvalue, (Bool.and_eq_true_iff.mp (Except.ok.inj h)).2⟩
  · rename_i value _ hvalue
    split at h
    · exact ⟨value, hvalue, Except.ok.inj h⟩
    · cases h

/-- The record of the entry is seen: in the stream of a decision, or by `read_unbatched`. -/
def Seen (trail : MemoryAuditTrail) (entry : Entry) : Prop :=
  (∃ decisionId, entry.decisionId = .str decisionId) ∨
    (∃ kept, collectUnbatched trail.batched (trail.events.map Entry.record) = .ok kept) ∧
      ∃ value, entry.record.get? "event_id" = some value ∧ Unmarked trail.batched value

theorem commitsIn_concat (hevents : after.events = before.events ++ [entry]) (decisionId : String) :
    commitsIn after decisionId = commitsIn before decisionId ++
      if entry.decisionId.isStr decisionId && entry.record.hasType "MetricCommitted" then [entry.record]
      else [] := by
  unfold commitsIn
  rw [readRange_append hevents, List.filter_append]
  congr 1
  cases hdecision : entry.decisionId.isStr decisionId with
  | false => simp [hdecision]
  | true =>
    cases htype : entry.record.hasType "MetricCommitted" with
    | false => simp [hdecision, htype]
    | true => simp [hdecision, htype]

/-- One more entry is news to a reader exactly when it is a commit that is seen. -/
theorem noNewCommit_concat_iff (hevents : after.events = before.events ++ [entry])
    (hbatched : after.batched = before.batched) :
    NoNewCommit before after ↔ ¬ (entry.record.hasType "MetricCommitted" = true ∧ Seen before entry) := by
  have hcollect : collectUnbatched after.batched (after.events.map Entry.record) = (do
      let kept ← collectUnbatched before.batched (before.events.map Entry.record)
      let keep ← isUnbatched before.batched entry.record
      return if keep then kept ++ [entry.record] else kept) := by
    rw [hevents, hbatched, List.map_append, List.map_singleton, collectUnbatched_concat]
  constructor
  · rintro hnone ⟨htype, ⟨decisionId, hdecision⟩ | ⟨⟨kept, hkept⟩, value, hvalue, hunmarked⟩⟩
    · have hrange := hnone.range decisionId
      rw [commitsIn_concat hevents, if_pos (by simp [hdecision, htype])] at hrange
      simp at hrange
    · rw [hkept, (isUnbatched_iff hvalue htype).mpr hunmarked] at hcollect
      have hafter := (readUnbatched_ok_iff after (kept.length + 1) _).mpr ⟨_, hcollect, rfl⟩
      obtain ⟨kept', hkept', hslice⟩ := (readUnbatched_ok_iff before _ _).mp (hnone.unbatched _ _ hafter)
      obtain rfl := Except.ok.inj (hkept.symm.trans hkept')
      rw [sliceTo_of_length_le (by omega), if_pos rfl, sliceTo_of_length_le (by simp)] at hslice
      simp at hslice
  · intro hnot
    refine ⟨?_, ?_⟩
    · intro decisionId
      rw [commitsIn_concat hevents, if_neg, List.append_nil]
      rw [Bool.and_eq_true, Json.isStr_iff]
      rintro ⟨hdecision, htype⟩
      exact hnot ⟨htype, .inl ⟨decisionId, hdecision⟩⟩
    · intro limit records hrecords
      obtain ⟨kept, hkept, hslice⟩ := (readUnbatched_ok_iff after limit records).mp hrecords
      rw [hcollect] at hkept
      obtain ⟨old, hold, hround⟩ := bind_eq_ok.mp hkept
      obtain ⟨keep, hkeep, hresult⟩ := bind_eq_ok.mp hround
      have hskip : keep = false := by
        rw [Bool.eq_false_iff]
        rintro rfl
        obtain ⟨value, hvalue, htype⟩ := isUnbatched_true hkeep
        exact hnot ⟨htype, .inr ⟨⟨old, hold⟩, value, hvalue, (isUnbatched_iff hvalue htype).mp hkeep⟩⟩
      subst hskip
      exact (readUnbatched_ok_iff before limit records).mpr ⟨old, hold, by rw [← hslice, ← Except.ok.inj hresult]; rfl⟩

end Stored

/-! ## Bus handlers and supersessions -/

/-- The handler of the payload gets to its append. -/
def Inbound.appends (kind : Inbound) (payload : PyDict) : Bool :=
  match kind with
  | .metricProposed | .debateOutcome | .riskSignal | .reconciledDecision => (stagingKey payload).isOk
  | .evidenceAttached | .goalCreated | .goalCancelled => (payload.get? "decision_id").isSome
  | .runtimeArtifactDeployed | .runtimeConfigUpdated => true

/-- The entry of a bus payload. -/
def inboundEntry (env : Env) (state : AppState) (kind : Inbound) (payload : PyDict) : Entry :=
  ⟨env.uuid4 state.drawn, (payload.get? "decision_id").getD (.str "runtime"), kind.eventType, payload, none⟩

section Handlers

variable (env : Env) (state : AppState) (now : Instant) (payload : PyDict) {kind : Inbound}

/-- A handler that gets to its append stores its payload, and the others store nothing. -/
theorem onInbound_stored (hkind : kind ≠ .reconciledDecision) :
    Appends env state (onInbound env state now kind payload).1
      (if kind.appends payload then some (inboundEntry env state kind payload) else none) := by
  have hstaged (eventType : String) (stage : Option PyDict → PyDict) :
      Appends env state (stageAndAppend env state eventType payload stage).1
        (if (stagingKey payload).isOk then some ⟨env.uuid4 state.drawn,
          (payload.get? "decision_id").getD (.str "runtime"), eventType, payload, none⟩ else none) := by
    cases hkey : stagingKey payload with
    | error error =>
      simp only [stageAndAppend, hkey]
      exact .refl state
    | ok found =>
      obtain ⟨decisionId, key⟩ := found
      obtain ⟨next, hcall, happends⟩ := stageAndAppend_ok env state hkey eventType stage
      rw [hcall, (stagingKey_ok hkey).1]
      exact happends
  have hinbound (eventType : String) :
      Appends env state (appendInbound env state eventType payload).1
        (if (payload.get? "decision_id").isSome then some ⟨env.uuid4 state.drawn,
          (payload.get? "decision_id").getD (.str "runtime"), eventType, payload, none⟩ else none) := by
    cases hdecision : payload.get? "decision_id" with
    | none =>
      simp only [appendInbound, field, hdecision]
      exact .refl state
    | some decisionId =>
      simp only [appendInbound, field, hdecision]
      exact append_unkeyed env state decisionId eventType payload
  cases kind with
  | metricProposed => exact hstaged _ _
  | debateOutcome => exact hstaged _ _
  | riskSignal => exact hstaged _ _
  | reconciledDecision => exact absurd rfl hkind
  | evidenceAttached => exact hinbound _
  | goalCreated => exact hinbound _
  | goalCancelled => exact hinbound _
  | runtimeArtifactDeployed => exact append_unkeyed env state _ _ payload
  | runtimeConfigUpdated => exact append_unkeyed env state _ _ payload

/-- The record of a bus payload is a commit when the payload says so. -/
theorem inboundEntry_hasType :
    (inboundEntry env state kind payload).record.hasType "MetricCommitted" = true ↔
      payload.get? "event_type" = some (.str "MetricCommitted") := by
  rw [PyDict.hasType_iff, Entry.record_get?]
  cases hown : payload.get? "event_type" with
  | none => simp [inboundEntry, hown, Entry.envelope, kind.eventType_ne_committed]
  | some value => simp [inboundEntry, hown]

theorem supersedeMetric_noNewCommit (args : SupersedeArgs) :
    NoNewCommit state.auditTrail (supersedeMetric env state now args).1.auditTrail := by
  have happends := supersedeMetric_appends env state now args
  split at happends
  · exact .refl_of (by simpa using happends.events) happends.batched
  · rw [noNewCommit_concat_iff happends.events happends.batched]
    rintro ⟨htype, -⟩
    simp [PyDict.hasType_iff, Entry.record_get?, supersessionEntry, supersededPayload, Entry.envelope] at htype

end Handlers

/-! ## Forged commits -/

/-- The payload calls itself a commit, its handler gets to the append, and the record is seen: it
belongs to a decision, or `read_unbatched` answers and has no reason to leave it out. -/
structure ForgesCommit (trail : MemoryAuditTrail) (kind : Inbound) (payload : PyDict) : Prop where
  forged : payload.get? "event_type" = some (.str "MetricCommitted")
  appended : kind.appends payload = true
  seen : (∃ decisionId, (payload.get? "decision_id").getD (.str "runtime") = .str decisionId) ∨
    (∃ limit records, trail.readUnbatched limit = .ok records) ∧
      ∀ value, payload.get? "event_id" = some value → Unmarked trail.batched value

/-- The bus payload of the call does not call itself a commit. -/
def Call.Unforged : Call → Prop
  | .inbound _ payload => payload.get? "event_type" ≠ some (.str "MetricCommitted")
  | _ => True

section Runs

variable {maxLeaves : ℤ} {maxSeconds : ℚ} {trace : List (System × Label)} {last : System}

/-- Identifiers that have not been drawn yet are not marked. -/
theorem Run.fresh_unmarked (run : Run (System.step env) (System.initial maxLeaves maxSeconds) trace last) :
    env.uuid4 last.state.drawn ∉ last.state.auditTrail.batched := by
  intro hbatched
  obtain ⟨job, -, -, leaf, -, hleaf, entry, hentry, hsome⟩ := run.marked_leaf hbatched
  obtain ⟨n, hn, hid⟩ := run.trailOk.drawn entry hentry
  have hsame := env.uuid4_injective (hid.symm.trans ((Entry.eventId_of_leaf? hsome).symm.trans hleaf))
  omega

theorem Run.seen_inboundEntry_iff (run : Run (System.step env) (System.initial maxLeaves maxSeconds) trace last)
    (kind : Inbound) (payload : PyDict) :
    Seen last.state.auditTrail (inboundEntry env last.state kind payload) ↔
      (∃ decisionId, (payload.get? "decision_id").getD (.str "runtime") = .str decisionId) ∨
        (∃ limit records, last.state.auditTrail.readUnbatched limit = .ok records) ∧
          ∀ value, payload.get? "event_id" = some value → Unmarked last.state.auditTrail.batched value := by
  have hanswers : (∃ kept, collectUnbatched last.state.auditTrail.batched
      (last.state.auditTrail.events.map Entry.record) = .ok kept) ↔
      ∃ limit records, last.state.auditTrail.readUnbatched limit = .ok records := by
    simp only [readUnbatched_ok_iff]
    constructor
    · rintro ⟨kept, hkept⟩
      exact ⟨0, _, kept, hkept, rfl⟩
    · rintro ⟨-, -, kept, hkept, -⟩
      exact ⟨kept, hkept⟩
  have hvalue : (inboundEntry env last.state kind payload).record.get? "event_id" =
      some ((payload.get? "event_id").getD (.str (env.uuid4 last.state.drawn))) := by
    rw [Entry.record_get?]
    cases hown : payload.get? "event_id" <;> simp [inboundEntry, hown, Entry.envelope]
  unfold Seen
  rw [hanswers, hvalue]
  refine or_congr Iff.rfl (and_congr Iff.rfl ?_)
  cases hown : payload.get? "event_id" with
  | some value => simp
  | none =>
    have hfresh : Unmarked last.state.auditTrail.batched (.str (env.uuid4 last.state.drawn)) := by
      refine ⟨rfl, ?_⟩
      rintro eventId ⟨⟩
      exact run.fresh_unmarked
    simp [hfresh]

/-- In every reachable state, a bus handler other than the one for reconciled decisions shows no
reader a new commit if and only if its payload is not a forged commit, and a supersession shows none;
in every run without payloads that call themselves commits, all commits stem from `_commit`. -/
theorem commits_happen_in_one_place_iff
    (run : Run (System.step env) (System.initial maxLeaves maxSeconds) trace last) :
    (∀ kind payload now, kind ≠ .reconciledDecision →
      (NoNewCommit last.state.auditTrail (onInbound env last.state now kind payload).1.auditTrail ↔
        ¬ ForgesCommit last.state.auditTrail kind payload)) ∧
    (∀ args now, NoNewCommit last.state.auditTrail (supersedeMetric env last.state now args).1.auditTrail) ∧
    (Along (fun _ label ↦ label.Starts Call.Unforged) trace →
      ∀ entry ∈ last.state.auditTrail.events, entry.record.hasType "MetricCommitted" = true →
        ∃ call commit, Call.Commits call commit ∧ entry = commit.entry env entry.eventId) := by
  refine ⟨?_, ?_, ?_⟩
  · intro kind payload now hkind
    have happends := onInbound_stored env last.state now payload hkind
    by_cases hreached : kind.appends payload = true
    · rw [if_pos hreached] at happends
      rw [noNewCommit_concat_iff happends.events happends.batched, inboundEntry_hasType,
        run.seen_inboundEntry_iff, not_iff_not]
      constructor
      · rintro ⟨hforged, hseen⟩
        exact ⟨hforged, hreached, hseen⟩
      · rintro ⟨hforged, -, hseen⟩
        exact ⟨hforged, hseen⟩
    · rw [if_neg hreached] at happends
      refine iff_of_true (.refl_of (by simpa using happends.events) happends.batched) ?_
      rintro ⟨-, happended, -⟩
      exact hreached happended
  · intro args now
    exact supersedeMetric_noNewCommit env last.state now args
  · intro unforged entry hentry htype
    obtain ⟨call, hcall, horigin | ⟨commit, hcommits, hcommit⟩⟩ := (run.storedBy unforged).2 entry hentry
    · exfalso
      cases horigin with
      | @inbound kind payload eventId hinbound =>
        subst hinbound
        rw [PyDict.hasType_iff, Entry.record_get?] at htype
        cases hown : payload.get? "event_type" with
        | none => simp [hown, Entry.envelope, kind.eventType_ne_committed] at htype
        | some value =>
          have hvalue : value = .str "MetricCommitted" := by simpa [hown] using htype
          exact hcall (hvalue ▸ hown)
      | rejected _ => simp [PyDict.hasType_iff, Entry.record_get?, rejectedPayload, Entry.envelope] at htype
      | superseded _ => simp [PyDict.hasType_iff, Entry.record_get?, supersededPayload, Entry.envelope] at htype
      | published _ _ => simp [PyDict.hasType_iff, Entry.record_get?, payloadCommon, Entry.envelope] at htype
    · exact ⟨call, commit, hcommits, hcommit⟩

def sampleProposal : PyDict :=
  ⟨[("decision_id", .str "d1"), ("metric_name", .str "roi"), ("value", .int 7), ("idempotency_key", .str "k2"),
    ("proposed_by", .str "agent"), ("occurred_at", .str "1970-01-01T00:00:00.000+00:00")]⟩

/-- A proposal behind a commit is no commit. -/
theorem proposal_after_commit_shows_none :
    ∃ last, follow (System.step .local) (System.initial 100 60)
        (uninterrupted (.updateMetric sampleCommand) 2) = some last ∧
      NoNewCommit last.state.auditTrail
        (onInbound .local last.state 0 .metricProposed sampleProposal).1.auditTrail := by
  have hsome : (follow (System.step .local) (System.initial 100 60)
      (uninterrupted (.updateMetric sampleCommand) 2)).isSome = true := by decide +kernel
  obtain ⟨last, hlast⟩ := Option.isSome_iff_exists.mp hsome
  have hiff := (commits_happen_in_one_place_iff (Run.of_follow hlast)).1 .metricProposed sampleProposal 0 (by decide)
  refine ⟨last, hlast, hiff.mpr ?_⟩
  rintro ⟨hforged, -, -⟩
  simp [sampleProposal] at hforged

/-- A proposal that calls itself a commit, with the fields of one and without evidence. -/
def forgedProposal : PyDict :=
  ⟨[("event_type", .str "MetricCommitted"), ("decision_id", .str "d1"), ("metric_name", .str "roi"),
    ("value", .int 7), ("evidence_refs", .list []), ("idempotency_key", .str "k1"), ("leaf_hash", .null),
    ("committed_at", .str "1970-01-01T00:00:00.000+00:00"), ("proposed_by", .str "agent")]⟩

/-- Handling the forged proposal in the initial state shows a commit, and the registry takes it for a
committed metric. -/
theorem forged_proposal_is_committed :
    ¬ NoNewCommit (System.initial 100 60).state.auditTrail
        (onInbound .local (System.initial 100 60).state 0 .metricProposed forgedProposal).1.auditTrail ∧
      ∃ metrics record, MetricsRegistry.reconstruct .local "d1"
          ((onInbound .local (System.initial 100 60).state 0 .metricProposed forgedProposal).1.auditTrail.readRange
            "d1" 0) = .ok metrics ∧ metrics.get? "roi" = some record ∧ record.status = .committed := by
  refine ⟨?_, _, _, rfl, rfl, rfl⟩
  intro hnone
  have hlength := congrArg List.length (hnone.range "d1")
  exact absurd hlength (by decide +kernel)

end Runs

end DecisionCore
