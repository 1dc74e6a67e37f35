import DecisionCore.ReadModel.Isolation

/-!
# The order between topics

Each topic of the bus has its own consumer, so that the events of one topic are handled in their order and those of
different topics in any.  A board is made of what commits, rejects and supersedes, of the risk signals and of the
published roots; it shows the order within each of these and not the one between them.
-/

namespace DecisionCore

open CommandHandler MetricsRegistry ScoreboardProjector

variable {env : Env} {decisionId : String}

/-! ## The events a board is made of -/

/-- The types that the registry of the metrics reads. -/
def registryTypes : List String := ["MetricCommitted", "MetricRejected", "MetricSuperseded"]

/-- The event is of one of the types. -/
def isOneOf (types : List String) (evt : PyDict) : Bool := types.any evt.hasType

theorem replay_filter (env : Env) (decisionId : String) (log : List PyDict) (metrics : Metrics) :
    replay env decisionId metrics (log.filter (isOneOf registryTypes)) = replay env decisionId metrics log := by
  induction log generalizing metrics with
  | nil => rfl
  | cons evt rest ih =>
    by_cases hone : isOneOf registryTypes evt = true
    · rw [List.filter_cons_of_pos hone]
      simp only [replay, ih]
    · rw [List.filter_cons_of_neg hone, ih]
      simp only [isOneOf, registryTypes, List.any_cons, List.any_nil, Bool.or_false, Bool.or_eq_true, not_or,
        Bool.not_eq_true] at hone
      obtain ⟨hcommit, hreject, hsupersede⟩ := hone
      simp only [replay, hcommit, hreject, hsupersede, Bool.false_eq_true, if_false]

theorem riskSignals_filter (env : Env) (decisionId : String) (log : List PyDict) :
    RiskMatrix.reconstruct env decisionId (log.filter (isOneOf ["RiskSignal"])) =
      RiskMatrix.reconstruct env decisionId log := by
  induction log with
  | nil => rfl
  | cons evt rest ih =>
    cases hone : evt.hasType "RiskSignal" with
    | true =>
      have hkept : isOneOf ["RiskSignal"] evt = true := by simp [isOneOf, hone]
      rw [List.filter_cons_of_pos hkept]
      simp only [RiskMatrix.reconstruct, hone, if_true, ih]
    | false =>
      have hdropped : ¬ isOneOf ["RiskSignal"] evt = true := by simp [isOneOf, hone]
      rw [List.filter_cons_of_neg hdropped, ih]
      simp only [RiskMatrix.reconstruct, hone, Bool.false_eq_true, if_false]

theorem lastRootEvent_filter (log : List PyDict) :
    lastRootEvent (log.filter (isOneOf ["MerkleRootPublished"])) = lastRootEvent log := by
  have hroot : isOneOf ["MerkleRootPublished"] = isRootEvent := by
    funext evt
    simp [isOneOf, isRootEvent]
  rw [lastRootEvent_eq, lastRootEvent_eq, hroot, List.filter_filter]
  simp only [Bool.and_self]

/-- The board without the number of events it was made from. -/
def ScoreboardState.unnumbered (board : ScoreboardState) : ScoreboardState := { board with rebuildSeq := 0 }

/-- Logs with the same events of each kind, apart from identifiers, give the same board. -/
theorem project_of_kinds {first second : List PyDict}
    (h : ∀ types ∈ [registryTypes, ["RiskSignal"], ["MerkleRootPublished"]],
      List.Forall₂ SameRecord (first.filter (isOneOf types)) (second.filter (isOneOf types)))
    (requiredMetrics : List String) (now : Instant) :
    (project env decisionId requiredMetrics now first).map ScoreboardState.unnumbered =
      (project env decisionId requiredMetrics now second).map ScoreboardState.unnumbered := by
  simp only [List.forall_mem_cons] at h
  obtain ⟨hregistry, hrisk, hroots, -⟩ := h
  have hmetrics : reconstruct env decisionId first = reconstruct env decisionId second := by
    calc reconstruct env decisionId first
        = replay env decisionId .empty (first.filter (isOneOf registryTypes)) := (replay_filter env _ first _).symm
      _ = replay env decisionId .empty (second.filter (isOneOf registryTypes)) := replay_same hregistry _
      _ = reconstruct env decisionId second := replay_filter env _ second _
  have hsignals : RiskMatrix.reconstruct env decisionId first = RiskMatrix.reconstruct env decisionId second := by
    rw [← riskSignals_filter env decisionId first, ← riskSignals_filter env decisionId second, riskSignals_same hrisk]
  have hlast : Option.Rel SameRecord (lastRootEvent first) (lastRootEvent second) := by
    rw [← lastRootEvent_filter first, ← lastRootEvent_filter second]
    exact lastRootEvent_same hroots
  simp only [project, hmetrics, hsignals, merkleRootRef_same hlast, merkleTimestamp_same env hlast]
  cases reconstruct env decisionId second with
  | error error => rfl
  | ok metrics =>
    cases RiskMatrix.reconstruct env decisionId second with
    | error error => rfl
    | ok risks =>
      cases merkleRootRef second with
      | error error => rfl
      | ok root =>
        cases merkleTimestamp env second with
        | error error => rfl
        | ok timestamp =>
          simp only [bind, Except.bind]
          cases PolicyEvaluator.evaluatePolicy requiredMetrics metrics risks none .default with
          | error error => rfl
          | ok verdict =>
            simp only
            cases rootField root with
            | error error => rfl
            | ok ref => rfl

/-! ## The appends of a call -/

structure AppendArgs where
  target : Json
  eventType : String
  payload : PyDict
  key : Option String

def AppState.appendWith (env : Env) (state : AppState) (args : AppendArgs) : AppState :=
  (state.append env args.target args.eventType args.payload args.key).1

/-- The call can commit, reject or supersede. -/
def Call.isCommand : Call → Bool
  | .updateMetric _ => true
  | .supersede _ => true
  | .inbound .reconciledDecision _ => true
  | _ => false

/-- The types of the events that a call can append. -/
def Call.eventTypes : Call → List String
  | .updateMetric _ => ["MetricCommitted", "MetricRejected"]
  | .supersede _ => ["MetricSuperseded"]
  | .inbound .reconciledDecision _ => ["ReconciledDecision", "MetricCommitted", "MetricRejected"]
  | .inbound kind _ => [kind.eventType]
  | _ => []

/-- What an append of the call can be. -/
structure AppendArgs.By (args : AppendArgs) (call : Call) : Prop where
  eventType : args.eventType ∈ call.eventTypes
  key : call.isCommand = false → args.key = none
  honest : call.Honest → ∀ value, args.payload.get? "event_type" = some value → value = .str args.eventType

/-- The states have the same trail and draw the same identifiers. -/
def SameTrail (first second : AppState) : Prop :=
  first.auditTrail = second.auditTrail ∧ first.drawn = second.drawn

theorem SameTrail.appendWith {first second : AppState} (h : SameTrail first second) (args : AppendArgs) :
    SameTrail (first.appendWith env args) (second.appendWith env args) := by
  obtain ⟨htrail, hdrawn⟩ := h
  constructor
  · simp only [AppState.appendWith, AppState.append, htrail, hdrawn]
  · simp only [AppState.appendWith, AppState.append, hdrawn]

theorem SameTrail.trans {first second third : AppState} (h : SameTrail first second) (h' : SameTrail second third) :
    SameTrail first third :=
  ⟨h.1.trans h'.1, h.2.trans h'.2⟩

theorem SameTrail.foldl {first second : AppState} (h : SameTrail first second) (appends : List AppendArgs) :
    SameTrail (appends.foldl (AppState.appendWith env) first) (appends.foldl (AppState.appendWith env) second) := by
  induction appends generalizing first second with
  | nil => exact h
  | cons args rest ih => exact ih (h.appendWith args)

/-- On the trail the call is these appends, whatever the state. -/
def Plan (env : Env) (label : Instant × Call) (appends : List AppendArgs) : Prop :=
  (∀ args ∈ appends, args.By label.2) ∧ ∀ {state next}, CommandHandler.step env state label = some next →
    SameTrail next (appends.foldl (AppState.appendWith env) state)

theorem finish_sameTrail (state : AppState) (progress : Except PyError Progress) :
    SameTrail (CommandHandler.finish (state, progress)).1 state := by
  cases progress with
  | error error => exact ⟨rfl, rfl⟩
  | ok progress => cases progress <;> exact ⟨rfl, rfl⟩

/-- The append of a commit. -/
def Commit.appendArgs (env : Env) (commit : Commit) : AppendArgs :=
  ⟨.str commit.decisionId, "MetricCommitted", (commit.entry env "").payload, some commit.idempotencyKey⟩

theorem segment_sameTrail (commit : Commit) (state : AppState) :
    SameTrail (CommandHandler.finish (commit.segment env state)).1 (state.appendWith env (commit.appendArgs env)) :=
  finish_sameTrail _ _

theorem Commit.appendArgs_by (commit : Commit) {call : Call} (htype : "MetricCommitted" ∈ call.eventTypes)
    (hcommand : call.isCommand = true) : (commit.appendArgs env).By call where
  eventType := htype
  key hnone := by simp [hcommand] at hnone
  honest _ := commit.entry_honest ""

def rejectedArgs (env : Env) (target metricName key : Json) (now : Instant) : AppendArgs :=
  ⟨target, "MetricRejected", rejectedPayload env target metricName key now, none⟩

theorem rejectedArgs_by (target metricName key : Json) (now : Instant) {call : Call}
    (htype : "MetricRejected" ∈ call.eventTypes) : (rejectedArgs env target metricName key now).By call where
  eventType := htype
  key _ := rfl
  honest _ := by simp [rejectedArgs, rejectedPayload]

/-- The append of an event as it came in. -/
theorem inboundArgs_by {kind : Inbound} {payload : PyDict} (target : Json)
    (htype : kind.eventType ∈ (Call.inbound kind payload).eventTypes) :
    (AppendArgs.mk target kind.eventType payload none).By (.inbound kind payload) where
  eventType := htype
  key _ := rfl
  honest hhonest := hhonest

theorem stageAndAppend_plan (env : Env) (eventType : String) (payload : PyDict) (stage : Option PyDict → PyDict) :
    ∃ appends : List AppendArgs, (∀ args ∈ appends, ∃ target, args = ⟨target, eventType, payload, none⟩) ∧
      ∀ state, SameTrail (stageAndAppend env state eventType payload stage).1
        (appends.foldl (AppState.appendWith env) state) := by
  cases hkey : stagingKey payload with
  | error error =>
    refine ⟨[], List.forall_mem_nil _, ?_⟩
    intro state
    simp only [stageAndAppend, hkey]
    exact ⟨rfl, rfl⟩
  | ok found =>
    obtain ⟨target, key⟩ := found
    refine ⟨[⟨target, eventType, payload, none⟩], by simp, ?_⟩
    intro state
    simp only [stageAndAppend, hkey]
    exact ⟨rfl, rfl⟩

theorem appendInbound_plan (env : Env) (eventType : String) (payload : PyDict) :
    ∃ appends : List AppendArgs, (∀ args ∈ appends, ∃ target, args = ⟨target, eventType, payload, none⟩) ∧
      ∀ state, SameTrail (appendInbound env state eventType payload).1
        (appends.foldl (AppState.appendWith env) state) := by
  cases hdecision : field payload "decision_id" with
  | error error =>
    refine ⟨[], List.forall_mem_nil _, ?_⟩
    intro state
    simp only [appendInbound, hdecision]
    exact ⟨rfl, rfl⟩
  | ok target =>
    refine ⟨[⟨target, eventType, payload, none⟩], by simp, ?_⟩
    intro state
    simp only [appendInbound, hdecision]
    exact ⟨rfl, rfl⟩

theorem appendRuntime_plan (env : Env) (eventType : String) (payload : PyDict) :
    ∃ appends : List AppendArgs, (∀ args ∈ appends, ∃ target, args = ⟨target, eventType, payload, none⟩) ∧
      ∀ state, SameTrail (appendRuntime env state eventType payload).1
        (appends.foldl (AppState.appendWith env) state) := by
  refine ⟨[⟨(payload.get? "decision_id").getD (.str "runtime"), eventType, payload, none⟩], by simp, ?_⟩
  intro state
  exact ⟨rfl, rfl⟩

theorem reconciledDecision_plan (env : Env) (now : Instant) (payload : PyDict) :
    ∃ appends, Plan env (now, .inbound .reconciledDecision payload) appends := by
  obtain ⟨error, hraises⟩ | ⟨stage, hstage⟩ := onReconciledDecision_plan env now payload
  · refine ⟨[], List.forall_mem_nil _, ?_⟩
    intro state next hstep
    obtain rfl := Option.some.inj hstep
    simp only [onInbound, hraises]
    exact ⟨rfl, rfl⟩
  · obtain ⟨staged, hstaged, hstate⟩ := stageAndAppend_plan env "ReconciledDecision" payload stage
    have hby : ∀ args ∈ staged, args.By (.inbound .reconciledDecision payload) := by
      intro args hargs
      obtain ⟨target, rfl⟩ := hstaged args hargs
      have htype : Inbound.reconciledDecision.eventType ∈ (Call.inbound .reconciledDecision payload).eventTypes :=
        List.mem_cons_self
      exact inboundArgs_by target htype
    -- The gate appends nothing more, or one event.
    have hgate : ∃ more : List AppendArgs, (∀ args ∈ more, args.By (.inbound .reconciledDecision payload)) ∧
        ∀ state, SameTrail (CommandHandler.finish (reconciledGate env state now payload)).1
          (more.foldl (AppState.appendWith env) state) := by
      obtain ⟨commit, -, -, hcommit⟩ | ⟨target, metricName, key, -, hrejects⟩ | hsilent :=
        reconciledGate_plan env now payload
      · refine ⟨[commit.appendArgs env], ?_, ?_⟩
        · exact List.forall_mem_singleton.mpr (commit.appendArgs_by (by simp [Call.eventTypes]) rfl)
        · intro state
          rw [hcommit]
          exact segment_sameTrail commit state
      · refine ⟨[rejectedArgs env target metricName key now], ?_, ?_⟩
        · exact List.forall_mem_singleton.mpr (rejectedArgs_by _ _ _ _ (by simp [Call.eventTypes]))
        · intro state
          rw [hrejects]
          exact ⟨rfl, rfl⟩
      · refine ⟨[], List.forall_mem_nil _, ?_⟩
        intro state
        rw [hsilent]
        exact ⟨rfl, rfl⟩
    obtain ⟨more, hmore, hfinish⟩ := hgate
    refine ⟨staged ++ more, List.forall_mem_append.mpr ⟨hby, hmore⟩, ?_⟩
    intro state next hstep
    obtain rfl := Option.some.inj hstep
    simp only [onInbound, hstage, List.foldl_append]
    exact (hfinish _).trans ((hstate state).foldl more)

/-- A handler that appends its payload under its type. -/
theorem plan_of_inbound {now : Instant} {kind : Inbound} {payload : PyDict}
    (htype : kind.eventType ∈ (Call.inbound kind payload).eventTypes)
    (h : ∃ appends : List AppendArgs, (∀ args ∈ appends, ∃ target, args = ⟨target, kind.eventType, payload, none⟩) ∧
      ∀ state, SameTrail (onInbound env state now kind payload).1 (appends.foldl (AppState.appendWith env) state)) :
    ∃ appends, Plan env (now, .inbound kind payload) appends := by
  obtain ⟨appends, happends, hstate⟩ := h
  refine ⟨appends, ?_, ?_⟩
  · intro args hargs
    obtain ⟨target, rfl⟩ := happends args hargs
    exact inboundArgs_by target htype
  · intro state next hstep
    obtain rfl := Option.some.inj hstep
    exact hstate state

theorem exists_plan (env : Env) (label : Instant × Call) : ∃ appends, Plan env label appends := by
  obtain ⟨now, call⟩ := label
  cases call with
  | updateMetric cmd =>
    obtain hcommit | hrejects := handleUpdateMetric_plan env now cmd
    · refine ⟨[(cmd.commit now).appendArgs env], ?_, ?_⟩
      · exact List.forall_mem_singleton.mpr ((cmd.commit now).appendArgs_by (by simp [Call.eventTypes]) rfl)
      · intro state next hstep
        obtain rfl := Option.some.inj hstep
        rw [hcommit]
        exact segment_sameTrail _ state
    · refine ⟨[rejectedArgs env (.str cmd.decisionId) (.str cmd.metricName) (.str cmd.idempotencyKey) now], ?_, ?_⟩
      · exact List.forall_mem_singleton.mpr (rejectedArgs_by _ _ _ _ (by simp [Call.eventTypes]))
      · intro state next hstep
        obtain rfl := Option.some.inj hstep
        rw [hrejects]
        exact ⟨rfl, rfl⟩
  | inbound kind payload =>
    cases kind with
    | metricProposed => exact plan_of_inbound List.mem_cons_self (stageAndAppend_plan env _ payload _)
    | debateOutcome => exact plan_of_inbound List.mem_cons_self (stageAndAppend_plan env _ payload _)
    | riskSignal => exact plan_of_inbound List.mem_cons_self (stageAndAppend_plan env _ payload _)
    | reconciledDecision => exact reconciledDecision_plan env now payload
    | evidenceAttached => exact plan_of_inbound List.mem_cons_self (appendInbound_plan env _ payload)
    | goalCreated => exact plan_of_inbound List.mem_cons_self (appendInbound_plan env _ payload)
    | goalCancelled => exact plan_of_inbound List.mem_cons_self (appendInbound_plan env _ payload)
    | runtimeArtifactDeployed => exact plan_of_inbound List.mem_cons_self (appendRuntime_plan env _ payload)
    | runtimeConfigUpdated => exact plan_of_inbound List.mem_cons_self (appendRuntime_plan env _ payload)
  | supersede args =>
    refine ⟨[⟨.str args.decisionId, "MetricSuperseded", supersededPayload env now args,
      some args.supersedingIdempotencyKey⟩], ?_, ?_⟩
    · intro found hfound
      rw [List.mem_singleton.mp hfound]
      refine ⟨List.mem_cons_self, ?_, ?_⟩
      · intro hnone
        cases hnone
      · intro _
        simp [supersededPayload]
    · intro state next hstep
      obtain rfl := Option.some.inj hstep
      exact ⟨rfl, rfl⟩
  | _ =>
    refine ⟨[], List.forall_mem_nil _, ?_⟩
    intro state next hstep
    cases hstep

/-! ## States with the same events of some types -/

def Entry.unnamed (entry : Entry) : Entry := { entry with eventId := "" }

/-- The events of the decision that have one of the types. -/
def AppState.entriesIn (state : AppState) (types : List String) (decisionId : String) : List Entry :=
  (state.auditTrail.entriesOf decisionId).filter fun entry ↦ decide (entry.eventType ∈ types)

/-- The decision has the same events of the types, apart from identifiers; if commands are among what is followed,
the same keys are known. -/
structure Agrees (types : List String) (keyed : Bool) (decisionId : String) (first second : AppState) : Prop where
  entries : (first.entriesIn types decisionId).map Entry.unnamed =
    (second.entriesIn types decisionId).map Entry.unnamed
  known : keyed = true → ∀ key, (first.auditTrail.existing? (some key)).isSome = true ↔
    (second.auditTrail.existing? (some key)).isSome = true
  honest : (∀ entry ∈ first.auditTrail.events, entry.Honest) ∧ ∀ entry ∈ second.auditTrail.events, entry.Honest

section Agreement

variable {types : List String} {keyed : Bool} {first second other : AppState}

theorem Agrees.sameTrail (h : Agrees types keyed decisionId first second) (hfirst : SameTrail other first) :
    Agrees types keyed decisionId other second := by
  obtain ⟨htrail, -⟩ := hfirst
  refine ⟨?_, ?_, ?_⟩
  · rw [AppState.entriesIn, htrail]
    exact h.entries
  · rw [htrail]
    exact h.known
  · rw [htrail]
    exact h.honest

theorem Agrees.symm (h : Agrees types keyed decisionId first second) : Agrees types keyed decisionId second first where
  entries := h.entries.symm
  known hkeyed key := (h.known hkeyed key).symm
  honest := h.honest.symm

theorem Agrees.trans (h : Agrees types keyed decisionId first second)
    (h' : Agrees types keyed decisionId second other) : Agrees types keyed decisionId first other where
  entries := h.entries.trans h'.entries
  known hkeyed key := (h.known hkeyed key).trans (h'.known hkeyed key)
  honest := ⟨h.honest.1, h'.honest.2⟩

theorem honest_appendWith (hstate : ∀ entry ∈ first.auditTrail.events, entry.Honest) {args : AppendArgs}
    (hargs : ∀ value, args.payload.get? "event_type" = some value → value = .str args.eventType) :
    ∀ entry ∈ (first.appendWith env args).auditTrail.events, entry.Honest := by
  obtain ⟨hevents, -⟩ | ⟨hevents, -⟩ := MemoryAuditTrail.append_events_cases first.auditTrail
    (env.uuid4 first.drawn) args.target args.eventType args.payload args.key
  · have hsame : (first.appendWith env args).auditTrail.events = first.auditTrail.events := hevents
    rw [hsame]
    exact hstate
  · have hmore : (first.appendWith env args).auditTrail.events = first.auditTrail.events ++
        [⟨env.uuid4 first.drawn, args.target, args.eventType, args.payload, args.key⟩] := hevents
    rw [hmore, List.forall_mem_append]
    exact ⟨hstate, List.forall_mem_singleton.mpr hargs⟩

/-- An append on both sides; under a key only where the keys are followed. -/
theorem Agrees.append (h : Agrees types keyed decisionId first second) {args : AppendArgs}
    (hkey : keyed = false → args.key = none)
    (hargs : ∀ value, args.payload.get? "event_type" = some value → value = .str args.eventType) :
    Agrees types keyed decisionId (first.appendWith env args) (second.appendWith env args) where
  entries := by
    have hknown : (first.auditTrail.existing? args.key).isSome = (second.auditTrail.existing? args.key).isSome := by
      cases keyed with
      | false => rw [hkey rfl]; rfl
      | true =>
        cases args.key with
        | none => rfl
        | some text => exact Bool.eq_iff_iff.mpr (h.known rfl text)
    have hentries := h.entries
    simp only [AppState.entriesIn, AppState.appendWith] at hentries ⊢
    rw [append_entriesOf, append_entriesOf, hknown, List.filter_append, List.filter_append, List.map_append,
      List.map_append, hentries]
    congr 1
    split
    · by_cases htype : args.eventType ∈ types
      · simp [htype, Entry.unnamed]
      · simp [htype]
    · rfl
  known hkeyed other := by
    simp only [AppState.appendWith]
    rw [append_known_iff, append_known_iff, h.known hkeyed other]
  honest := ⟨honest_appendWith h.honest.1 hargs, honest_appendWith h.honest.2 hargs⟩

/-- An append of another type is not seen, if it has no key where the keys are followed. -/
theorem Agrees.append_left (h : Agrees types keyed decisionId first second) {args : AppendArgs}
    (htype : args.eventType ∉ types) (hkey : keyed = true → args.key = none)
    (hargs : ∀ value, args.payload.get? "event_type" = some value → value = .str args.eventType) :
    Agrees types keyed decisionId (first.appendWith env args) second where
  entries := by
    have hentries := h.entries
    simp only [AppState.entriesIn, AppState.appendWith] at hentries ⊢
    rw [append_entriesOf, List.filter_append, ← hentries]
    congr 1
    split
    · simp [htype]
    · rw [List.filter_nil, List.append_nil]
  known hkeyed other := by
    simp only [AppState.appendWith]
    rw [append_known_iff, hkey hkeyed, h.known hkeyed other]
    simp
  honest := ⟨honest_appendWith h.honest.1 hargs, h.honest.2⟩

theorem Agrees.foldl (h : Agrees types keyed decisionId first second) {appends : List AppendArgs}
    (hkeys : ∀ args ∈ appends, keyed = false → args.key = none)
    (hhonest : ∀ args ∈ appends, ∀ value, args.payload.get? "event_type" = some value → value = .str args.eventType) :
    Agrees types keyed decisionId (appends.foldl (AppState.appendWith env) first)
      (appends.foldl (AppState.appendWith env) second) := by
  induction appends generalizing first second with
  | nil => exact h
  | cons args rest ih =>
    obtain ⟨hkey, hmoreKeys⟩ := List.forall_mem_cons.mp hkeys
    obtain ⟨hargs, hmore⟩ := List.forall_mem_cons.mp hhonest
    exact ih (h.append hkey hargs) hmoreKeys hmore

theorem Agrees.foldl_left (h : Agrees types keyed decisionId first second) {appends : List AppendArgs}
    (htypes : ∀ args ∈ appends, args.eventType ∉ types) (hkeys : ∀ args ∈ appends, keyed = true → args.key = none)
    (hhonest : ∀ args ∈ appends, ∀ value, args.payload.get? "event_type" = some value → value = .str args.eventType) :
    Agrees types keyed decisionId (appends.foldl (AppState.appendWith env) first) second := by
  induction appends generalizing first with
  | nil => exact h
  | cons args rest ih =>
    obtain ⟨htype, hmoreTypes⟩ := List.forall_mem_cons.mp htypes
    obtain ⟨hkey, hmoreKeys⟩ := List.forall_mem_cons.mp hkeys
    obtain ⟨hargs, hmore⟩ := List.forall_mem_cons.mp hhonest
    exact ih (h.append_left htype hkey hargs) hmoreTypes hmoreKeys hmore

/-! ## Calls -/

theorem step_isSome (env : Env) (second : AppState) {label : Instant × Call} {next : AppState}
    (h : CommandHandler.step env first label = some next) :
    ∃ after, CommandHandler.step env second label = some after := by
  obtain ⟨now, call⟩ := label
  cases call with
  | updateMetric cmd => exact ⟨_, rfl⟩
  | inbound kind payload => exact ⟨_, rfl⟩
  | supersede args => exact ⟨_, rfl⟩
  | _ => cases h

/-- A call on both sides; a command only where the keys are followed. -/
theorem Agrees.step (h : Agrees types keyed decisionId first second) {label : Instant × Call}
    (hhonest : label.2.Honest) (hkeys : keyed = false → label.2.isCommand = false) {next : AppState}
    (hstep : CommandHandler.step env first label = some next) :
    ∃ after, CommandHandler.step env second label = some after ∧ Agrees types keyed decisionId next after := by
  obtain ⟨appends, hby, hplan⟩ := exists_plan env label
  obtain ⟨after, hafter⟩ := step_isSome env second hstep
  have hfold : Agrees types keyed decisionId (appends.foldl (AppState.appendWith env) first)
      (appends.foldl (AppState.appendWith env) second) := by
    apply h.foldl
    · intro args hargs hunkeyed
      exact (hby args hargs).key (hkeys hunkeyed)
    · exact fun args hargs ↦ (hby args hargs).honest hhonest
  exact ⟨after, hafter, ((hfold.sameTrail (hplan hstep)).symm.sameTrail (hplan hafter)).symm⟩

/-- A call that appends other types only is not seen, if it is no command where the keys are followed. -/
theorem Agrees.step_left (h : Agrees types keyed decisionId first second) {label : Instant × Call}
    (hhonest : label.2.Honest) (htypes : ∀ eventType ∈ label.2.eventTypes, eventType ∉ types)
    (hkeys : keyed = true → label.2.isCommand = false) {next : AppState}
    (hstep : CommandHandler.step env first label = some next) : Agrees types keyed decisionId next second := by
  obtain ⟨appends, hby, hplan⟩ := exists_plan env label
  have hfold : Agrees types keyed decisionId (appends.foldl (AppState.appendWith env) first) second := by
    apply h.foldl_left
    · exact fun args hargs ↦ htypes _ (hby args hargs).eventType
    · intro args hargs hkeyed
      exact (hby args hargs).key (hkeys hkeyed)
    · exact fun args hargs ↦ (hby args hargs).honest hhonest
  exact hfold.sameTrail (hplan hstep)

/-- The events of a decision that have one of the types, as they are read. -/
theorem log_filter (hhonest : ∀ entry ∈ first.auditTrail.events, entry.Honest) (types : List String)
    (decisionId : String) :
    (first.log decisionId).filter (isOneOf types) = (first.entriesIn types decisionId).map Entry.record := by
  rw [AppState.log, MemoryAuditTrail.readRange, sliceFrom_zero, List.filter_map, AppState.entriesIn]
  congr 1
  apply List.filter_congr
  intro entry hentry
  have hown := hhonest entry (MemoryAuditTrail.mem_entriesOf.mp hentry).1
  rw [Function.comp, isOneOf, Bool.eq_iff_iff, List.any_eq_true, decide_eq_true_iff]
  constructor
  · rintro ⟨eventType, hmem, htype⟩
    rw [hown.hasType, decide_eq_true_iff] at htype
    rwa [htype]
  · intro hmem
    exact ⟨entry.eventType, hmem, by rw [hown.hasType, decide_eq_true_iff]⟩

/-- What the board is made of is read alike on both sides. -/
theorem Agrees.records (h : Agrees types keyed decisionId first second) :
    List.Forall₂ SameRecord ((first.log decisionId).filter (isOneOf types))
      ((second.log decisionId).filter (isOneOf types)) := by
  rw [log_filter h.honest.1, log_filter h.honest.2, List.forall₂_map_left_iff, List.forall₂_map_right_iff]
  have hentries : List.Forall₂ Eq ((first.entriesIn types decisionId).map Entry.unnamed)
      ((second.entriesIn types decisionId).map Entry.unnamed) := by
    rw [List.forall₂_eq_eq_eq, h.entries]
  rw [List.forall₂_map_left_iff, List.forall₂_map_right_iff] at hentries
  apply hentries.imp
  intro entry other hunnamed
  have hsame : SameEntry entry other := by
    calc { entry with eventId := other.eventId } = { entry.unnamed with eventId := other.eventId } := rfl
      _ = { other.unnamed with eventId := other.eventId } := by rw [hunnamed]
      _ = other := rfl
  exact hsame.record

end Agreement

/-! ## Interleavings of the topics -/

/-- The event comes from the topic of the risk signals. -/
def Call.isRisk : Call → Bool
  | .inbound .riskSignal _ => true
  | _ => false

/-- Calls that are not followed append other types, and have no key where keys are followed. -/
structure Follows (types : List String) (keyed : Bool) (kept : Call → Bool) : Prop where
  keeps : ∀ call, kept call = true → keyed = false → call.isCommand = false
  skips : ∀ call, kept call = false →
    (∀ eventType ∈ call.eventTypes, eventType ∉ types) ∧ (keyed = true → call.isCommand = false)

theorem follows_registry : Follows registryTypes true Call.isCommand where
  keeps call _ hkeyed := by cases hkeyed
  skips call hskipped := by
    refine ⟨?_, fun _ ↦ hskipped⟩
    cases call with
    | inbound kind payload =>
      cases kind with
      | reconciledDecision => cases hskipped
      | _ => simp [Call.eventTypes, Inbound.eventType, registryTypes]
    | updateMetric cmd => cases hskipped
    | supersede args => cases hskipped
    | _ => exact List.forall_mem_nil _

theorem follows_risk : Follows ["RiskSignal"] false Call.isRisk where
  keeps call hkept _ := by
    cases call with
    | inbound kind payload =>
      cases kind with
      | riskSignal => rfl
      | _ => cases hkept
    | _ => cases hkept
  skips call hskipped := by
    refine ⟨?_, fun hkeyed ↦ by cases hkeyed⟩
    cases call with
    | inbound kind payload =>
      cases kind with
      | riskSignal => cases hskipped
      | _ => simp [Call.eventTypes, Inbound.eventType]
    | _ => simp [Call.eventTypes]

/-- No call of the command handler publishes a root. -/
theorem follows_roots : Follows ["MerkleRootPublished"] false fun _ ↦ false where
  keeps call hkept _ := by cases hkept
  skips call _ := by
    refine ⟨?_, fun hkeyed ↦ by cases hkeyed⟩
    cases call with
    | inbound kind payload => cases kind <;> simp [Call.eventTypes, Inbound.eventType]
    | _ => simp [Call.eventTypes]

section Orders

variable {start last other : AppState} {labels others : List (Instant × Call)}

/-- With the calls that are not followed left out, a decision has the same events of the types. -/
theorem agrees_of_follow {types : List String} {keyed : Bool} {kept : Call → Bool} (follows : Follows types keyed kept)
    (decisionId : String) (hstart : ∀ entry ∈ start.auditTrail.events, entry.Honest)
    (hhonest : ∀ label ∈ labels, label.2.Honest) (h : follow (CommandHandler.step env) start labels = some last) :
    ∃ after, follow (CommandHandler.step env) start (labels.filter fun label ↦ kept label.2) = some after ∧
      Agrees types keyed decisionId last after := by
  have hkeeps {state other : AppState} {label : Instant × Call} {next : AppState}
      (hsame : Agrees types keyed decisionId state other) (hlabel : label.2.Honest) (hkept : kept label.2 = true)
      (hstep : CommandHandler.step env state label = some next) :=
    hsame.step hlabel (follows.keeps label.2 hkept) hstep
  have hskips {state other : AppState} {label : Instant × Call} {next : AppState}
      (hsame : Agrees types keyed decisionId state other) (hlabel : label.2.Honest) (hskipped : kept label.2 = false)
      (hstep : CommandHandler.step env state label = some next) : Agrees types keyed decisionId next other := by
    obtain ⟨htypes, hkeys⟩ := follows.skips label.2 hskipped
    exact hsame.step_left hlabel htypes hkeys hstep
  have hrefl : Agrees types keyed decisionId start start := ⟨rfl, fun _ _ ↦ Iff.rfl, hstart, hstart⟩
  exact follow_filter hkeeps hskips hhonest hrefl h

/-- In every order of the calls in which the commands have one order and the risk signals have one, whatever the order
between the two and with whatever other events, every decision has the same board, up to the number of its events. -/
theorem board_ignores_topic_order (hstart : ∀ entry ∈ start.auditTrail.events, entry.Honest)
    (hhonest : ∀ label ∈ labels ++ others, label.2.Honest)
    (hcommands : (labels.filter fun label ↦ label.2.isCommand) = others.filter fun label ↦ label.2.isCommand)
    (hrisks : (labels.filter fun label ↦ label.2.isRisk) = others.filter fun label ↦ label.2.isRisk)
    (h : follow (CommandHandler.step env) start labels = some last)
    (h' : follow (CommandHandler.step env) start others = some other) (decisionId : String)
    (requiredMetrics : List String) (now : Instant) :
    (project env decisionId requiredMetrics now (last.log decisionId)).map ScoreboardState.unnumbered =
      (project env decisionId requiredMetrics now (other.log decisionId)).map ScoreboardState.unnumbered := by
  obtain ⟨hlabels, hothers⟩ := List.forall_mem_append.mp hhonest
  -- Both orders end like the run of the followed calls alone.
  have hrecords {types : List String} {keyed : Bool} {kept : Call → Bool} (follows : Follows types keyed kept)
      (hkept : (labels.filter fun label ↦ kept label.2) = others.filter fun label ↦ kept label.2) :
      List.Forall₂ SameRecord ((last.log decisionId).filter (isOneOf types))
        ((other.log decisionId).filter (isOneOf types)) := by
    obtain ⟨after, hafter, hagrees⟩ := agrees_of_follow follows decisionId hstart hlabels h
    obtain ⟨after', hafter', hagrees'⟩ := agrees_of_follow follows decisionId hstart hothers h'
    obtain rfl : after = after' := by
      rw [hkept, hafter'] at hafter
      exact (Option.some.inj hafter).symm
    exact (hagrees.trans hagrees'.symm).records
  apply project_of_kinds
  simp only [List.forall_mem_cons]
  refine ⟨hrecords follows_registry hcommands, hrecords follows_risk hrisks, hrecords follows_roots ?_,
    List.forall_mem_nil _⟩
  rw [List.filter_false, List.filter_false]

end Orders

def criticalRisk : PyDict :=
  ⟨[("decision_id", .str "d1"), ("metric_name", .str "roi"), ("risk_level", .str "CRITICAL"), ("severity", .int 1)]⟩

/-- A risk signal between two commits. -/
def riskBetween : List (Instant × Call) :=
  [(0, .updateMetric sampleCommand), (1, .inbound .riskSignal criticalRisk),
    (2, .updateMetric (sampleCommit "cost" (.int 3) "k2"))]

/-- The risk signal first, and a goal before the second commit. -/
def riskFirst : List (Instant × Call) :=
  [(1, .inbound .riskSignal criticalRisk), (0, .updateMetric sampleCommand),
    (4, .inbound .goalCreated ⟨[("decision_id", .str "d1")]⟩), (2, .updateMetric (sampleCommit "cost" (.int 3) "k2"))]

theorem same_board_for_riskFirst : ∃ last other : AppState,
    follow (CommandHandler.step .local) (.initial 100 60) riskBetween = some last ∧
      follow (CommandHandler.step .local) (.initial 100 60) riskFirst = some other ∧
      ((last.log "d1").length = 3 ∧ (other.log "d1").length = 4) ∧
      (project .local "d1" ["roi", "cost"] 9 (last.log "d1")).map ScoreboardState.unnumbered =
        (project .local "d1" ["roi", "cost"] 9 (other.log "d1")).map ScoreboardState.unnumbered := by
  have hsome : ((follow (CommandHandler.step .local) (.initial 100 60) riskBetween).bind fun last ↦
      (follow (CommandHandler.step .local) (.initial 100 60) riskFirst).map fun other ↦
        decide ((last.log "d1").length = 3 ∧ (other.log "d1").length = 4)) = some true := by
    decide +kernel
  obtain ⟨last, hlast, hsome⟩ := Option.bind_eq_some_iff.mp hsome
  obtain ⟨other, hother, hlengths⟩ := Option.map_eq_some_iff.mp hsome
  have hhonest : ∀ label ∈ riskBetween ++ riskFirst, label.2.Honest := by
    simp [riskBetween, riskFirst, Call.Honest, criticalRisk]
  have hcommands : (riskBetween.filter fun label ↦ label.2.isCommand) = riskFirst.filter fun label ↦
      label.2.isCommand := rfl
  have hrisks : (riskBetween.filter fun label ↦ label.2.isRisk) = riskFirst.filter fun label ↦ label.2.isRisk := rfl
  have hempty : ∀ entry ∈ (AppState.initial 100 60).auditTrail.events, entry.Honest := List.forall_mem_nil _
  exact ⟨last, other, hlast, hother, of_decide_eq_true hlengths,
    board_ignores_topic_order hempty hhonest hcommands hrisks hlast hother "d1" ["roi", "cost"] 9⟩

end DecisionCore
