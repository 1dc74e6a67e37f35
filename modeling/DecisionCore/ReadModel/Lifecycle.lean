import DecisionCore.ReadModel.Readiness
import DecisionCore.System.FailedAppends

/-!
# The lifecycle of a staged metric

Every handler writes its own status over the staged one, whichever that is.  A call changes the stage of its own metric
only, and it moves this stage forward unless it comes late: a debate outcome behind a critique, a risk signal behind a
reconciliation, and any of these behind a commit.  A reconciled decision behind a commit may commit once more.
-/

namespace DecisionCore

open CommandHandler CompletionCriteria

variable {env : Env} {state next : AppState} {call : Call} {payload : PyDict}

/-! ## The order of the stages -/

/-- The place of a status in `PROPOSED -> DEBATED -> CRITIQUED -> RECONCILED -> COMMITTED/REJECTED`. -/
def MetricStatus.rank : MetricStatus → ℕ
  | proposed => 1
  | debated => 2
  | critiqued => 3
  | reconciled => 4
  | committed => 5
  | rejected => 5
  | superseded => 6

/-- The place of the staged status of a key, 0 without one. -/
def stageRank (staging : Staging) (key : PyKey × PyKey) : ℕ :=
  ((staging.get? key).bind stageStatus?).elim 0 MetricStatus.rank

/-- The staging key of the decision and metric a call is about. -/
def Call.stagingKey? : Call → Option (PyKey × PyKey)
  | .updateMetric cmd => some (.str cmd.decisionId, .str cmd.metricName)
  | .inbound _ payload => (stagingKey payload).toOption.map Prod.snd
  | .supersede args => some (.str args.decisionId, .str args.metricName)
  | _ => none

/-- The call opens a fresh proposal. -/
def Call.isProposal : Call → Bool
  | .inbound .metricProposed _ => true
  | _ => false

/-- A call leaves the stages of all other keys alone, and unless it opens a fresh proposal no stage moves back. -/
structure MovesForward (state : AppState) (call : Call) (next : AppState) : Prop where
  others : ∀ key, call.stagingKey? ≠ some key → next.staging.get? key = state.staging.get? key
  forward : call.isProposal = false → ∀ key, stageRank state.staging key ≤ stageRank next.staging key

/-! ## What a call does to the stages -/

/-- One key gets a stage with the status, and the others keep theirs. -/
structure Restaged (before after : Staging) (key : PyKey × PyKey) (status : MetricStatus) : Prop where
  own : (after.get? key).bind stageStatus? = some status
  others : ∀ other, other ≠ key → after.get? other = before.get? other

theorem Restaged.set (before : Staging) (key : PyKey × PyKey) {stage : PyDict} {status : MetricStatus}
    (h : stageStatus? stage = some status) : Restaged before (before.set key stage) key status where
  own := by simp [h]
  others other hne := by simp [Ne.symm hne]

theorem Restaged.trans {before middle after : Staging} {key : PyKey × PyKey} {first second : MetricStatus}
    (hfirst : Restaged before middle key first) (hsecond : Restaged middle after key second) :
    Restaged before after key second where
  own := hsecond.own
  others other hne := by rw [hsecond.others other hne, hfirst.others other hne]

/-- The stages are kept, or the key of the call gets a stage with the status. -/
inductive Stages (state : AppState) (call : Call) (next : AppState) : Option MetricStatus → Prop
  | kept : next.staging = state.staging → Stages state call next none
  | set {key : PyKey × PyKey} {status : MetricStatus} : call.stagingKey? = some key →
    Restaged state.staging next.staging key status → Stages state call next (some status)

/-- A call moves forward when the status it writes is not behind the staged one. -/
theorem Stages.movesForward_iff {written : Option MetricStatus} (h : Stages state call next written) :
    MovesForward state call next ↔ call.isProposal = true ∨ ∀ status ∈ written, ∀ key ∈ call.stagingKey?,
      stageRank state.staging key ≤ status.rank := by
  cases h with
  | kept hkept =>
    refine iff_of_true ⟨?_, ?_⟩ (.inr nofun)
    · intro key _
      rw [hkept]
    · intro _ key
      rw [hkept]
  | @set key status hkey hstaged =>
    have hown : stageRank next.staging key = status.rank := by rw [stageRank, hstaged.own, Option.elim_some]
    simp only [Option.mem_def, Option.some.injEq, forall_eq', hkey]
    constructor
    · intro hmoves
      cases hproposal : call.isProposal with
      | true => exact .inl rfl
      | false =>
        rw [← hown]
        exact .inr (hmoves.forward hproposal key)
    · intro hcondition
      constructor
      · intro other hne
        apply hstaged.others
        rintro rfl
        exact hne hkey
      · intro hproposal other
        by_cases hother : other = key
        · rw [hother, hown]
          exact hcondition.resolve_left (by simp [hproposal])
        · rw [stageRank, stageRank, hstaged.others other hother]

theorem Stages.others {written : Option MetricStatus} (h : Stages state call next written) (key : PyKey × PyKey) :
    stageRank next.staging key = stageRank state.staging key ∨
      ∃ status ∈ written, stageRank next.staging key = status.rank := by
  cases h with
  | kept hkept => exact .inl (by rw [hkept])
  | @set own status _ hstaged =>
    by_cases hkey : key = own
    · refine .inr ⟨status, rfl, ?_⟩
      rw [hkey, stageRank, hstaged.own, Option.elim_some]
    · rw [stageRank, hstaged.others key hkey]
      exact .inl rfl

/-! ## Calls that come in order -/

/-- No stage lies behind that of a commit. -/
def WithinLifecycle (staging : Staging) : Prop := ∀ key, stageRank staging key ≤ MetricStatus.committed.rank

/-- The status a later event writes over the stage of its key. -/
def Call.advancesTo? : Call → Option MetricStatus
  | .inbound .debateOutcome _ => some .debated
  | .inbound .riskSignal _ => some .critiqued
  | .inbound .reconciledDecision _ => some .reconciled
  | _ => none

/-- The key of the call is staged no further than the status. -/
def Call.StagedUpTo (state : AppState) (status : MetricStatus) (call : Call) : Prop :=
  ∀ key ∈ call.stagingKey?, stageRank state.staging key ≤ status.rank

/-- The call does not come late: the stage of its key is no further than the one it writes. -/
def Call.OnTime (state : AppState) (call : Call) : Prop := ∀ status ∈ call.advancesTo?, call.StagedUpTo state status

instance (state : AppState) (call : Call) : Decidable (call.OnTime state) :=
  inferInstanceAs (Decidable (∀ _ ∈ _, ∀ _ ∈ _, _ ≤ _))

/-- The call asks for a commit under an idempotency key that is not known yet. -/
def Call.CommitsNew (state : AppState) (call : Call) : Prop :=
  ∃ commit, call.Commits commit ∧ state.auditTrail.existing? (some commit.idempotencyKey) = none

theorem Call.commitsNew_congr {first second : AppState} (h : ∀ known, first.auditTrail.existing? (some known) =
      second.auditTrail.existing? (some known)) (call : Call) : call.CommitsNew first ↔ call.CommitsNew second := by
  simp only [Call.CommitsNew, h]

/-- The call comes on time, or ends with a commit. -/
def Call.InOrder (state : AppState) (call : Call) : Prop := call.OnTime state ∨ call.CommitsNew state

theorem Call.inOrder_iff (h : ¬ call.CommitsNew state) : call.InOrder state ↔ call.OnTime state := or_iff_left h

/-- A call that writes no stage over another is on time. -/
theorem Call.onTime_of_none (state : AppState) (h : call.advancesTo? = none) : call.OnTime state := by
  intro status hstatus
  rw [h] at hstatus
  cases hstatus

theorem Call.inOrder_of_none (state : AppState) (h : call.advancesTo? = none) : call.InOrder state :=
  .inl (Call.onTime_of_none state h)

theorem Call.stagedUpTo_of_none (state : AppState) (status : MetricStatus) (h : call.stagingKey? = none) :
    call.StagedUpTo state status := by
  intro key hkey
  rw [h] at hkey
  cases hkey

theorem Call.onTime_iff {status : MetricStatus} (h : call.advancesTo? = some status) :
    call.OnTime state ↔ call.StagedUpTo state status := by
  rw [Call.OnTime, h]
  simp

/-- A call keeps the stages within the lifecycle, and moves forward if and only if it comes in order. -/
structure Advances (state : AppState) (call : Call) (next : AppState) : Prop where
  within : WithinLifecycle state.staging → WithinLifecycle next.staging
  forward_iff : WithinLifecycle state.staging → (MovesForward state call next ↔ call.InOrder state)

/-- What a call writes decides whether it moves forward. -/
theorem Stages.advances {written : Option MetricStatus} (h : Stages state call next written)
    (hwritten : ∀ status ∈ written, status.rank ≤ MetricStatus.committed.rank)
    (hcondition : WithinLifecycle state.staging →
      ((call.isProposal = true ∨ ∀ status ∈ written, call.StagedUpTo state status) ↔ call.InOrder state)) :
    Advances state call next where
  within hstate key := by
    obtain hkept | ⟨status, hstatus, hrank⟩ := h.others key
    · calc stageRank next.staging key
          = stageRank state.staging key := hkept
        _ ≤ MetricStatus.committed.rank := hstate key
    · calc stageRank next.staging key
          = status.rank := hrank
        _ ≤ MetricStatus.committed.rank := hwritten status hstatus
  forward_iff hstate := h.movesForward_iff.trans (hcondition hstate)

/-- A call that keeps all stages and is always in order. -/
theorem Advances.of_kept (hkept : next.staging = state.staging) (horder : call.InOrder state) :
    Advances state call next := by
  have hstages : Stages state call next none := .kept hkept
  apply hstages.advances nofun
  intro _
  exact iff_of_true (.inr nofun) horder

/-! ## The handlers -/

section Handlers

variable {kind : Inbound} {status : MetricStatus} {stage : Option PyDict → PyDict}

theorem Call.stagingKey?_of_ok {decisionId : Json} {key : PyKey × PyKey}
    (h : stagingKey payload = .ok (decisionId, key)) (kind : Inbound) :
    Call.stagingKey? (.inbound kind payload) = some key := by
  simp [Call.stagingKey?, h, Except.toOption]

/-- A handler that stages its payload raises without a staging key, and otherwise writes its status. -/
theorem stageAndAppend_staging (env : Env) (state : AppState) (kind : Inbound) (payload : PyDict)
    (hstatus : ∀ old, stageStatus? (stage old) = some status) :
    (∃ error, stageAndAppend env state kind.eventType payload stage = (state, .error error)) ∧
        Call.stagingKey? (.inbound kind payload) = none ∨
      ∃ decisionId key middle, stagingKey payload = .ok (decisionId, key) ∧
        stageAndAppend env state kind.eventType payload stage = (middle, .ok ()) ∧
        Restaged state.staging middle.staging key status ∧
        ∀ known, middle.auditTrail.existing? (some known) = state.auditTrail.existing? (some known) := by
  cases hkey : stagingKey payload with
  | error error =>
    refine .inl ⟨⟨error, ?_⟩, ?_⟩
    · rw [stageAndAppend, hkey]
    · simp [Call.stagingKey?, hkey, Except.toOption]
  | ok found =>
    obtain ⟨decisionId, key⟩ := found
    obtain ⟨middle, hcall, happends⟩ := stageAndAppend_ok env state hkey kind.eventType stage
    refine .inr ⟨decisionId, key, middle, rfl, hcall, ?_, ?_⟩
    · have hstaging := congrArg (fun outcome ↦ outcome.1.staging) hcall
      simp only [stageAndAppend, hkey] at hstaging
      rw [← hstaging]
      exact .set state.staging key (hstatus _)
    · intro known
      simpa [MemoryAuditTrail.existing?] using happends.index known

/-- A bus handler that only stages its payload moves forward when the stage of the key allows its status. -/
theorem stageAndAppend_advances (env : Env) (state : AppState) (payload : PyDict)
    (hstatus : ∀ old, stageStatus? (stage old) = some status) (hrank : status.rank ≤ MetricStatus.committed.rank)
    (hkind : kind ≠ .reconciledDecision)
    (horder : Call.OnTime state (.inbound kind payload) ↔ Call.isProposal (.inbound kind payload) = true ∨
      Call.StagedUpTo state status (.inbound kind payload)) :
    Advances state (.inbound kind payload) (stageAndAppend env state kind.eventType payload stage).1 := by
  have hinert : ¬ Call.CommitsNew state (.inbound kind payload) := by
    rintro ⟨commit, hcommits, -⟩
    cases kind <;> first | exact hcommits | exact hkind rfl
  have hiff := (Call.inOrder_iff hinert).trans horder
  obtain ⟨⟨error, hraised⟩, hkey⟩ | ⟨decisionId, key, middle, hkey, hcall, hstaged, -⟩ :=
    stageAndAppend_staging env state kind payload hstatus
  · apply Advances.of_kept (by rw [hraised])
    rw [hiff]
    exact .inr (Call.stagedUpTo_of_none state status hkey)
  · rw [hcall]
    apply (Stages.set (Call.stagingKey?_of_ok hkey kind) hstaged).advances
    · rintro _ ⟨⟩
      exact hrank
    · intro _
      simpa using hiff.symm

/-- A commit under a new key stages its metric as committed. -/
theorem finish_segment_staging (env : Env) (commit : Commit) (state : AppState)
    (hnew : state.auditTrail.existing? (some commit.idempotencyKey) = none) :
    Restaged state.staging (finish (commit.segment env state)).1.staging
      (.str commit.decisionId, .str commit.metricName) .committed := by
  unfold Commit.segment
  simp only [hnew, Option.isSome_none, Bool.false_eq_true, if_false]
  apply Restaged.set
  simp [stageStatus?, PyDict.text?, Json.asStr?]

/-- A commit under a known key keeps the stages. -/
theorem finish_segment_known (env : Env) (commit : Commit) (state : AppState)
    (hknown : state.auditTrail.existing? (some commit.idempotencyKey) ≠ none) :
    (finish (commit.segment env state)).1.staging = state.staging := by
  unfold Commit.segment
  rw [if_pos (Option.isSome_iff_ne_none.mpr hknown)]
  rfl

/-- The gate of a decision that commits under a new key stages its metric as committed. -/
theorem reconciledGate_commits_staging (env : Env) (state : AppState) (now : Instant) {decisionId : Json}
    {key : PyKey × PyKey} (hkey : stagingKey payload = .ok (decisionId, key))
    (h : Call.CommitsNew state (.inbound .reconciledDecision payload)) :
    Restaged state.staging (finish (reconciledGate env state now payload)).1.staging key .committed := by
  obtain ⟨commit, hcommits, hfresh⟩ := h
  have hformed := (stagingKey_of_texts hcommits.1 hcommits.2.1).symm.trans hkey
  have hsame : (PyKey.str commit.decisionId, PyKey.str commit.metricName) = key :=
    (Prod.mk.inj (Except.ok.inj hformed)).2
  rw [reconciledGate_commits_at env state now hcommits, ← hsame]
  exact finish_segment_staging env { commit with now } state hfresh

/-- The gate keeps the stages, unless the decision commits under a new key. -/
theorem reconciledGate_staging (env : Env) (state : AppState) (now : Instant) {decisionId : Json} {key : PyKey × PyKey}
    (hkey : stagingKey payload = .ok (decisionId, key))
    (h : ¬ Call.CommitsNew state (.inbound .reconciledDecision payload)) :
    (finish (reconciledGate env state now payload)).1.staging = state.staging := by
  by_cases hends : GateEnds payload
  · obtain ⟨commit, hcommits⟩ | ⟨decision, metric, name, hlacks⟩ := hends
    · rw [reconciledGate_commits_at env state now hcommits]
      apply finish_segment_known
      exact fun hnew ↦ h ⟨commit, hcommits, hnew⟩
    · obtain ⟨hdecision, hash⟩ := stagingKey_ok hkey
      obtain rfl := Option.some.inj (hlacks.1.symm.trans hdecision)
      rw [reconciledGate_rejects env state now hash hlacks]
      rfl
  · obtain ⟨error, hraised⟩ := reconciledGate_raises env state now hends
    rw [hraised]
    rfl

theorem handleUpdateMetric_advances (env : Env) (state : AppState) (now : Instant) (cmd : UpdateMetricCommand) :
    Advances state (.updateMetric cmd) (handleUpdateMetric env state now cmd).1 := by
  have horder : Call.InOrder state (.updateMetric cmd) := Call.inOrder_of_none state rfl
  unfold handleUpdateMetric
  by_cases hempty : cmd.evidenceRefs = []
  · apply Advances.of_kept _ horder
    rw [updateMetricEntry, hempty, List.isEmpty_nil, if_pos rfl, append_unkeyed_ok rfl]
    rfl
  · rw [updateMetricEntry_commits env state now hempty]
    by_cases hnew : state.auditTrail.existing? (some cmd.idempotencyKey) = none
    · apply (Stages.set rfl (finish_segment_staging env (cmd.commit now) state hnew)).advances
      · rintro _ ⟨⟩
        exact le_rfl
      · intro hstate
        refine iff_of_true (.inr ?_) horder
        rintro _ ⟨⟩ key _
        exact hstate key
    · exact .of_kept (finish_segment_known env (cmd.commit now) state hnew) horder

/-- A reconciled decision writes its own status, or that of the commit it leads to. -/
theorem onReconciledDecision_advances (env : Env) (state : AppState) (now : Instant) (payload : PyDict) :
    Advances state (.inbound .reconciledDecision payload) (onReconciledDecision env state now payload).1 := by
  let stage : Option PyDict → PyDict :=
    fun stage ↦ ((stage.getD .empty).update payload).set "status" (.str MetricStatus.reconciled.value)
  have hstatus (old : Option PyDict) : stageStatus? (stage old) = some .reconciled := stageStatus?_set _ _
  obtain ⟨⟨error, hraised⟩, hkey⟩ | ⟨decisionId, key, middle, hkey, hcall, hstaged, hknown⟩ :=
    stageAndAppend_staging env state .reconciledDecision payload hstatus
  · have hentry : reconciledEntry env state payload = (state, .error error) := hraised
    apply Advances.of_kept
    · rw [onReconciledDecision, hentry]
    · left
      rw [Call.onTime_iff rfl]
      exact Call.stagedUpTo_of_none state .reconciled hkey
  · rw [onReconciledDecision_of_entry hcall]
    by_cases hnew : Call.CommitsNew middle (.inbound .reconciledDecision payload)
    · have hcommitted := hstaged.trans (reconciledGate_commits_staging env middle now hkey hnew)
      apply (Stages.set (Call.stagingKey?_of_ok hkey _) hcommitted).advances
      · rintro _ ⟨⟩
        exact le_rfl
      · intro hstate
        refine iff_of_true (.inr ?_) (.inr ((Call.commitsNew_congr hknown _).mp hnew))
        rintro _ ⟨⟩ other _
        exact hstate other
    · have hreconciled : Restaged state.staging
          (finish (reconciledGate env middle now payload)).1.staging key .reconciled := by
        rw [reconciledGate_staging env middle now hkey hnew]
        exact hstaged
      apply (Stages.set (Call.stagingKey?_of_ok hkey _) hreconciled).advances
      · rintro _ ⟨⟩
        decide
      · intro _
        rw [Call.commitsNew_congr hknown] at hnew
        rw [Call.inOrder_iff hnew, Call.onTime_iff rfl]
        simp [Call.isProposal]

theorem onInbound_advances (env : Env) (state : AppState) (now : Instant) (kind : Inbound) (payload : PyDict) :
    Advances state (.inbound kind payload) (onInbound env state now kind payload).1 := by
  have happend (hkind : Call.InOrder state (.inbound kind payload)) (eventType : String) :
      Advances state (.inbound kind payload) (appendInbound env state eventType payload).1 := by
    apply Advances.of_kept _ hkind
    unfold appendInbound
    cases field payload "decision_id" <;> rfl
  cases kind with
  | metricProposed =>
    have hstatus (_ : Option PyDict) : stageStatus? (payload.set "status"
        (.str MetricStatus.proposed.value)) = some .proposed := stageStatus?_set _ _
    exact stageAndAppend_advances env state payload hstatus (by decide) (by decide)
      (iff_of_true (Call.onTime_of_none state rfl) (.inl rfl))
  | debateOutcome =>
    have hstatus (old : Option PyDict) : stageStatus? (((old.getD .empty).update payload).set "status"
        (.str MetricStatus.debated.value)) = some .debated := stageStatus?_set _ _
    exact stageAndAppend_advances env state payload hstatus (by decide) (by decide)
      ((Call.onTime_iff rfl).trans (or_iff_right Bool.false_ne_true).symm)
  | riskSignal =>
    have hstatus (old : Option PyDict) : stageStatus? (((old.getD .empty).set "status"
        (.str MetricStatus.critiqued.value)).set "risk_level" ((payload.get? "risk_level").getD .null)) =
          some .critiqued := stageStatus?_critiqued _ _
    exact stageAndAppend_advances env state payload hstatus (by decide) (by decide)
      ((Call.onTime_iff rfl).trans (or_iff_right Bool.false_ne_true).symm)
  | reconciledDecision => exact onReconciledDecision_advances env state now payload
  | evidenceAttached => exact happend (Call.inOrder_of_none state rfl) _
  | goalCreated => exact happend (Call.inOrder_of_none state rfl) _
  | goalCancelled => exact happend (Call.inOrder_of_none state rfl) _
  | runtimeArtifactDeployed => exact .of_kept rfl (Call.inOrder_of_none state rfl)
  | runtimeConfigUpdated => exact .of_kept rfl (Call.inOrder_of_none state rfl)

/-- What one call does to the lifecycle. -/
theorem CommandHandler.step_advances {label : Instant × Call} (h : CommandHandler.step env state label = some next) :
    Advances state label.2 next := by
  obtain ⟨now, call⟩ := label
  cases call with
  | updateMetric cmd =>
    obtain rfl := Option.some.inj h
    exact handleUpdateMetric_advances env state now cmd
  | inbound kind payload =>
    obtain rfl := Option.some.inj h
    exact onInbound_advances env state now kind payload
  | supersede args =>
    obtain rfl := Option.some.inj h
    exact .of_kept rfl (Call.inOrder_of_none state rfl)
  | _ => cases h

end Handlers

/-! ## Runs -/

section Runs

variable {maxLeaves : ℤ} {maxSeconds : ℚ} {start last : AppState} {trace : List (AppState × (Instant × Call))}

theorem withinLifecycle_of_run (run : Run (CommandHandler.step env) start trace last)
    (hstart : WithinLifecycle start.staging) : WithinLifecycle last.staging := by
  apply run.invariant along_true hstart
  intro _ _ _ _ _ _ _ hstep hwithin
  exact (CommandHandler.step_advances hstep).within hwithin

theorem withinLifecycle_initial (maxLeaves : ℤ) (maxSeconds : ℚ) :
    WithinLifecycle (AppState.initial maxLeaves maxSeconds).staging := by
  intro key
  simp [AppState.initial, stageRank]

/-- Along a run in order the stage of a key moves forward until the key is proposed anew. -/
theorem Run.stage_moves_forward (run : Run (CommandHandler.step env) start trace last)
    (hstart : WithinLifecycle start.staging) (inOrder : Along (fun state label ↦ label.2.InOrder state) trace)
    {key : PyKey × PyKey}
    (unproposed : Along (fun _ label ↦ label.2.isProposal = true → label.2.stagingKey? ≠ some key) trace) :
    stageRank start.staging key ≤ stageRank last.staging key := by
  induction run with
  | nil => exact le_rfl
  | @snoc trace last next label hrun hstep ih =>
    obtain ⟨hbefore, horder⟩ := along_snoc.mp inOrder
    obtain ⟨hothers, hproposal⟩ := along_snoc.mp unproposed
    have hmoves : MovesForward last label.2 next :=
      ((CommandHandler.step_advances hstep).forward_iff (withinLifecycle_of_run hrun hstart)).mpr horder
    have hstage : stageRank last.staging key ≤ stageRank next.staging key := by
      cases hanew : label.2.isProposal with
      | false => exact hmoves.forward hanew key
      | true => rw [stageRank, stageRank, hmoves.others key (hproposal hanew)]
    calc stageRank start.staging key
        ≤ stageRank last.staging key := ih hbefore hothers
      _ ≤ stageRank next.staging key := hstage

def sampleReconciliation : PyDict :=
  (sampleProposal.set "evidence_refs" (.ofStrs ["e1"])).set "final_value" (.int 8)

/-- The events of one metric in the order of the lifecycle, with a supersession behind the commit. -/
def lifecycleInOrder : List (Instant × Call) :=
  [(0, .inbound .metricProposed sampleProposal), (0, .inbound .debateOutcome sampleProposal),
    (0, .inbound .riskSignal sampleProposal), (0, .inbound .reconciledDecision sampleReconciliation),
    (0, .supersede ⟨"d1", "roi", "", "late signal", "k3"⟩)]

end Runs

end DecisionCore
