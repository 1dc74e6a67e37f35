import DecisionCore.ReadModel.Redelivery
import DecisionCore.ReadModel.Replayable

/-!
# Risk lowers the outcome

A risk signal anywhere in a stream adds to the penalty and can only make the decision critical, so
neither the score nor the verdict rises, whatever the weights and thresholds are.  Streams only grow,
so a critical signal rules out every verdict above a rejection from then on.
-/

namespace DecisionCore

open CommandHandler MetricsRegistry ScoreboardProjector PolicyEvaluator

variable {env : Env} {decisionId : String}

/-- The place of a verdict in the order `REJECT < MANUAL_REVIEW < APPROVE`. -/
def PolicyVerdict.rank : PolicyVerdict → ℕ
  | reject => 0
  | manualReview => 1
  | approve => 2
  | insufficientData => 0

/-- An outcome that is not above another one: both lack data, or both are scored with the score and
the verdict of the first at most those of the second. -/
def NotAbove (first second : Option PyFloat × PolicyVerdict) : Prop :=
  first = (none, .insufficientData) ∧ second = (none, .insufficientData) ∨
    ∃ low high : ℚ, first.1 = some (.fin low) ∧ second.1 = some (.fin high) ∧ low ≤ high ∧
      first.2 ≠ .insufficientData ∧ second.2 ≠ .insufficientData ∧ first.2.rank ≤ second.2.rank

def PolicyVerdictResult.outcome (result : PolicyVerdictResult) : Option PyFloat × PolicyVerdict :=
  (result.trustScore, result.status)

def ScoreboardState.outcome (board : ScoreboardState) : Option PyFloat × PolicyVerdict :=
  (board.trustScore, board.policyVerdict)

/-! ## The evaluator -/

theorem clamp_mono {low high : ℚ} (h : low ≤ high) :
    ∃ first second : ℚ, clamp (.fin low) = .fin first ∧ clamp (.fin high) = .fin second ∧ first ≤ second :=
  ⟨_, _, clamp_eq low, clamp_eq high, max_le_max le_rfl (min_le_min le_rfl h)⟩

/-- A lower score and more critical risks give no higher verdict, also when the thresholds are
crossed. -/
theorem verdictOf_mono (thresholds : PolicyThresholds) {low high : ℚ} (h : low ≤ high) {critical less : Bool}
    (hcritical : less = true → critical = true) :
    (verdictOf thresholds (.fin low) critical).rank ≤ (verdictOf thresholds (.fin high) less).rank := by
  have happrove (hle : thresholds.approveAt ≤ low) : thresholds.approveAt ≤ high := hle.trans h
  have hreject (hlt : high < thresholds.rejectBelow) : low < thresholds.rejectBelow := h.trans_lt hlt
  cases critical with
  | true => simp [verdictOf, PolicyVerdict.rank]
  | false =>
    obtain rfl : less = false := by simpa using hcritical
    simp only [verdictOf, PyFloat.le, PyFloat.lt, Bool.not_false, Bool.and_true, Bool.or_false,
      decide_eq_true_eq]
    split_ifs <;> simp_all [PolicyVerdict.rank]

section Risks

variable (before after : List RiskSignalEntry) (risk : RiskSignalEntry)

theorem riskPenalty_insert :
    riskPenalty (active (before ++ after)) ≤ riskPenalty (active (before ++ risk :: after)) := by
  have hterm : 0 ≤ risk.severity.value * riskWeight risk.category :=
    mul_nonneg risk.severity.nonneg (riskWeight_pos _).le
  by_cases hactive : risk.status = "ACTIVE"
  · simp [riskPenalty, active, List.filter_append, hactive]
    linarith
  · simp [riskPenalty, active, List.filter_append, hactive]

theorem hasCritical_insert (h : hasCritical (active (before ++ after)) = true) :
    hasCritical (active (before ++ risk :: after)) = true := by
  obtain ⟨found, hfound, hcategory⟩ := List.any_eq_true.mp h
  have hsublist : (before ++ after).Sublist (before ++ risk :: after) :=
    (List.Sublist.refl before).append (List.sublist_cons_self risk after)
  exact List.any_eq_true.mpr ⟨found, (hsublist.filter _).subset hfound, hcategory⟩

/-- One more risk does not raise the outcome of an evaluation. -/
theorem evaluatePolicy_insert {requiredMetrics : List String} {metrics : Metrics}
    {weights : Option (Dict String PyFloat)} {thresholds : PolicyThresholds} {verdict : PolicyVerdictResult}
    (h : evaluatePolicy requiredMetrics metrics (before ++ after) weights thresholds = .ok verdict) :
    ∃ lowered, evaluatePolicy requiredMetrics metrics (before ++ risk :: after) weights thresholds = .ok lowered ∧
      NotAbove lowered.outcome verdict.outcome := by
  unfold evaluatePolicy at h ⊢
  by_cases hmissing : (missing requiredMetrics (committed requiredMetrics metrics)).isEmpty = true
  · simp only [if_pos hmissing] at h ⊢
    obtain ⟨base, hbase, hverdict⟩ := bind_eq_ok.mp h
    obtain ⟨q, rfl, -, -⟩ := baseLoop_fin ⟨0, rfl, le_rfl, zero_le_one⟩ hbase
    obtain rfl := Except.ok.inj hverdict
    rw [hbase]
    refine ⟨_, rfl, .inr ?_⟩
    have hpenalty := riskPenalty_insert before after risk
    obtain ⟨low, high, hlow, hhigh, hle⟩ := clamp_mono (by linarith :
      q + -riskPenalty (active (before ++ risk :: after)) ≤ q + -riskPenalty (active (before ++ after)))
    have hlow' : clamp ((PyFloat.fin q).sub (.fin (riskPenalty (active (before ++ risk :: after))))) = .fin low := hlow
    have hhigh' : clamp ((PyFloat.fin q).sub (.fin (riskPenalty (active (before ++ after))))) = .fin high := hhigh
    refine ⟨low, high, congrArg some hlow', congrArg some hhigh', hle, verdictOf_ne_insufficientData _ _ _,
      verdictOf_ne_insufficientData _ _ _, ?_⟩
    simp only [PolicyVerdictResult.outcome, hlow', hhigh']
    exact verdictOf_mono thresholds hle (hasCritical_insert before after risk)
  · simp only [if_neg hmissing] at h ⊢
    obtain rfl := Except.ok.inj h
    exact ⟨_, rfl, .inl ⟨rfl, rfl⟩⟩

end Risks

/-! ## Streams with one more risk signal -/

section Insert

variable (before after : List PyDict) {evt : PyDict}

theorem replay_insert (htype : evt.hasType "RiskSignal" = true) (metrics : Metrics) :
    replay env decisionId metrics (before ++ evt :: after) = replay env decisionId metrics (before ++ after) := by
  induction before generalizing metrics with
  | nil =>
    simp [replay, hasType_of_hasType htype (by decide : _ ≠ "MetricCommitted"),
      hasType_of_hasType htype (by decide : _ ≠ "MetricRejected"),
      hasType_of_hasType htype (by decide : _ ≠ "MetricSuperseded")]
  | cons first rest ih =>
    rw [List.cons_append, List.cons_append, replay_cons, replay_cons]
    cases consume env decisionId metrics first with
    | error error => rfl
    | ok round => simp only [bind, Except.bind, ih]

theorem lastRootEvent_insert (htype : evt.hasType "RiskSignal" = true) :
    lastRootEvent (before ++ evt :: after) = lastRootEvent (before ++ after) := by
  have hroot : isRootEvent evt = false := hasType_of_hasType htype (by decide)
  simp [lastRootEvent_eq, List.filter_append, hroot]

/-- The risk of the signal is where the signal is. -/
theorem riskMatrix_insert (htype : evt.hasType "RiskSignal" = true) {risks : List RiskSignalEntry}
    (h : RiskMatrix.reconstruct env decisionId (before ++ after) = .ok risks) {risk : RiskSignalEntry}
    (hrisk : RiskMatrix.entryOf env decisionId evt = .ok risk) :
    ∃ earlier later, risks = earlier ++ later ∧
      RiskMatrix.reconstruct env decisionId (before ++ evt :: after) = .ok (earlier ++ risk :: later) := by
  induction before generalizing risks with
  | nil =>
    have hafter : RiskMatrix.reconstruct env decisionId after = .ok risks := h
    refine ⟨[], risks, rfl, ?_⟩
    simp [RiskMatrix.reconstruct, htype, hrisk, hafter, bind, Except.bind, pure, Except.pure]
  | cons first rest ih =>
    rw [List.cons_append, RiskMatrix.reconstruct] at h ⊢
    by_cases hfirst : first.hasType "RiskSignal" = true
    · rw [if_pos hfirst] at h ⊢
      obtain ⟨found, hfound, hothers⟩ := bind_eq_ok.mp h
      obtain ⟨others, hrest, hrisks⟩ := bind_eq_ok.mp hothers
      obtain rfl := Except.ok.inj hrisks
      obtain ⟨earlier, later, rfl, hinserted⟩ := ih hrest
      refine ⟨found :: earlier, later, rfl, ?_⟩
      rw [hfound, hinserted]
      rfl
    · rw [if_neg hfirst] at h ⊢
      exact ih h

/-- A risk signal does not raise what a rebuild shows, wherever it stands in the stream. -/
theorem project_insert (htype : evt.hasType "RiskSignal" = true) (hfields : RiskFields env evt)
    {requiredMetrics : List String} {rebuiltAt : Instant} {board : ScoreboardState}
    (h : project env decisionId requiredMetrics rebuiltAt (before ++ after) = .ok board) :
    ∃ lowered, project env decisionId requiredMetrics rebuiltAt (before ++ evt :: after) = .ok lowered ∧
      NotAbove lowered.outcome board.outcome := by
  obtain ⟨risk, hrisk⟩ := hfields.entry decisionId
  simp only [project, bind_eq_ok] at h
  obtain ⟨metrics, hmetrics, risks, hrisks, root, hroot, moment, hmoment, verdict, hverdict, ref, href,
    hboard⟩ := h
  obtain ⟨earlier, later, rfl, hinserted⟩ := riskMatrix_insert before after htype hrisks hrisk
  obtain ⟨lowered, hlowered, hnot⟩ := evaluatePolicy_insert earlier later risk hverdict
  obtain rfl := Except.ok.inj hboard
  have hlast := lastRootEvent_insert before after htype
  have hreplay : reconstruct env decisionId (before ++ evt :: after) = .ok metrics := by
    rw [reconstruct, replay_insert before after htype]
    exact hmetrics
  have hroot' : merkleRootRef (before ++ evt :: after) = .ok root := (merkleRootRef_congr hlast).trans hroot
  have hmoment' : merkleTimestamp env (before ++ evt :: after) = .ok moment :=
    (merkleTimestamp_congr env hlast).trans hmoment
  simp only [project, hreplay, hinserted, hroot', hmoment', hlowered, href, bind, Except.bind, pure, Except.pure]
  exact ⟨_, rfl, hnot⟩

end Insert

/-! ## Critical signals -/

/-- The record is a risk signal of level `CRITICAL`. -/
def IsCritical (record : PyDict) : Prop :=
  record.hasType "RiskSignal" = true ∧ record.get? "risk_level" = some (.str "CRITICAL")

instance : DecidablePred IsCritical := fun record ↦
  inferInstanceAs (Decidable (record.hasType "RiskSignal" = true ∧ _))

theorem hasCritical_of_mem {risks : List RiskSignalEntry} {risk : RiskSignalEntry} (hmem : risk ∈ risks)
    (hactive : risk.status = "ACTIVE") (hcategory : risk.category = "CRITICAL") :
    hasCritical (active risks) = true :=
  List.any_eq_true.mpr ⟨risk, List.mem_filter.mpr ⟨hmem, decide_eq_true hactive⟩, decide_eq_true hcategory⟩

theorem verdictOf_critical (thresholds : PolicyThresholds) (score : PyFloat) :
    verdictOf thresholds score true = .reject := by simp [verdictOf]

theorem evaluatePolicy_critical {risks : List RiskSignalEntry} (hcritical : hasCritical (active risks) = true)
    {requiredMetrics : List String} {metrics : Metrics} {weights : Option (Dict String PyFloat)}
    {thresholds : PolicyThresholds} {verdict : PolicyVerdictResult}
    (h : evaluatePolicy requiredMetrics metrics risks weights thresholds = .ok verdict) :
    verdict.status = .reject ∨ verdict.status = .insufficientData := by
  unfold evaluatePolicy at h
  by_cases hmissing : (missing requiredMetrics (committed requiredMetrics metrics)).isEmpty = true
  · simp only [if_pos hmissing] at h
    obtain ⟨base, -, hverdict⟩ := bind_eq_ok.mp h
    obtain rfl := Except.ok.inj hverdict
    simp [hcritical, verdictOf_critical]
  · simp only [if_neg hmissing] at h
    obtain rfl := Except.ok.inj h
    exact .inr rfl

/-- The level of a signal is the category of its risk. -/
theorem entryOf_category {evt : PyDict} {risk : RiskSignalEntry} {level : String}
    (h : RiskMatrix.entryOf env decisionId evt = .ok risk) (hlevel : evt.get? "risk_level" = some (.str level)) :
    risk.category = level := by
  simp only [RiskMatrix.entryOf, bind_eq_ok] at h
  obtain ⟨metricName, -, hbuild⟩ := h
  unfold RiskSignalEntry.build at hbuild
  split at hbuild
  · rename_i hcategory _ _
    obtain rfl := Except.ok.inj hbuild
    simpa [hlevel, Json.asStr?] using hcategory.symm
  · cases hbuild

/-- A stream with a critical signal is rejected or lacks data. -/
theorem project_critical {log : List PyDict} {record : PyDict} (hmem : record ∈ log) (hcritical : IsCritical record)
    {requiredMetrics : List String} {rebuiltAt : Instant} {board : ScoreboardState}
    (h : project env decisionId requiredMetrics rebuiltAt log = .ok board) :
    board.policyVerdict = .reject ∨ board.policyVerdict = .insufficientData := by
  simp only [project, bind_eq_ok] at h
  obtain ⟨metrics, -, risks, hrisks, root, -, moment, -, verdict, hverdict, ref, -, hboard⟩ := h
  obtain ⟨risk, hrisk, hentry⟩ := mem_riskMatrix hrisks hmem hcritical.1
  obtain rfl := Except.ok.inj hboard
  apply evaluatePolicy_critical _ hverdict
  exact hasCritical_of_mem hrisk (entryOf_ok hentry).2.1 (entryOf_category hentry hcritical.2)

/-- A risk signal lowers the outcome of every rebuild, or leaves it, wherever it stands in the stream;
one more risk does so to every evaluation, whatever the weights and thresholds are; and once a
critical signal is in the stream of a decision, no continuation of the run rebuilds the decision to
anything above a rejection. -/
theorem risk_only_lowers (env : Env) :
    (∀ decisionId requiredMetrics rebuiltAt before after evt board, evt.hasType "RiskSignal" = true →
      RiskFields env evt →
      project env decisionId requiredMetrics rebuiltAt (before ++ after) = .ok board →
      ∃ lowered, project env decisionId requiredMetrics rebuiltAt (before ++ evt :: after) = .ok lowered ∧
        NotAbove lowered.outcome board.outcome) ∧
    (∀ requiredMetrics metrics before after risk weights thresholds verdict,
      evaluatePolicy requiredMetrics metrics (before ++ after) weights thresholds = .ok verdict →
      ∃ lowered,
        evaluatePolicy requiredMetrics metrics (before ++ risk :: after) weights thresholds = .ok lowered ∧
        NotAbove lowered.outcome verdict.outcome) ∧
    (∀ maxLeaves maxSeconds trace last rest later decisionId,
      Run (System.step env) (System.initial maxLeaves maxSeconds) trace last →
      Run (System.step env) last rest later →
      (∃ record ∈ last.state.auditTrail.readRange decisionId 0, IsCritical record) →
      ∀ requiredMetrics rebuiltAt board, (rebuild env later.state rebuiltAt decisionId requiredMetrics).2 = .ok board →
        board.policyVerdict ≠ .approve ∧ board.policyVerdict ≠ .manualReview) := by
  refine ⟨?_, ?_, ?_⟩
  · intro decisionId requiredMetrics rebuiltAt before after evt board htype hfields h
    exact project_insert before after htype hfields h
  · intro requiredMetrics metrics before after risk weights thresholds verdict h
    exact evaluatePolicy_insert before after risk h
  · rintro maxLeaves maxSeconds trace last rest later decisionId run hafter ⟨record, hmem, hcritical⟩
      requiredMetrics rebuiltAt board hboard
    have hlater := MemoryAuditTrail.readRange_prefix (run.persists hafter).events decisionId
    rw [rebuild_result] at hboard
    obtain hreject | hinsufficient := project_critical (hlater.subset hmem) hcritical hboard
    · simp [hreject]
    · simp [hinsufficient]

/-- After a commit that fits every threshold, a critical signal leaves no verdict but a rejection. -/
theorem critical_signal_absorbs :
    ∃ last, follow (System.step .local) (System.initial 100 60) (commitThenSignal (1 / 2)) = some last ∧
      ∃ board, (rebuild .local last.state 0 "d1" ["roi"]).2 = .ok board ∧
        board.policyVerdict ≠ .approve ∧ board.policyVerdict ≠ .manualReview := by
  have hrun : (follow (System.step .local) (System.initial 100 60) (commitThenSignal (1 / 2))).any (fun last ↦
      decide ((∃ record ∈ last.state.auditTrail.readRange "d1" 0, IsCritical record) ∧
        (rebuild .local last.state 0 "d1" ["roi"]).2.toOption.isSome = true)) = true := by decide +kernel
  obtain ⟨last, hlast, hcritical, hok⟩ := exists_follow hrun
  have hverdict := (risk_only_lowers .local).2.2 _ _ _ _ _ _ "d1" (Run.of_follow hlast) .nil hcritical ["roi"] 0
  cases hboard : (rebuild .local last.state 0 "d1" ["roi"]).2 with
  | error error =>
    rw [hboard] at hok
    cases hok
  | ok board => exact ⟨last, hlast, board, hboard, hverdict board hboard⟩

end DecisionCore
