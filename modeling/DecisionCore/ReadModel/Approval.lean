import Mathlib.Tactic.Linarith
import DecisionCore.ReadModel.PolicyFormula

/-!
# When an approval is earned

With the default weights the base score is the mean of the committed values, between 0 and 1.  An approval then says
that the mean reaches the threshold by the penalty of the risks, unless the values have no mean: the clamps take a NaN
for a 1.
-/

namespace DecisionCore.PolicyEvaluator.Exact

open MetricsRegistry (Metrics committedValue)

variable {requiredMetrics : List String} {metrics : Metrics}

/-! ## The mean -/

/-- The mean of the values of the required metrics. -/
def mean (requiredMetrics : List String) (metrics : Metrics) : PyFloat :=
  (∑ name ∈ requiredMetrics.toFinset, num (valueOf metrics name)).div (.fin requiredMetrics.toFinset.card)

/-- No value of the required metrics is NaN, and not both infinities are among them. -/
def HasMean (requiredMetrics : List String) (metrics : Metrics) : Prop :=
  (∀ name ∈ requiredMetrics, num (valueOf metrics name) ≠ .nan) ∧
    ¬ ((∃ name ∈ requiredMetrics, num (valueOf metrics name) = .posInf) ∧
      ∃ name ∈ requiredMetrics, num (valueOf metrics name) = .negInf)

theorem div_eq_nan_iff (x : PyFloat) {q : ℚ} (hq : 0 < q) : x.div (.fin q) = .nan ↔ x = .nan := by
  have hsign : ¬ q < 0 := not_lt.mpr hq.le
  cases x <;> simp [PyFloat.div, PyFloat.sign, PyFloat.infinityOfSign, hsign]

theorem mean_eq_nan_iff : mean requiredMetrics metrics = .nan ↔ ¬ HasMean requiredMetrics metrics := by
  rcases Finset.eq_empty_or_nonempty requiredMetrics.toFinset with hempty | hnonempty
  · have hnil : requiredMetrics = [] := List.toFinset_eq_empty_iff requiredMetrics |>.mp hempty
    simp [mean, HasMean, hnil, PyFloat.zero_eq, PyFloat.div]
  · have hcard : (0 : ℚ) < requiredMetrics.toFinset.card := Nat.cast_pos.mpr (Finset.card_pos.mpr hnonempty)
    rw [mean, div_eq_nan_iff _ hcard, PyFloat.sum_eq_nan_iff, HasMean, not_and_or, not_not]
    simp only [List.mem_toFinset, ne_eq, not_forall, not_not, exists_prop]

theorem mul_one' (x : PyFloat) : x.mul (.fin 1) = x := by
  cases x <;> simp [PyFloat.mul, PyFloat.sign, PyFloat.infinityOfSign]

/-- With the default weights the base score is the clamped mean. -/
theorem base_eq_clamp_mean (hnodup : metrics.keys.Nodup) (hrequired : requiredMetrics ≠ [])
    (hall : ∀ name ∈ requiredMetrics, name ∈ committedNames requiredMetrics metrics) :
    base none (committed requiredMetrics metrics) = clamp (mean requiredMetrics metrics) := by
  have hnames : committedNames requiredMetrics metrics = requiredMetrics.toFinset := by
    ext name
    rw [List.mem_toFinset]
    exact ⟨fun hname ↦ (mem_committedNames.mp hname).1, hall name⟩
  have hnonempty : requiredMetrics.toFinset ≠ ∅ := mt (List.toFinset_eq_empty_iff requiredMetrics).mp hrequired
  have hcard : (requiredMetrics.toFinset.card : ℚ) ≠ 0 := by
    rwa [Nat.cast_ne_zero, Finset.card_ne_zero, Finset.nonempty_iff_ne_empty]
  have htotal : totalWeight none (committed requiredMetrics metrics) = .fin requiredMetrics.toFinset.card := by
    have hweights : RationalWeights none := by
      rintro map ⟨⟩
    rw [totalWeight_eq hnodup hweights, hnames, formulaWeight]
    simp [weightOf, rational, hcard]
  have hsum : ((committed requiredMetrics metrics).map (term none)).sum =
      ∑ name ∈ requiredMetrics.toFinset, num (valueOf metrics name) := by
    calc
      ((committed requiredMetrics metrics).map (term none)).sum =
          ∑ name ∈ committedNames requiredMetrics metrics, (num (valueOf metrics name)).mul (.fin 1) :=
        sum_committed hnodup fun _ value ↦ (num value).mul (.fin 1)
      _ = ∑ name ∈ requiredMetrics.toFinset, num (valueOf metrics name) := by simp only [mul_one', hnames]
  have hsome : ¬ (committed requiredMetrics metrics).isEmpty = true := by
    rw [isEmpty_committed hnodup, hnames]
    exact hnonempty
  rw [base, if_neg hsome, hsum, htotal, mean]

/-! ## The verdict -/

theorem riskPenalty_nonneg (risks : List RiskSignalEntry) : 0 ≤ riskPenalty (active risks) := by
  apply List.sum_nonneg
  intro term hterm
  obtain ⟨risk, -, rfl⟩ := List.mem_map.mp hterm
  exact mul_nonneg risk.severity.nonneg (riskWeight_pos _).le

theorem verdictOf_eq_approve_iff (thresholds : PolicyThresholds) (score : PyFloat) (critical : Bool) :
    verdictOf thresholds score critical = .approve ↔
      PyFloat.le (.fin thresholds.approveAt) score = true ∧ critical = false := by
  unfold verdictOf
  cases critical with
  | true => simp
  | false =>
    rw [Bool.not_false, Bool.and_true]
    split_ifs <;> simp_all

/-- Above 0, a clamped number reaches a threshold when the number itself does, up to 1. -/
theorem le_clamp01_iff {threshold q : ℚ} (hthreshold : 0 < threshold) :
    threshold ≤ clamp01 q ↔ threshold ≤ 1 ∧ threshold ≤ q := by
  rw [clamp01, le_max_iff, le_min_iff, or_iff_right (not_le.mpr hthreshold)]

/-- An approval of a base score that is lowered by the risks. -/
theorem approves_iff {thresholds : PolicyThresholds} (hthreshold : 0 < thresholds.approveAt) {score : ℚ}
    (hscore : score ≤ 1) (risks : List RiskSignalEntry) :
    verdictOf thresholds (clamp ((PyFloat.fin score).sub (.fin (riskPenalty (active risks)))))
        (hasCritical (active risks)) = .approve ↔
      thresholds.approveAt + riskPenalty (active risks) ≤ score ∧ hasCritical (active risks) = false := by
  have hpenalty := riskPenalty_nonneg risks
  have hclamp : clamp ((PyFloat.fin score).sub (.fin (riskPenalty (active risks)))) =
      .fin (clamp01 (score + -riskPenalty (active risks))) := clamp_eq _
  have hle (q : ℚ) : PyFloat.le (.fin thresholds.approveAt) (.fin q) = true ↔ thresholds.approveAt ≤ q := by
    simp [PyFloat.le, PyFloat.lt]
  rw [verdictOf_eq_approve_iff, hclamp, hle, le_clamp01_iff hthreshold]
  apply and_congr_left'
  constructor
  · intro h
    linarith [h.2]
  · intro h
    exact ⟨by linarith, by linarith⟩

/-- What an approval says about a mean that is a number. -/
theorem le_of_approved {mean : PyFloat} {threshold : ℚ} (hthreshold : 0 < threshold) (hnan : mean ≠ .nan) {score : ℚ}
    (hscore : clamp mean = .fin score) (h : threshold ≤ score) : PyFloat.le (.fin threshold) mean = true := by
  cases mean with
  | nan => exact absurd rfl hnan
  | posInf => rfl
  | negInf =>
    have hzero : clamp .negInf = .fin 0 := rfl
    rw [hzero, PyFloat.fin.injEq] at hscore
    linarith
  | fin q =>
    rw [clamp_eq, PyFloat.fin.injEq] at hscore
    rw [← hscore] at h
    have hq := ((le_clamp01_iff hthreshold).mp h).2
    simpa [PyFloat.le, PyFloat.lt] using hq

/-! ## Earned approvals -/

/-- An approval says that the mean is a number and reaches the threshold by the penalty of the risks. -/
def ApprovalEarned (requiredMetrics : List String) (metrics : Metrics) (risks : List RiskSignalEntry)
    (thresholds : PolicyThresholds) : Prop :=
  ∀ result, evaluatePolicy requiredMetrics metrics risks none thresholds = some result → result.status = .approve →
    mean requiredMetrics metrics ≠ .nan ∧
      PyFloat.le (.fin (thresholds.approveAt + riskPenalty (active risks))) (mean requiredMetrics metrics) = true

/-- Approvals are earned when the values have a mean, and otherwise when there is no approval: a required metric is not
committed, the penalty leaves too little of a full score, or a risk is critical. -/
theorem approval_earned_iff (hnodup : metrics.keys.Nodup) (risks : List RiskSignalEntry)
    {thresholds : PolicyThresholds} (hthreshold : 0 < thresholds.approveAt) :
    ApprovalEarned requiredMetrics metrics risks thresholds ↔
      HasMean requiredMetrics metrics ∨ (∃ name ∈ requiredMetrics, committedValue metrics name = none) ∨
        1 - riskPenalty (active risks) < thresholds.approveAt ∨ hasCritical (active risks) = true := by
  have hcommitted : (∃ name ∈ requiredMetrics, committedValue metrics name = none) ↔
      ¬ ∀ name ∈ requiredMetrics, name ∈ committedNames requiredMetrics metrics := by
    simp only [mem_committedNames, not_forall, exists_prop]
    apply exists_congr
    intro name
    apply and_congr_right
    intro hrequired
    rw [and_iff_right hrequired, Option.not_isSome_iff_eq_none]
  unfold ApprovalEarned
  rw [evaluatePolicy_eq, hcommitted]
  simp only [Option.some.injEq, forall_eq']
  by_cases hall : ∀ name ∈ requiredMetrics, name ∈ committedNames requiredMetrics metrics
  · rw [if_pos ((isEmpty_missing hnodup).mpr hall)]
    rcases eq_or_ne requiredMetrics [] with hnil | hrequired
    · -- Without required metrics the score is 0, which is no approval.
      have hbase : base none (committed requiredMetrics metrics) = .fin 0 := by
        rw [base, if_pos ((isEmpty_committed hnodup).mpr (by simp [committedNames, hnil]))]
      simp only [hbase, approves_iff hthreshold zero_le_one]
      refine iff_of_true ?_ (.inl (by simp [HasMean, hnil]))
      intro happrove
      linarith [happrove.1, riskPenalty_nonneg risks]
    · obtain ⟨score, hscore, -, hone⟩ := clamp_fin (mean requiredMetrics metrics)
      simp only [base_eq_clamp_mean hnodup hrequired hall, hscore, approves_iff hthreshold hone]
      by_cases hmean : HasMean requiredMetrics metrics
      · have hnumber : mean requiredMetrics metrics ≠ .nan := fun hnan ↦ mean_eq_nan_iff.mp hnan hmean
        refine iff_of_true ?_ (.inl hmean)
        intro happrove
        have hpositive := add_pos_of_pos_of_nonneg hthreshold (riskPenalty_nonneg risks)
        exact ⟨hnumber, le_of_approved hpositive hnumber hscore happrove.1⟩
      · -- The clamps have taken the NaN for a 1.
        have hnan : mean requiredMetrics metrics = .nan := mean_eq_nan_iff.mpr hmean
        have hfull : score = 1 := by
          have hclamp : clamp .nan = .fin 1 := rfl
          rw [hnan, hclamp, PyFloat.fin.injEq] at hscore
          exact hscore.symm
        subst hfull
        simp only [hnan, ne_eq, not_true_eq_false, false_and, imp_false]
        rw [or_iff_right hmean, or_iff_right (not_not.mpr hall), not_and_or, not_le, Bool.not_eq_false,
          sub_lt_iff_lt_add]
  · rw [if_neg (mt (isEmpty_missing hnodup).mp hall)]
    refine iff_of_true ?_ (.inr (.inl hall))
    intro happrove
    cases happrove

/-- An infinite value among the numbers. -/
theorem infinite_approval_earned :
    ApprovalEarned ["roi", "cost"] (sampleMetrics (.float .posInf) (.int 0)) [] .default := by
  apply (approval_earned_iff (by decide) [] (by norm_num [PolicyThresholds.default])).mpr
  left
  constructor
  · simp [sampleMetrics, valueOf, committedValue, num]
  · rintro ⟨-, name, hname, hvalue⟩
    simp only [List.mem_cons, List.not_mem_nil, or_false] at hname
    obtain rfl | rfl := hname <;> simp [sampleMetrics, valueOf, committedValue, num] at hvalue

/-- A NaN and a 0 are approved. -/
theorem nan_approval_not_earned :
    ¬ ApprovalEarned ["roi", "cost"] (sampleMetrics (.float .nan) (.int 0)) [] .default := by
  intro hearned
  have happroved : (evaluatePolicy ["roi", "cost"] (sampleMetrics (.float .nan) (.int 0)) [] none .default).map
      PolicyVerdictResult.status = some .approve := by decide +kernel
  obtain ⟨result, hresult, hstatus⟩ := Option.map_eq_some_iff.mp happroved
  apply (hearned result hresult hstatus).1
  rw [mean_eq_nan_iff]
  intro hmean
  exact hmean.1 "roi" (by decide) rfl

end DecisionCore.PolicyEvaluator.Exact
