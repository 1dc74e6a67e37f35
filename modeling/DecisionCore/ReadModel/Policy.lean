import DecisionCore.Application.PolicyEvaluator
import DecisionCore.ReadModel.Registry

/-!
# The gate and the score of the policy evaluator

The evaluator scores a decision when every required metric is committed, and the score is a number
unless a committed integer is too large for a float.  A score lies between 0 and 1.
-/

namespace DecisionCore.PolicyEvaluator

open MetricsRegistry (Metrics committedValue)

variable {requiredMetrics : List String} {metrics : Metrics}

/-- The value converts to a float. -/
def Fits : Json → Prop
  | .int n => |n| < PyFloat.overflowBound
  | _ => True

instance (value : Json) : Decidable (Fits value) :=
  match value with
  | .int n => inferInstanceAs (Decidable (|n| < PyFloat.overflowBound))
  | .null | .bool _ | .float _ | .str _ | .list _ | .dict _ => inferInstanceAs (Decidable True)

theorem fits_int {n : ℤ} : Fits (.int n) ↔ |n| < PyFloat.overflowBound := Iff.rfl

theorem committedValue_eq_some {name : String} {value : Json}
    (h : committedValue metrics name = some value) :
    ∃ record, metrics.get? name = some record ∧ record.status = .committed ∧ record.value = value := by
  obtain ⟨record, hrecord, hvalue⟩ := Option.bind_eq_some_iff.mp h
  split at hvalue
  · rename_i hstatus
    exact ⟨record, hrecord, hstatus, Option.some.inj hvalue⟩
  · cases hvalue

theorem mem_committed {name : String} {record : MetricRecord} (hnodup : metrics.keys.Nodup) :
    (name, record) ∈ committed requiredMetrics metrics ↔
      metrics.get? name = some record ∧ record.status = .committed ∧ name ∈ requiredMetrics := by
  simp only [committed, List.mem_filter, Bool.and_eq_true, decide_eq_true_eq]
  constructor
  · rintro ⟨hmem, hstatus, hrequired⟩
    exact ⟨Dict.get?_of_mem hnodup hmem, hstatus, hrequired⟩
  · rintro ⟨hget, hstatus, hrequired⟩
    exact ⟨Dict.mem_of_get?_eq_some hget, hstatus, hrequired⟩

/-- Nothing is missing when every required metric is committed. -/
theorem missing_isEmpty_iff (hnodup : metrics.keys.Nodup) :
    (missing requiredMetrics (committed requiredMetrics metrics)).isEmpty = true ↔
      ∀ name ∈ requiredMetrics, (committedValue metrics name).isSome = true := by
  have hmem (name : String) (hrequired : name ∈ requiredMetrics) :
      name ∈ (committed requiredMetrics metrics).map Prod.fst ↔
        (committedValue metrics name).isSome = true := by
    constructor
    · intro h
      obtain ⟨⟨found, record⟩, hfound, rfl⟩ := List.mem_map.mp h
      obtain ⟨hget, hstatus, -⟩ := (mem_committed hnodup).mp hfound
      simp [committedValue, hget, hstatus]
    · intro h
      obtain ⟨value, hvalue⟩ := Option.isSome_iff_exists.mp h
      obtain ⟨record, hget, hstatus, -⟩ := committedValue_eq_some hvalue
      exact List.mem_map.mpr ⟨(name, record), (mem_committed hnodup).mpr ⟨hget, hstatus, hrequired⟩, rfl⟩
  rw [List.isEmpty_iff, List.eq_nil_iff_forall_not_mem]
  simp only [missing, mem_sortedSet, List.mem_filter, decide_eq_true_eq, not_and, not_not]
  exact forall₂_congr hmem

/-! ## The score -/

theorem clamp_fin (x : PyFloat) : ∃ q : ℚ, clamp x = .fin q ∧ 0 ≤ q ∧ q ≤ 1 := by
  unfold clamp
  cases x with
  | fin q =>
    by_cases hone : q < 1
    · by_cases hzero : 0 < q
      · exact ⟨q, by simp [PyFloat.pyMin, PyFloat.pyMax, PyFloat.lt, hone, hzero], hzero.le, hone.le⟩
      · exact ⟨0, by simp [PyFloat.pyMin, PyFloat.pyMax, PyFloat.lt, hone, hzero], le_rfl, zero_le_one⟩
    · exact ⟨1, by simp [PyFloat.pyMin, PyFloat.pyMax, PyFloat.lt, hone], zero_le_one, le_rfl⟩
  | negInf => exact ⟨0, by simp [PyFloat.pyMin, PyFloat.pyMax, PyFloat.lt], le_rfl, zero_le_one⟩
  | _ => exact ⟨1, by simp [PyFloat.pyMin, PyFloat.pyMax, PyFloat.lt], zero_le_one, le_rfl⟩

/-- A value contributes a term exactly when it fits. -/
theorem weighted_ok_iff (value : Json) (weight : PyFloat) :
    (∃ term, weighted value weight = .ok term) ↔ Fits value := by
  cases value with
  | int n =>
    by_cases h : |n| < PyFloat.overflowBound <;> simp [weighted, PyFloat.ofInt, Fits, h, Except.map]
  | _ => simp [weighted, Fits]

theorem baseLoop_ok_iff (weights : Option (Dict String PyFloat)) (all rest : List (String × MetricRecord))
    (terms : List PyFloat) (base : PyFloat) :
    (∃ score, baseLoop weights all terms base rest = .ok score) ↔ ∀ binding ∈ rest, Fits binding.2.value := by
  induction rest generalizing terms base with
  | nil => simp [baseLoop]
  | cons binding rest ih =>
    obtain ⟨name, record⟩ := binding
    have hterm := weighted_ok_iff record.value (weightOf weights name)
    simp only [baseLoop, List.forall_mem_cons]
    cases hweighted : weighted record.value (weightOf weights name) with
    | error error =>
      rw [hweighted] at hterm
      have hnot : ¬ Fits record.value := by simpa using hterm
      simp [hnot, bind, Except.bind]
    | ok term =>
      rw [hweighted] at hterm
      have hfits : Fits record.value := hterm.mp ⟨term, rfl⟩
      simpa [hfits, bind, Except.bind] using ih _ _

/-- The base score lies between 0 and 1. -/
theorem baseLoop_fin {weights : Option (Dict String PyFloat)} {all rest : List (String × MetricRecord)}
    {terms : List PyFloat} {base score : PyFloat} (hbase : ∃ q : ℚ, base = .fin q ∧ 0 ≤ q ∧ q ≤ 1)
    (h : baseLoop weights all terms base rest = .ok score) : ∃ q : ℚ, score = .fin q ∧ 0 ≤ q ∧ q ≤ 1 := by
  induction rest generalizing terms base with
  | nil =>
    obtain rfl := Except.ok.inj h
    exact hbase
  | cons binding rest ih =>
    obtain ⟨name, record⟩ := binding
    simp only [baseLoop] at h
    cases hweighted : weighted record.value (weightOf weights name) with
    | error error => simp [hweighted, bind, Except.bind] at h
    | ok term =>
      rw [hweighted] at h
      apply ih _ h
      exact clamp_fin _

/-- The committed values of the required metrics convert to floats. -/
def AllFit (requiredMetrics : List String) (metrics : Metrics) : Prop :=
  ∀ name ∈ requiredMetrics, ∀ value, committedValue metrics name = some value → Fits value

theorem baseScore_ok_iff (hnodup : metrics.keys.Nodup) (weights : Option (Dict String PyFloat)) :
    (∃ score, baseScore weights (committed requiredMetrics metrics) = .ok score) ↔
      AllFit requiredMetrics metrics := by
  rw [baseScore, baseLoop_ok_iff]
  constructor
  · intro h name hrequired value hvalue
    obtain ⟨record, hget, hstatus, rfl⟩ := committedValue_eq_some hvalue
    exact h (name, record) ((mem_committed hnodup).mpr ⟨hget, hstatus, hrequired⟩)
  · rintro h ⟨name, record⟩ hmem
    obtain ⟨hget, hstatus, hrequired⟩ := (mem_committed hnodup).mp hmem
    exact h name hrequired record.value (by simp [committedValue, hget, hstatus])

/-- Nothing but an integer that does not fit makes the base score raise. -/
theorem baseLoop_error {weights : Option (Dict String PyFloat)} {all rest : List (String × MetricRecord)}
    {terms : List PyFloat} {base : PyFloat} {error : PyError}
    (h : baseLoop weights all terms base rest = .error error) : error = .overflowError := by
  induction rest generalizing terms base with
  | nil => cases h
  | cons binding rest ih =>
    obtain ⟨name, record⟩ := binding
    simp only [baseLoop] at h
    cases hweighted : weighted record.value (weightOf weights name) with
    | ok term =>
      rw [hweighted] at h
      exact ih h
    | error raised =>
      rw [hweighted] at h
      obtain rfl : raised = error := Except.error.inj h
      cases hvalue : record.value with
      | int n =>
        by_cases hfits : |n| < PyFloat.overflowBound
        · simp [hvalue, weighted, PyFloat.ofInt, hfits, Except.map] at hweighted
        · simpa [hvalue, weighted, PyFloat.ofInt, hfits, Except.map] using hweighted.symm
      | _ => simp [hvalue, weighted] at hweighted

theorem verdictOf_ne_insufficientData (thresholds : PolicyThresholds) (score : PyFloat) (critical : Bool) :
    verdictOf thresholds score critical ≠ .insufficientData := by
  unfold verdictOf
  split
  · decide
  · split <;> decide

/-! ## The gate -/

variable (risks : List RiskSignalEntry) (weights : Option (Dict String PyFloat)) (thresholds : PolicyThresholds)

/-- A decision with an uncommitted required metric is not scored. -/
theorem evaluatePolicy_insufficient (hnodup : metrics.keys.Nodup)
    (h : ¬ ∀ name ∈ requiredMetrics, (committedValue metrics name).isSome = true) :
    ∃ result, evaluatePolicy requiredMetrics metrics risks weights thresholds = .ok result ∧
      result.trustScore = none ∧ result.status = .insufficientData := by
  have hmissing := mt (missing_isEmpty_iff hnodup).mp h
  simp only [evaluatePolicy, if_neg hmissing]
  exact ⟨_, rfl, rfl, rfl⟩

/-- An evaluation raises only when a committed integer does not fit. -/
theorem evaluatePolicy_error {risks : List RiskSignalEntry} {weights : Option (Dict String PyFloat)}
    {thresholds : PolicyThresholds} {error : PyError}
    (h : evaluatePolicy requiredMetrics metrics risks weights thresholds = .error error) :
    error = .overflowError := by
  unfold evaluatePolicy at h
  by_cases hmissing : (missing requiredMetrics (committed requiredMetrics metrics)).isEmpty = true
  · simp only [if_pos hmissing] at h
    cases hbase : baseScore weights (committed requiredMetrics metrics) with
    | ok base =>
      rw [hbase] at h
      cases h
    | error raised =>
      rw [hbase] at h
      obtain rfl : raised = error := Except.error.inj h
      exact baseLoop_error hbase
  · simp only [if_neg hmissing] at h
    cases h

/-- The evaluation behind the gate. -/
theorem evaluatePolicy_committed (hnodup : metrics.keys.Nodup)
    (h : ∀ name ∈ requiredMetrics, (committedValue metrics name).isSome = true) :
    evaluatePolicy requiredMetrics metrics risks weights thresholds =
      (baseScore weights (committed requiredMetrics metrics)).map fun base ↦
        let score := clamp (base.sub (.fin (riskPenalty (active risks))))
        { trustScore := some score
          status := verdictOf thresholds score (hasCritical (active risks))
          missingMetrics := []
          evidenceRefs := sortedSet ((committed requiredMetrics metrics).flatMap fun binding ↦
            binding.2.evidenceRefs) } := by
  simp only [evaluatePolicy, if_pos ((missing_isEmpty_iff hnodup).mpr h)]
  cases baseScore weights (committed requiredMetrics metrics) <;> rfl

/-- A decision whose required metrics are committed has a score, unless a value does not fit. -/
theorem evaluatePolicy_scored_iff (hnodup : metrics.keys.Nodup)
    (h : ∀ name ∈ requiredMetrics, (committedValue metrics name).isSome = true) :
    (∃ result score, evaluatePolicy requiredMetrics metrics risks weights thresholds = .ok result ∧
      result.trustScore = some score ∧ result.status ≠ .insufficientData) ↔ AllFit requiredMetrics metrics := by
  rw [evaluatePolicy_committed _ _ _ hnodup h, ← baseScore_ok_iff hnodup weights]
  cases hbase : baseScore weights (committed requiredMetrics metrics) with
  | error error => simp [Except.map]
  | ok base =>
    refine iff_of_true ⟨_, _, rfl, rfl, ?_⟩ ⟨base, rfl⟩
    exact verdictOf_ne_insufficientData _ _ _

end DecisionCore.PolicyEvaluator
