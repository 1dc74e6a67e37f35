import DecisionCore.Application.ExactPolicy
import DecisionCore.Domain.PyFloatSum
import DecisionCore.ReadModel.Policy
import DecisionCore.ReadModel.Redelivery

/-!
# The formula of the policy evaluator

Every round of the loop recomputes the base score from the terms collected so far and the weight of all records, so
only the last round counts, and it computes a sum that does not depend on the order of the records.  The evaluator over
exact numbers therefore computes a formula over the set of the required metrics that are committed.
-/

namespace DecisionCore.PolicyEvaluator.Exact

open MetricsRegistry (Metrics committedValue)

variable {requiredMetrics : List String} {metrics : Metrics}

/-! ## The loop -/

/-- `numeric_val * w.get(name, 1.0)`. -/
def term (weights : Option (Dict String PyFloat)) (binding : String × MetricRecord) : PyFloat :=
  (num binding.2.value).mul (weightOf weights binding.1)

/-- The base score of the records. -/
def base (weights : Option (Dict String PyFloat)) (bindings : List (String × MetricRecord)) : PyFloat :=
  if bindings.isEmpty then .fin 0 else clamp ((bindings.map (term weights)).sum.div (totalWeight weights bindings))

theorem sum_eq (terms : List PyFloat) : sum terms = terms.sum := List.sum_eq_foldl.symm

/-- The total weight is not zero, whatever the weights are. -/
theorem totalWeight_ne_zero (weights : Option (Dict String PyFloat)) (bindings : List (String × MetricRecord)) :
    totalWeight weights bindings ≠ .fin 0 := by
  simp only [totalWeight]
  split
  · rename_i htruthy
    intro hzero
    simp [hzero, PyFloat.truthy] at htruthy
  · simp

/-- The last round decides the base score. -/
theorem baseLoop_eq (weights : Option (Dict String PyFloat)) (all : List (String × MetricRecord))
    (terms : List PyFloat) (score : PyFloat) (rest : List (String × MetricRecord)) :
    baseLoop weights all terms score rest = some (if rest.isEmpty then score
      else clamp ((terms ++ rest.map (term weights)).sum.div (totalWeight weights all))) := by
  induction rest generalizing terms score with
  | nil => rfl
  | cons binding rest ih =>
    obtain ⟨name, record⟩ := binding
    rw [baseLoop]
    simp only [divide?, if_neg (totalWeight_ne_zero weights all), sum_eq, bind, Option.bind_some, ih]
    cases rest with
    | nil => rfl
    | cons next rest => simp [term]

theorem weighted_of_fits {value : Json} (h : Fits value) (weight : PyFloat) :
    weighted value weight = .ok ((num value).mul weight) := by
  cases value with
  | int n => simp [weighted, PyFloat.ofInt, fits_int.mp h, num, Except.map]
  | _ => rfl

theorem baseLoop_of_fits (weights : Option (Dict String PyFloat)) (all : List (String × MetricRecord))
    (terms : List PyFloat) (score : PyFloat) {rest : List (String × MetricRecord)}
    (h : ∀ binding ∈ rest, Fits binding.2.value) :
    (PolicyEvaluator.baseLoop weights all terms score rest).toOption = baseLoop weights all terms score rest := by
  induction rest generalizing terms score with
  | nil => rfl
  | cons binding rest ih =>
    obtain ⟨name, record⟩ := binding
    obtain ⟨hfirst, hrest⟩ := List.forall_mem_cons.mp h
    rw [PolicyEvaluator.baseLoop, baseLoop]
    simp only [weighted_of_fits hfirst, divide?, if_neg (totalWeight_ne_zero weights all), bind, Except.bind,
      Option.bind_some]
    exact ih _ _ hrest

/-- As long as no committed integer is too large for a float, the evaluator is the one over exact numbers. -/
theorem evaluatePolicy_of_fits (h : ∀ binding ∈ committed requiredMetrics metrics, Fits binding.2.value)
    (risks : List RiskSignalEntry) (weights : Option (Dict String PyFloat)) (thresholds : PolicyThresholds) :
    (PolicyEvaluator.evaluatePolicy requiredMetrics metrics risks weights thresholds).toOption =
      evaluatePolicy requiredMetrics metrics risks weights thresholds := by
  have hbase := baseLoop_of_fits weights (committed requiredMetrics metrics) [] (.fin 0) h
  simp only [PolicyEvaluator.evaluatePolicy, evaluatePolicy, ← hbase, baseScore]
  split
  · cases PolicyEvaluator.baseLoop weights (committed requiredMetrics metrics) [] (.fin 0)
      (committed requiredMetrics metrics) <;> rfl
  · rfl

/-- The loop over all records divides by zero in no round. -/
theorem baseLoop_eq_base (weights : Option (Dict String PyFloat)) (bindings : List (String × MetricRecord)) :
    baseLoop weights bindings [] (.fin 0) bindings = some (base weights bindings) := by
  rw [baseLoop_eq, List.nil_append, base]

/-- The evaluation without the loop. -/
theorem evaluatePolicy_eq (requiredMetrics : List String) (metrics : Metrics) (risks : List RiskSignalEntry)
    (weights : Option (Dict String PyFloat)) (thresholds : PolicyThresholds) :
    evaluatePolicy requiredMetrics metrics risks weights thresholds =
      some (if (missing requiredMetrics (committed requiredMetrics metrics)).isEmpty then
        let score := clamp ((base weights (committed requiredMetrics metrics)).sub (.fin (riskPenalty (active risks))))
        { trustScore := some score
          status := verdictOf thresholds score (hasCritical (active risks))
          missingMetrics := []
          evidenceRefs := sortedSet ((committed requiredMetrics metrics).flatMap fun binding ↦
            binding.2.evidenceRefs) }
      else
        { trustScore := none, status := .insufficientData,
          missingMetrics := missing requiredMetrics (committed requiredMetrics metrics), evidenceRefs := [] }) := by
  simp only [evaluatePolicy, baseLoop_eq_base]
  split <;> rfl

/-! ## Independence of the order -/

section Order

variable {otherRequired : List String} {otherMetrics : Metrics} {risks otherRisks : List RiskSignalEntry}

theorem committed_perm (hrequired : ∀ name, name ∈ requiredMetrics ↔ name ∈ otherRequired)
    (hmetrics : metrics.entries.Perm otherMetrics.entries) :
    (committed requiredMetrics metrics).Perm (committed otherRequired otherMetrics) := by
  unfold committed
  simp only [hrequired]
  exact hmetrics.filter _

theorem base_perm (weights : Option (Dict String PyFloat)) {bindings others : List (String × MetricRecord)}
    (h : bindings.Perm others) : base weights bindings = base weights others := by
  have htotal : totalWeight weights bindings = totalWeight weights others := by
    simp only [totalWeight, sum_eq, (h.map fun binding ↦ weightOf weights binding.1).sum_eq]
  rw [base, base, h.isEmpty_eq, (h.map (term weights)).sum_eq, htotal]

theorem missing_congr (hrequired : ∀ name, name ∈ requiredMetrics ↔ name ∈ otherRequired)
    {bindings others : List (String × MetricRecord)} (h : bindings.Perm others) :
    missing requiredMetrics bindings = missing otherRequired others := by
  apply sortedSet_congr
  intro name
  simp only [List.mem_filter, hrequired, (h.map Prod.fst).mem_iff]

theorem riskPenalty_perm (h : risks.Perm otherRisks) :
    riskPenalty (active risks) = riskPenalty (active otherRisks) :=
  ((h.filter _).map _).sum_eq

theorem hasCritical_perm (h : risks.Perm otherRisks) : hasCritical (active risks) = hasCritical (active otherRisks) :=
  (h.filter _).any_eq

/-- An evaluation depends on the required metrics as a set, and not on the order of the records and of the risks. -/
theorem evaluatePolicy_congr (weights : Option (Dict String PyFloat)) (thresholds : PolicyThresholds)
    (hrequired : ∀ name, name ∈ requiredMetrics ↔ name ∈ otherRequired)
    (hmetrics : metrics.entries.Perm otherMetrics.entries) (hrisks : risks.Perm otherRisks) :
    evaluatePolicy requiredMetrics metrics risks weights thresholds =
      evaluatePolicy otherRequired otherMetrics otherRisks weights thresholds := by
  have hcommitted := committed_perm hrequired hmetrics
  have hevidence : sortedSet ((committed requiredMetrics metrics).flatMap fun binding ↦ binding.2.evidenceRefs) =
      sortedSet ((committed otherRequired otherMetrics).flatMap fun binding ↦ binding.2.evidenceRefs) := by
    apply sortedSet_congr
    intro ref
    simp only [List.mem_flatMap, hcommitted.mem_iff]
  rw [evaluatePolicy_eq, evaluatePolicy_eq, missing_congr hrequired hcommitted, base_perm weights hcommitted,
    riskPenalty_perm hrisks, hasCritical_perm hrisks, hevidence]

end Order

/-! ## Sums over the committed metrics -/

/-- The required metrics whose record is committed. -/
def committedNames (requiredMetrics : List String) (metrics : Metrics) : Finset String :=
  requiredMetrics.toFinset.filter fun name ↦ (committedValue metrics name).isSome = true

/-- The committed value of a metric. -/
def valueOf (metrics : Metrics) (name : String) : Json := (committedValue metrics name).getD .null

theorem mem_committedNames {name : String} : name ∈ committedNames requiredMetrics metrics ↔
    name ∈ requiredMetrics ∧ (committedValue metrics name).isSome = true := by
  simp [committedNames]

theorem nodup_committed (hnodup : metrics.keys.Nodup) (requiredMetrics : List String) :
    ((committed requiredMetrics metrics).map Prod.fst).Nodup := by
  apply List.Nodup.sublist _ hnodup
  exact List.filter_sublist.map Prod.fst

theorem mem_map_committed (hnodup : metrics.keys.Nodup) {name : String} :
    name ∈ (committed requiredMetrics metrics).map Prod.fst ↔ name ∈ committedNames requiredMetrics metrics := by
  rw [mem_committedNames]
  constructor
  · intro h
    obtain ⟨⟨found, record⟩, hfound, rfl⟩ := List.mem_map.mp h
    obtain ⟨hget, hstatus, hrequired⟩ := (mem_committed hnodup).mp hfound
    exact ⟨hrequired, by simp [committedValue, hget, hstatus]⟩
  · rintro ⟨hrequired, hsome⟩
    obtain ⟨value, hvalue⟩ := Option.isSome_iff_exists.mp hsome
    obtain ⟨record, hget, hstatus, -⟩ := committedValue_eq_some hvalue
    exact List.mem_map.mpr ⟨(name, record), (mem_committed hnodup).mpr ⟨hget, hstatus, hrequired⟩, rfl⟩

/-- A sum over the committed records is one over the committed metrics. -/
theorem sum_committed (hnodup : metrics.keys.Nodup) {M : Type} [AddCommMonoid M] (f : String → Json → M) :
    ((committed requiredMetrics metrics).map fun binding ↦ f binding.1 binding.2.value).sum =
      ∑ name ∈ committedNames requiredMetrics metrics, f name (valueOf metrics name) := by
  have hvalue : ∀ binding ∈ committed requiredMetrics metrics,
      f binding.1 binding.2.value = f binding.1 (valueOf metrics binding.1) := by
    rintro ⟨name, record⟩ hmem
    obtain ⟨hget, hstatus, -⟩ := (mem_committed hnodup).mp hmem
    simp [valueOf, committedValue, hget, hstatus]
  have hnames : ((committed requiredMetrics metrics).map Prod.fst).toFinset =
      committedNames requiredMetrics metrics := by
    ext name
    rw [List.mem_toFinset, mem_map_committed hnodup]
  calc
    ((committed requiredMetrics metrics).map fun binding ↦ f binding.1 binding.2.value).sum =
        ((committed requiredMetrics metrics).map fun binding ↦ f binding.1 (valueOf metrics binding.1)).sum := by
      rw [List.map_congr_left hvalue]
    _ = (((committed requiredMetrics metrics).map Prod.fst).map fun name ↦ f name (valueOf metrics name)).sum := by
      rw [List.map_map]
      rfl
    _ = ∑ name ∈ committedNames requiredMetrics metrics, f name (valueOf metrics name) := by
      rw [← List.sum_toFinset _ (nodup_committed hnodup requiredMetrics), hnames]

theorem isEmpty_committed (hnodup : metrics.keys.Nodup) : (committed requiredMetrics metrics).isEmpty = true ↔
    committedNames requiredMetrics metrics = ∅ := by
  rw [List.isEmpty_iff, Finset.eq_empty_iff_forall_notMem]
  constructor
  · intro hnil name hname
    rw [← mem_map_committed hnodup, hnil] at hname
    cases hname
  · intro hnone
    apply List.eq_nil_iff_forall_not_mem.mpr
    intro binding hmem
    exact hnone binding.1 ((mem_map_committed hnodup).mp (List.mem_map_of_mem hmem))

/-! ## The formula -/

/-- The number is a rational one. -/
def IsRational (x : PyFloat) : Prop := ∃ q, x = .fin q

/-- The rational a float stands for. -/
def rational : PyFloat → ℚ
  | .fin q => q
  | _ => 0

theorem IsRational.eq_fin {x : PyFloat} (h : IsRational x) : x = .fin (rational x) := by
  obtain ⟨q, rfl⟩ := h
  rfl

def clamp01 (q : ℚ) : ℚ := max 0 (min 1 q)

/-- The weight of the committed metrics, or 1 when it is 0. -/
def formulaWeight (weights : Option (Dict String PyFloat)) (names : Finset String) : ℚ :=
  if ∑ name ∈ names, rational (weightOf weights name) = 0 then 1 else ∑ name ∈ names, rational (weightOf weights name)

/-- The weighted mean of the committed values, between 0 and 1. -/
def formulaBase (weights : Option (Dict String PyFloat)) (metrics : Metrics) (names : Finset String) : ℚ :=
  if names = ∅ then 0
  else clamp01 ((∑ name ∈ names, rational (num (valueOf metrics name)) * rational (weightOf weights name)) /
    formulaWeight weights names)

/-- The trust score. -/
def formulaScore (weights : Option (Dict String PyFloat)) (metrics : Metrics) (risks : List RiskSignalEntry)
    (names : Finset String) : ℚ :=
  clamp01 (formulaBase weights metrics names - riskPenalty (active risks))

/-- The weights are rational numbers. -/
def RationalWeights (weights : Option (Dict String PyFloat)) : Prop :=
  ∀ map ∈ weights, ∀ binding ∈ map.entries, IsRational binding.2

theorem RationalWeights.weightOf {weights : Option (Dict String PyFloat)} (h : RationalWeights weights)
    (name : String) : IsRational (weightOf weights name) := by
  cases weights with
  | none => exact ⟨1, rfl⟩
  | some map =>
    simp only [PolicyEvaluator.weightOf]
    split
    · exact ⟨1, rfl⟩
    · cases hget : map.get? name with
      | none => exact ⟨1, rfl⟩
      | some weight => exact h map rfl _ (Dict.mem_of_get?_eq_some hget)

/-- The committed values of the required metrics are rational numbers, or count as 1. -/
def RationalValues (requiredMetrics : List String) (metrics : Metrics) : Prop :=
  ∀ name ∈ requiredMetrics, ∀ value, committedValue metrics name = some value → IsRational (num value)

section Formula

variable {weights : Option (Dict String PyFloat)}

theorem totalWeight_eq (hnodup : metrics.keys.Nodup) (hweights : RationalWeights weights) :
    totalWeight weights (committed requiredMetrics metrics) =
      .fin (formulaWeight weights (committedNames requiredMetrics metrics)) := by
  have hsum : sum ((committed requiredMetrics metrics).map fun binding ↦ weightOf weights binding.1) =
      .fin (∑ name ∈ committedNames requiredMetrics metrics, rational (weightOf weights name)) := by
    calc
      sum ((committed requiredMetrics metrics).map fun binding ↦ weightOf weights binding.1) =
          ∑ name ∈ committedNames requiredMetrics metrics, weightOf weights name := by
        rw [sum_eq, sum_committed hnodup fun name _ ↦ weightOf weights name]
      _ = ∑ name ∈ committedNames requiredMetrics metrics, .fin (rational (weightOf weights name)) := by
        apply Finset.sum_congr rfl
        intro name _
        exact (hweights.weightOf name).eq_fin
      _ = .fin (∑ name ∈ committedNames requiredMetrics metrics, rational (weightOf weights name)) :=
        PyFloat.fin_sum _ _
  simp only [totalWeight, hsum, formulaWeight, PyFloat.truthy, decide_eq_true_eq]
  split_ifs <;> simp_all

theorem base_eq (hnodup : metrics.keys.Nodup) (hweights : RationalWeights weights)
    (hvalues : RationalValues requiredMetrics metrics) :
    base weights (committed requiredMetrics metrics) =
      .fin (formulaBase weights metrics (committedNames requiredMetrics metrics)) := by
  have hsum : ((committed requiredMetrics metrics).map (term weights)).sum =
      .fin (∑ name ∈ committedNames requiredMetrics metrics,
        rational (num (valueOf metrics name)) * rational (weightOf weights name)) := by
    calc
      ((committed requiredMetrics metrics).map (term weights)).sum =
          ∑ name ∈ committedNames requiredMetrics metrics,
            (num (valueOf metrics name)).mul (weightOf weights name) :=
        sum_committed hnodup fun name value ↦ (num value).mul (weightOf weights name)
      _ = ∑ name ∈ committedNames requiredMetrics metrics,
            .fin (rational (num (valueOf metrics name)) * rational (weightOf weights name)) := by
        apply Finset.sum_congr rfl
        intro name hname
        obtain ⟨hrequired, hsome⟩ := mem_committedNames.mp hname
        obtain ⟨value, hvalue⟩ := Option.isSome_iff_exists.mp hsome
        have hnum : IsRational (num (valueOf metrics name)) := by
          rw [valueOf, hvalue]
          exact hvalues name hrequired value hvalue
        rw [hnum.eq_fin, (hweights.weightOf name).eq_fin]
        rfl
      _ = .fin (∑ name ∈ committedNames requiredMetrics metrics,
            rational (num (valueOf metrics name)) * rational (weightOf weights name)) := PyFloat.fin_sum _ _
  rw [base, formulaBase, hsum, totalWeight_eq hnodup hweights, if_congr (isEmpty_committed hnodup) rfl rfl]
  split
  · rfl
  · exact clamp_eq _

theorem score_eq (hnodup : metrics.keys.Nodup) (hweights : RationalWeights weights)
    (hvalues : RationalValues requiredMetrics metrics) (risks : List RiskSignalEntry) :
    clamp ((base weights (committed requiredMetrics metrics)).sub (.fin (riskPenalty (active risks)))) =
      .fin (formulaScore weights metrics risks (committedNames requiredMetrics metrics)) := by
  rw [base_eq hnodup hweights hvalues, formulaScore, sub_eq_add_neg]
  exact clamp_eq _

end Formula

theorem sortedSet_pairwise (texts : List String) : (sortedSet texts).Pairwise (· < ·) := by
  have hsorted : (sortedSet texts).Pairwise (· ≤ ·) := List.pairwise_insertionSort _ _
  have hnodup : (sortedSet texts).Nodup := (List.perm_insertionSort _ _).nodup_iff.mpr (List.nodup_dedup texts)
  apply (hsorted.and hnodup).imp
  intro first second h
  exact lt_of_le_of_ne h.1 h.2

theorem mem_missing (hnodup : metrics.keys.Nodup) {name : String} :
    name ∈ missing requiredMetrics (committed requiredMetrics metrics) ↔
      name ∈ requiredMetrics ∧ name ∉ committedNames requiredMetrics metrics := by
  rw [missing, mem_sortedSet, List.mem_filter, decide_eq_true_eq, mem_map_committed hnodup]

theorem isEmpty_missing (hnodup : metrics.keys.Nodup) :
    (missing requiredMetrics (committed requiredMetrics metrics)).isEmpty = true ↔
      ∀ name ∈ requiredMetrics, name ∈ committedNames requiredMetrics metrics := by
  rw [List.isEmpty_iff, List.eq_nil_iff_forall_not_mem]
  simp only [mem_missing hnodup, not_and, not_not]

/-- A score lies between 0 and 1. -/
theorem trustScore_mem {risks : List RiskSignalEntry} {weights : Option (Dict String PyFloat)}
    {thresholds : PolicyThresholds} {result : PolicyVerdictResult} {score : PyFloat}
    (h : evaluatePolicy requiredMetrics metrics risks weights thresholds = some result)
    (hscore : result.trustScore = some score) : ∃ q : ℚ, score = .fin q ∧ 0 ≤ q ∧ q ≤ 1 := by
  rw [evaluatePolicy_eq, Option.some.injEq] at h
  subst h
  split at hscore
  · obtain rfl := Option.some.inj hscore
    exact clamp_fin _
  · cases hscore

/-- Without some required metric an evaluation names the missing ones, and with all of them it computes the formula;
it never divides by zero, and neither the order of the records and the risks nor that of the required metrics and their
repetitions matter. -/
theorem evaluatePolicy_computes_formula (hnodup : metrics.keys.Nodup) {weights : Option (Dict String PyFloat)}
    (hweights : RationalWeights weights) (hvalues : RationalValues requiredMetrics metrics)
    (risks : List RiskSignalEntry) (thresholds : PolicyThresholds) :
    ∃ result, evaluatePolicy requiredMetrics metrics risks weights thresholds = some result ∧
      ((∃ name ∈ requiredMetrics, name ∉ committedNames requiredMetrics metrics) →
        result.trustScore = none ∧ result.status = .insufficientData ∧ result.missingMetrics.Pairwise (· < ·) ∧
          ∀ name, name ∈ result.missingMetrics ↔
            name ∈ requiredMetrics ∧ name ∉ committedNames requiredMetrics metrics) ∧
      ((∀ name ∈ requiredMetrics, name ∈ committedNames requiredMetrics metrics) →
        result.trustScore =
          some (.fin (formulaScore weights metrics risks (committedNames requiredMetrics metrics))) ∧
        result.missingMetrics = []) ∧
      (∀ score, result.trustScore = some score → ∃ q : ℚ, score = .fin q ∧ 0 ≤ q ∧ q ≤ 1) ∧
      ∀ otherRequired otherMetrics otherRisks, (∀ name, name ∈ requiredMetrics ↔ name ∈ otherRequired) →
        metrics.entries.Perm otherMetrics.entries → risks.Perm otherRisks →
        evaluatePolicy otherRequired otherMetrics otherRisks weights thresholds = some result := by
  have heq := evaluatePolicy_eq requiredMetrics metrics risks weights thresholds
  refine ⟨_, heq, ?_, ?_, ?_, ?_⟩
  · rintro ⟨name, hrequired, hname⟩
    have hmissing : ¬ (missing requiredMetrics (committed requiredMetrics metrics)).isEmpty = true := by
      rw [isEmpty_missing hnodup]
      exact fun hall ↦ hname (hall name hrequired)
    simp only [if_neg hmissing, true_and]
    exact ⟨sortedSet_pairwise _, fun name ↦ mem_missing hnodup⟩
  · intro hall
    simp only [if_pos ((isEmpty_missing hnodup).mpr hall), score_eq hnodup hweights hvalues, and_self]
  · intro score hscore
    exact trustScore_mem heq hscore
  · intro otherRequired otherMetrics otherRisks hrequired hmetrics hrisks
    rw [← evaluatePolicy_congr weights thresholds hrequired hmetrics hrisks, heq]

/-- The registry of two committed metrics. -/
def sampleMetrics (roi cost : Json) : Metrics :=
  ⟨[("roi", ⟨"d1", "roi", roi, "agent", "k1", ["e1"], .committed, 0, none, none⟩),
    ("cost", ⟨"d1", "cost", cost, "agent", "k2", ["e2"], .committed, 0, none, none⟩)]⟩

/-- Weights that cancel each other count as a total weight of 1. -/
theorem evaluatePolicy_of_cancelling_weights :
    ∃ result, evaluatePolicy ["roi", "cost", "roi"] (sampleMetrics (.int 1) (.str "high")) []
        (some ⟨[("roi", .fin 2), ("cost", .fin (-2))]⟩) .default = some result ∧
      result.trustScore = some (.fin (formulaScore (some ⟨[("roi", .fin 2), ("cost", .fin (-2))]⟩)
        (sampleMetrics (.int 1) (.str "high")) [] (committedNames ["roi", "cost", "roi"]
          (sampleMetrics (.int 1) (.str "high"))))) := by
  have hweights : RationalWeights (some ⟨[("roi", .fin 2), ("cost", .fin (-2))]⟩) := by
    rintro map ⟨⟩ binding hmem
    simp only [List.mem_cons, List.not_mem_nil, or_false] at hmem
    obtain rfl | rfl := hmem
    · exact ⟨2, rfl⟩
    · exact ⟨-2, rfl⟩
  have hvalues : RationalValues ["roi", "cost", "roi"] (sampleMetrics (.int 1) (.str "high")) := by
    intro name hname value hvalue
    simp only [List.mem_cons, List.not_mem_nil, or_false] at hname
    obtain rfl | rfl | rfl := hname
    · exact Option.some.inj hvalue ▸ ⟨1, rfl⟩
    · exact Option.some.inj hvalue ▸ ⟨1, rfl⟩
    · exact Option.some.inj hvalue ▸ ⟨1, rfl⟩
  obtain ⟨result, hresult, -, hscored, -⟩ :=
    evaluatePolicy_computes_formula (by decide) hweights hvalues [] .default
  exact ⟨result, hresult, (hscored (by decide)).1⟩

end DecisionCore.PolicyEvaluator.Exact
