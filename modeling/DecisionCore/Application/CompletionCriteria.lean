import DecisionCore.Application.CommandHandler
import DecisionCore.Application.MetricsRegistry

/-!
# Completion criteria

A decision is ready to publish when none of its required metrics is in flight.  The criterion reads a map from metric
names to statuses, so it can be asked on both sides: of the staging area of the command handler, and of the registry
that is replayed from the log.
-/

namespace DecisionCore

/-- The status with the given text. -/
def MetricStatus.ofValue? (text : String) : Option MetricStatus :=
  [proposed, debated, critiqued, reconciled, committed, rejected, superseded].find? fun status ↦
    decide (status.value = text)

@[simp] theorem MetricStatus.ofValue?_value (status : MetricStatus) : ofValue? status.value = some status := by
  cases status <;> decide

namespace CompletionCriteria

/-- The statuses with nothing left in flight. -/
def terminal : List MetricStatus := [.committed, .rejected, .superseded]

def isReadyToPublish : List String → Dict String MetricStatus → Bool
  | [], _ => true
  | name :: rest, statuses =>
    match statuses.get? name with
    | none => false
    | some status => if status ∈ terminal then isReadyToPublish rest statuses else false

/-- The metric has a status, and it is a terminal one. -/
def Terminal (statuses : Dict String MetricStatus) (name : String) : Prop :=
  ∃ status, statuses.get? name = some status ∧ status ∈ terminal

theorem isReadyToPublish_iff (requiredMetrics : List String) (statuses : Dict String MetricStatus) :
    isReadyToPublish requiredMetrics statuses = true ↔ ∀ name ∈ requiredMetrics, Terminal statuses name := by
  induction requiredMetrics with
  | nil => simp [isReadyToPublish]
  | cons name rest ih =>
    rw [isReadyToPublish, List.forall_mem_cons, ← ih]
    cases hstatus : statuses.get? name with
    | none => simp [Terminal, hstatus]
    | some status => by_cases hterminal : status ∈ terminal <;> simp [Terminal, hstatus, hterminal]

/-- Two maps give the same answer for every list of metrics when they agree on which metrics are terminal. -/
theorem isReadyToPublish_agree_iff {first second : Dict String MetricStatus} :
    (∀ requiredMetrics, isReadyToPublish requiredMetrics first = isReadyToPublish requiredMetrics second) ↔
      ∀ name, Terminal first name ↔ Terminal second name := by
  have hanswers (requiredMetrics : List String) :
      isReadyToPublish requiredMetrics first = isReadyToPublish requiredMetrics second ↔
        ((∀ name ∈ requiredMetrics, Terminal first name) ↔ ∀ name ∈ requiredMetrics, Terminal second name) := by
    rw [← isReadyToPublish_iff, ← isReadyToPublish_iff, ← Bool.eq_iff_iff]
  constructor
  · intro h name
    simpa using (hanswers [name]).mp (h [name])
  · intro h requiredMetrics
    rw [hanswers]
    exact forall₂_congr fun name _ ↦ h name

/-! ## Statuses of the write side -/

/-- The status of a stage. -/
def stageStatus? (stage : PyDict) : Option MetricStatus := (stage.text? "status").bind MetricStatus.ofValue?

/-- The metric of a staging key, when the key belongs to the decision. -/
def metricOf? (decisionId : String) : PyKey × PyKey → Option String
  | (.str decision, .str name) => if decision = decisionId then some name else none
  | _ => none

/-- The statuses that are staged for a decision. -/
def stagedStatuses (staging : Staging) (decisionId : String) : Dict String MetricStatus :=
  staging.collect (metricOf? decisionId) stageStatus?

/-- Every stage has a status, and the only terminal one that is ever staged is that of a commit. -/
def WellStaged (staging : Staging) : Prop :=
  ∀ binding ∈ staging.entries, ∃ status, stageStatus? binding.2 = some status ∧
    (status ∈ terminal → status = .committed)

/-- The metric of the decision is staged as committed. -/
def StagedCommitted (staging : Staging) (decisionId name : String) : Prop :=
  (staging.get? (.str decisionId, .str name)).bind stageStatus? = some .committed

instance (staging : Staging) (decisionId name : String) : Decidable (StagedCommitted staging decisionId name) :=
  inferInstanceAs (Decidable (_ = _))

theorem metricOf?_eq_some (decisionId name : String) (key : PyKey × PyKey) :
    metricOf? decisionId key = some name ↔ key = (.str decisionId, .str name) := by
  unfold metricOf?
  split
  · rename_i decision other
    by_cases heq : decision = decisionId <;> simp [heq]
  · rename_i hother
    refine iff_of_false (by simp) ?_
    rintro rfl
    exact hother _ _ rfl

theorem wellStaged_empty : WellStaged .empty := by simp [WellStaged, Dict.empty]

theorem WellStaged.set {staging : Staging} (h : WellStaged staging) (key : PyKey × PyKey) {stage : PyDict}
    {status : MetricStatus} (hstatus : stageStatus? stage = some status)
    (hterminal : status ∈ terminal → status = .committed) : WellStaged (staging.set key stage) := by
  intro binding hbinding
  obtain rfl | hold := Dict.mem_of_mem_set hbinding
  · exact ⟨status, hstatus, hterminal⟩
  · exact h binding hold

theorem WellStaged.terminal_iff {staging : Staging} (h : WellStaged staging) (decisionId name : String) :
    Terminal (stagedStatuses staging decisionId) name ↔ StagedCommitted staging decisionId name := by
  have hget : (stagedStatuses staging decisionId).get? name =
      (staging.get? (.str decisionId, .str name)).bind stageStatus? := by
    apply Dict.get?_collect (metricOf?_eq_some decisionId name)
    intro binding hbinding
    obtain ⟨status, hstatus, -⟩ := h binding hbinding
    simp [hstatus]
  unfold Terminal StagedCommitted
  rw [hget]
  constructor
  · rintro ⟨status, hstatus, hterminal⟩
    obtain ⟨stage, hstage, hview⟩ := Option.bind_eq_some_iff.mp hstatus
    obtain ⟨other, hother, hcommitted⟩ := h _ (Dict.mem_of_get?_eq_some hstage)
    obtain rfl : status = other := Option.some.inj (hview.symm.trans hother)
    rw [hstatus, hcommitted hterminal]
  · intro hcommitted
    exact ⟨.committed, hcommitted, by decide⟩

/-- Staging one metric leaves the others as they are. -/
theorem stagedCommitted_set (staging : Staging) {decisionId name : String} {stage : PyDict} {status : MetricStatus}
    (hstatus : stageStatus? stage = some status) (decision metric : String) :
    StagedCommitted (staging.set (.str decisionId, .str name) stage) decision metric ↔
      if decision = decisionId ∧ metric = name then status = .committed
      else StagedCommitted staging decision metric := by
  unfold StagedCommitted
  rw [Dict.get?_set]
  by_cases hsame : decision = decisionId ∧ metric = name
  · obtain ⟨rfl, rfl⟩ := hsame
    simp [hstatus]
  · have hne : (PyKey.str decisionId, PyKey.str name) ≠ (PyKey.str decision, PyKey.str metric) := by
      simpa [eq_comm] using hsame
    rw [if_neg hne, if_neg hsame]

/-! ## Statuses of the read side -/

/-- The statuses of the records of a registry. -/
def registryStatuses (metrics : MetricsRegistry.Metrics) : Dict String MetricStatus :=
  metrics.collect some fun record ↦ some record.status

theorem registryStatuses_get? (metrics : MetricsRegistry.Metrics) (name : String) :
    (registryStatuses metrics).get? name = (metrics.get? name).map (·.status) := by
  have hget : (registryStatuses metrics).get? name = (metrics.get? name).bind fun record ↦ some record.status :=
    Dict.get?_collect (fun other ↦ by simp) (fun binding _ ↦ rfl)
  rw [hget, Option.map_eq_bind]
  rfl

end CompletionCriteria

end DecisionCore
