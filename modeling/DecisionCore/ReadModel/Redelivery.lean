import Mathlib.Tactic.Linarith
import DecisionCore.System.Deliveries
import DecisionCore.ReadModel.EvidenceGate

/-!
# Redelivered payloads

The bus delivers at least once.  A second delivery appends the payload again: a commit is kept out by
its key and a rejection meets a record, but the penalty of a risk signal is counted twice.
-/

namespace DecisionCore

open CommandHandler MetricsRegistry ScoreboardProjector PolicyEvaluator

variable {env : Env} {decisionId : String}

/-! ## Replays of a longer stream -/

/-- Events that do nothing to the registries a replay can reach change no replay. -/
theorem replay_append_of_noop {extra : List PyDict} {inv : Metrics → Prop}
    (hset : ∀ metrics key record, inv metrics → inv (metrics.set key record))
    (hnoop : ∀ metrics, inv metrics → replay env decisionId metrics extra = .ok metrics)
    (log : List PyDict) {metrics : Metrics} (hinv : inv metrics) :
    replay env decisionId metrics (log ++ extra) = replay env decisionId metrics log := by
  induction log generalizing metrics with
  | nil => exact hnoop metrics hinv
  | cons evt rest ih =>
    rw [List.cons_append, replay_cons, replay_cons]
    cases hround : consume env decisionId metrics evt with
    | error error => rfl
    | ok round =>
      have hnext := (consume_ok hround).keeps hset hinv
      simp only [bind, Except.bind, ih hnext]

/-- Events of other types do nothing. -/
theorem replay_append_skipped {extra : List PyDict}
    (h : ∀ evt ∈ extra, evt.hasType "MetricCommitted" = false ∧ evt.hasType "MetricRejected" = false ∧
      evt.hasType "MetricSuperseded" = false) (log : List PyDict) (metrics : Metrics) :
    replay env decisionId metrics (log ++ extra) = replay env decisionId metrics log := by
  have hnoop (metrics : Metrics) (_ : True) : replay env decisionId metrics extra = .ok metrics := by
    induction extra with
    | nil => rfl
    | cons evt rest ih =>
      obtain ⟨hcommit, hreject, hsupersede⟩ := h evt List.mem_cons_self
      simpa [replay, hcommit, hreject, hsupersede] using
        ih fun other hother ↦ h other (List.mem_cons_of_mem evt hother)
  exact replay_append_of_noop (fun _ _ _ _ ↦ trivial) hnoop log trivial

/-- Behind a rejection of the metric, another rejection of it does nothing. -/
theorem replay_append_rejected {first second : PyDict} {log : List PyDict} {name : Json} (hmem : first ∈ log)
    (hfirst : first.hasType "MetricRejected" = true) (hfirstName : first.get? "metric_name" = some name)
    (hsecond : second.hasType "MetricRejected" = true) (hsecondName : second.get? "metric_name" = some name)
    (metrics : Metrics) :
    replay env decisionId metrics (log ++ [second]) = replay env decisionId metrics log := by
  have hcommit {evt : PyDict} (h : evt.hasType "MetricRejected" = true) : evt.hasType "MetricCommitted" = false :=
    hasType_of_hasType h (by decide)
  induction log generalizing metrics with
  | nil => cases hmem
  | cons evt rest ih =>
    rw [List.cons_append, replay_cons, replay_cons]
    cases hround : consume env decisionId metrics evt with
    | error error => rfl
    | ok round =>
      obtain ⟨next, stop⟩ := round
      rcases List.mem_cons.mp hmem with rfl | hrest
      · -- From here on the metric has a record.
        obtain ⟨text, rfl, hcontains⟩ : ∃ text, name = .str text ∧ next.contains text = true := by
          cases consume_ok hround with
          | commit htype _ => simp [hcommit hfirst] at htype
          | @reject record _ hrecord _ =>
            have hname := Option.some.inj (hfirstName.symm.trans (rejectedRecord_ok hrecord).1)
            exact ⟨record.metricName, hname, by simp [Dict.contains]⟩
          | @recorded text record _ hname hget =>
            exact ⟨text, Option.some.inj (hfirstName.symm.trans hname), by simp [Dict.contains, hget]⟩
          | supersede htype _ _ => simp [hasType_of_hasType htype (by decide : _ ≠ "MetricRejected")] at hfirst
          | unknown htype _ => simp [hasType_of_hasType htype (by decide : _ ≠ "MetricRejected")] at hfirst
          | other _ hreject _ => simp [hreject] at hfirst
        have hnoop (metrics : Metrics) (hcontains : metrics.contains text = true) :
            replay env decisionId metrics [second] = .ok metrics := by
          obtain ⟨record, hget⟩ := Option.isSome_iff_exists.mp hcontains
          simp [replay, hcommit hsecond, hsecond, item_eq hsecondName, recordOf?, hget, bind, Except.bind]
        have hset (metrics : Metrics) (key : String) (record : MetricRecord) (h : metrics.contains text = true) :
            (metrics.set key record).contains text = true := by
          by_cases heq : key = text
          · simp [Dict.contains, heq]
          · simpa [Dict.contains, heq] using h
        simp only [bind, Except.bind]
        rw [replay_append_of_noop hset hnoop rest hcontains]
      · simp only [bind, Except.bind, ih hrest next]

/-! ## What a rebuild shows -/

/-- The parts of a rebuilt board that are decided: its score, verdict, metric views and root. -/
def shown (board : ScoreboardState) :
    Option PyFloat × PolicyVerdict × Dict String ScoreboardMetricView × Option String :=
  (board.trustScore, board.policyVerdict, board.metrics, board.merkleRootRef)

/-- What is shown, from the registries of the stream. -/
def shownOf (requiredMetrics : List String) (metrics : Except PyError Metrics)
    (risks : Except PyError (List RiskSignalEntry)) (root : Except PyError (Option Json))
    (moment : Except PyError (Option Instant)) :
    Except PyError (Option PyFloat × PolicyVerdict × Dict String ScoreboardMetricView × Option String) := do
  let metrics ← metrics
  let risks ← risks
  let root ← root
  let _ ← moment
  let verdict ← evaluatePolicy requiredMetrics metrics risks none .default
  let root ← rootField root
  return (verdict.trustScore, verdict.status, viewsOf metrics, root)

theorem project_shown (requiredMetrics : List String) (rebuiltAt : Instant) (log : List PyDict) :
    (project env decisionId requiredMetrics rebuiltAt log).map shown =
      shownOf requiredMetrics (reconstruct env decisionId log) (RiskMatrix.reconstruct env decisionId log)
        (merkleRootRef log) (merkleTimestamp env log) := by
  unfold project shownOf
  cases reconstruct env decisionId log with
  | error error => rfl
  | ok metrics =>
    cases RiskMatrix.reconstruct env decisionId log with
    | error error => rfl
    | ok risks =>
      cases merkleRootRef log with
      | error error => rfl
      | ok root =>
        cases merkleTimestamp env log with
        | error error => rfl
        | ok moment =>
          simp only [bind, Except.bind]
          cases evaluatePolicy requiredMetrics metrics risks none .default with
          | error error => rfl
          | ok verdict => cases rootField root <;> rfl

/-- Events that no registry and no root search reads. -/
theorem project_shown_append {log extra : List PyDict}
    (hreplay : reconstruct env decisionId (log ++ extra) = reconstruct env decisionId log)
    (hrisk : ∀ evt ∈ extra, evt.hasType "RiskSignal" = false)
    (hroot : ∀ evt ∈ extra, evt.hasType "MerkleRootPublished" = false) (requiredMetrics : List String)
    (rebuiltAt : Instant) :
    (project env decisionId requiredMetrics rebuiltAt (log ++ extra)).map shown =
      (project env decisionId requiredMetrics rebuiltAt log).map shown := by
  have hlast := lastRootEvent_append_rootless hroot log
  rw [project_shown, project_shown, hreplay, riskMatrix_append_calm hrisk log decisionId,
    merkleRootRef_congr hlast, merkleTimestamp_congr env hlast]

/-! ## A risk that is counted again -/

theorem riskWeight_pos (category : String) : 0 < riskWeight category := by
  unfold riskWeight
  split_ifs <;> norm_num

theorem clamp_eq (q : ℚ) : clamp (.fin q) = .fin (max 0 (min 1 q)) := by
  unfold clamp
  by_cases hone : q < 1
  · by_cases hzero : 0 < q
    · simp [PyFloat.pyMin, PyFloat.pyMax, PyFloat.lt, hone, hzero, min_eq_right hone.le, max_eq_right hzero.le]
    · simp [PyFloat.pyMin, PyFloat.pyMax, PyFloat.lt, hone, hzero, min_eq_right hone.le,
        max_eq_left (not_lt.mp hzero)]
  · simp [PyFloat.pyMin, PyFloat.pyMax, PyFloat.lt, hone, min_eq_left (not_lt.mp hone)]

/-- A penalty lowers a clamped score unless there is nothing left to lower. -/
theorem clamp_sub_eq_iff {base penalty extra : ℚ} (hbase : base ≤ 1) (hpenalty : 0 ≤ penalty)
    (hextra : 0 ≤ extra) :
    clamp ((PyFloat.fin base).sub (.fin (penalty + extra))) = clamp ((PyFloat.fin base).sub (.fin penalty)) ↔
      ¬ (extra ≠ 0 ∧ penalty < base) := by
  simp only [PyFloat.sub, PyFloat.neg, PyFloat.add, clamp_eq, PyFloat.fin.injEq]
  have hle : base + -penalty ≤ 1 := by linarith
  have hle' : base + -(penalty + extra) ≤ 1 := by linarith
  rw [min_eq_right hle, min_eq_right hle']
  constructor
  · rintro hsame ⟨hne, hlt⟩
    have hpos : 0 < extra := lt_of_le_of_ne hextra (Ne.symm hne)
    rw [max_eq_right (by linarith : 0 ≤ base + -penalty)] at hsame
    have hlower : max 0 (base + -(penalty + extra)) < base + -penalty := max_lt (by linarith) (by linarith)
    exact absurd hsame hlower.ne
  · intro hnot
    by_cases hzero : extra = 0
    · rw [hzero, add_zero]
    · have hover : base ≤ penalty := not_lt.mp fun hlt ↦ hnot ⟨hzero, hlt⟩
      rw [max_eq_left (by linarith : base + -(penalty + extra) ≤ 0),
        max_eq_left (by linarith : base + -penalty ≤ 0)]

section Risks

variable {risks : List RiskSignalEntry} {risk : RiskSignalEntry}

theorem riskPenalty_active_concat (hactive : risk.status = "ACTIVE") :
    riskPenalty (active (risks ++ [risk])) =
      riskPenalty (active risks) + risk.severity.value * riskWeight risk.category := by
  simp [riskPenalty, active, hactive]

theorem hasCritical_active_concat (hmem : risk ∈ risks) (hactive : risk.status = "ACTIVE") :
    hasCritical (active (risks ++ [risk])) = hasCritical (active risks) := by
  have hold : risk ∈ active risks := List.mem_filter.mpr ⟨hmem, decide_eq_true hactive⟩
  have hsplit : active (risks ++ [risk]) = active risks ++ [risk] := by simp [active, hactive]
  rw [hasCritical, hasCritical, hsplit, List.any_append]
  cases hcategory : decide (risk.category = "CRITICAL") with
  | false => simp [hcategory]
  | true =>
    have hany : (active risks).any (fun risk ↦ decide (risk.category = "CRITICAL")) = true :=
      List.any_eq_true.mpr ⟨risk, hold, hcategory⟩
    rw [hany, Bool.true_or]

theorem riskPenalty_nonneg (risks : List RiskSignalEntry) : 0 ≤ riskPenalty risks := by
  apply List.sum_nonneg
  intro term hterm
  obtain ⟨risk, -, rfl⟩ := List.mem_map.mp hterm
  exact mul_nonneg risk.severity.nonneg (riskWeight_pos _).le

/-- The committed metrics give the decision a score above its penalties. -/
def ScoreLeft (requiredMetrics : List String) (metrics : Metrics) (risks : List RiskSignalEntry) : Prop :=
  (missing requiredMetrics (committed requiredMetrics metrics)).isEmpty = true ∧ ∃ base : ℚ,
    baseScore none (committed requiredMetrics metrics) = .ok (.fin base) ∧ riskPenalty (active risks) < base

/-- Whether an evaluation raises does not depend on the risks. -/
theorem evaluatePolicy_outcomes (requiredMetrics : List String) (metrics : Metrics)
    (first second : List RiskSignalEntry) :
    (∃ error, evaluatePolicy requiredMetrics metrics first none .default = .error error ∧
      evaluatePolicy requiredMetrics metrics second none .default = .error error) ∨
    ∃ verdict other, evaluatePolicy requiredMetrics metrics first none .default = .ok verdict ∧
      evaluatePolicy requiredMetrics metrics second none .default = .ok other := by
  unfold evaluatePolicy
  by_cases hmissing : (missing requiredMetrics (committed requiredMetrics metrics)).isEmpty = true
  · simp only [hmissing, if_true]
    cases baseScore none (committed requiredMetrics metrics) with
    | error error => exact .inl ⟨error, rfl, rfl⟩
    | ok base => exact .inr ⟨_, _, rfl, rfl⟩
  · simp only [hmissing]
    exact .inr ⟨_, _, rfl, rfl⟩

/-- Counting a risk again changes the score exactly when there is a score left and the risk is severe. -/
theorem evaluatePolicy_again_iff (hmem : risk ∈ risks) (hactive : risk.status = "ACTIVE")
    (requiredMetrics : List String) (metrics : Metrics) :
    (evaluatePolicy requiredMetrics metrics (risks ++ [risk]) none .default).map
        (fun verdict ↦ (verdict.trustScore, verdict.status)) =
      (evaluatePolicy requiredMetrics metrics risks none .default).map
        (fun verdict ↦ (verdict.trustScore, verdict.status)) ↔
      ¬ (risk.severity.value ≠ 0 ∧ ScoreLeft requiredMetrics metrics risks) := by
  unfold evaluatePolicy
  by_cases hmissing : (missing requiredMetrics (committed requiredMetrics metrics)).isEmpty = true
  · simp only [hmissing, if_true]
    cases hbase : baseScore none (committed requiredMetrics metrics) with
    | error error =>
      refine iff_of_true rfl ?_
      rintro ⟨-, -, base, hok, -⟩
      rw [hbase] at hok
      cases hok
    | ok base =>
      obtain ⟨base, rfl, -, hone⟩ := baseLoop_fin ⟨0, rfl, le_rfl, zero_le_one⟩ hbase
      have hscore := clamp_sub_eq_iff hone (riskPenalty_nonneg (active risks))
        (mul_nonneg risk.severity.nonneg (riskWeight_pos risk.category).le)
      have hzero : risk.severity.value * riskWeight risk.category ≠ 0 ↔ risk.severity.value ≠ 0 := by
        rw [mul_ne_zero_iff, and_iff_left (riskWeight_pos risk.category).ne']
      have hleft : ScoreLeft requiredMetrics metrics risks ↔ riskPenalty (active risks) < base := by
        constructor
        · rintro ⟨-, other, hother, hlt⟩
          rw [hbase] at hother
          rwa [PyFloat.fin.inj (Except.ok.inj hother)]
        · exact fun hlt ↦ ⟨hmissing, base, hbase, hlt⟩
      rw [hleft, ← hzero, ← hscore]
      simp only [bind, Except.bind, pure, Except.pure, Except.map, Except.ok.injEq, Prod.mk.injEq,
        Option.some.injEq, riskPenalty_active_concat hactive, hasCritical_active_concat hmem hactive]
      constructor
      · exact fun h ↦ h.1
      · intro h
        exact ⟨h, by rw [h]⟩
  · simp only [hmissing]
    refine iff_of_true rfl ?_
    rintro ⟨-, hempty, -⟩
    exact hmissing hempty

end Risks

/-! ## Risk signals of the stream -/

theorem entryOf_ok {evt : PyDict} {risk : RiskSignalEntry} (h : RiskMatrix.entryOf env decisionId evt = .ok risk) :
    (∃ name, evt.get? "metric_name" = some (.str name)) ∧ risk.status = "ACTIVE" ∧
      severityField? env ((evt.get? "severity").getD (.float (.fin 0))) = some risk.severity := by
  simp only [RiskMatrix.entryOf, bind_eq_ok] at h
  obtain ⟨metricName, hname, hbuild⟩ := h
  unfold RiskSignalEntry.build at hbuild
  split at hbuild
  · rename_i text category severity flags htext hcategory hseverity hflags
    obtain rfl := Except.ok.inj hbuild
    rw [Json.asStr?_eq_some] at htext
    exact ⟨⟨text, htext ▸ item_ok hname⟩, rfl, hseverity⟩
  · cases hbuild

theorem mem_riskMatrix {log : List PyDict} {risks : List RiskSignalEntry}
    (h : RiskMatrix.reconstruct env decisionId log = .ok risks) {evt : PyDict} (hmem : evt ∈ log)
    (htype : evt.hasType "RiskSignal" = true) :
    ∃ risk ∈ risks, RiskMatrix.entryOf env decisionId evt = .ok risk := by
  induction log generalizing risks with
  | nil => cases hmem
  | cons first rest ih =>
    rw [RiskMatrix.reconstruct] at h
    split at h
    · obtain ⟨risk, hrisk, hothers⟩ := bind_eq_ok.mp h
      obtain ⟨others, hrest, hrisks⟩ := bind_eq_ok.mp hothers
      obtain rfl := Except.ok.inj hrisks
      rcases List.mem_cons.mp hmem with rfl | hmem
      · exact ⟨risk, List.mem_cons_self, hrisk⟩
      · obtain ⟨found, hfound, hentry⟩ := ih hrest hmem
        exact ⟨found, List.mem_cons_of_mem risk hfound, hentry⟩
    · rename_i hother
      rcases List.mem_cons.mp hmem with rfl | hmem
      · exact absurd htype hother
      · exact ih h hmem

theorem riskMatrix_concat (log : List PyDict) {evt : PyDict} (htype : evt.hasType "RiskSignal" = true) :
    RiskMatrix.reconstruct env decisionId (log ++ [evt]) = (do
      let risks ← RiskMatrix.reconstruct env decisionId log
      let risk ← RiskMatrix.entryOf env decisionId evt
      return risks ++ [risk]) := by
  induction log with
  | nil =>
    simp only [List.nil_append, RiskMatrix.reconstruct, htype, if_true]
    cases RiskMatrix.entryOf env decisionId evt <;> rfl
  | cons first rest ih =>
    rw [List.cons_append, RiskMatrix.reconstruct, RiskMatrix.reconstruct, ih]
    split
    · cases RiskMatrix.entryOf env decisionId first with
      | error error => rfl
      | ok risk =>
        cases RiskMatrix.reconstruct env decisionId rest with
        | error error => rfl
        | ok risks => cases RiskMatrix.entryOf env decisionId evt <;> rfl
    · rfl

/-- The rebuild of the stream succeeds, with a score above the penalties of the decision. -/
def Exposed (env : Env) (decisionId : String) (requiredMetrics : List String) (log : List PyDict) : Prop :=
  ∃ metrics risks root moment ref, reconstruct env decisionId log = .ok metrics ∧
    RiskMatrix.reconstruct env decisionId log = .ok risks ∧ merkleRootRef log = .ok root ∧
    merkleTimestamp env log = .ok moment ∧ rootField root = .ok ref ∧ ScoreLeft requiredMetrics metrics risks

/-- With a risk counted again the same is shown, unless the risk is severe and a score is left. -/
theorem shownOf_again_iff {risks : List RiskSignalEntry} {risk : RiskSignalEntry} (hmem : risk ∈ risks)
    (hactive : risk.status = "ACTIVE") (requiredMetrics : List String) (metrics : Metrics) (root : Option Json)
    (moment : Option Instant) :
    shownOf requiredMetrics (.ok metrics) (.ok (risks ++ [risk])) (.ok root) (.ok moment) =
        shownOf requiredMetrics (.ok metrics) (.ok risks) (.ok root) (.ok moment) ↔
      ¬ (risk.severity.value ≠ 0 ∧ (∃ ref, rootField root = .ok ref) ∧ ScoreLeft requiredMetrics metrics risks) := by
  have hagain := evaluatePolicy_again_iff hmem hactive requiredMetrics metrics
  simp only [shownOf, bind, Except.bind, pure, Except.pure]
  rcases evaluatePolicy_outcomes requiredMetrics metrics (risks ++ [risk]) risks with
    ⟨error, hafter, hbefore⟩ | ⟨after, before, hafter, hbefore⟩
  · -- Both evaluations raise, so no score is left.
    rw [hafter, hbefore] at hagain
    rw [hafter, hbefore]
    refine iff_of_true rfl ?_
    rintro ⟨hne, -, hleft⟩
    exact hagain.mp rfl ⟨hne, hleft⟩
  · rw [hafter, hbefore] at hagain
    rw [hafter, hbefore]
    cases rootField root with
    | error error =>
      refine iff_of_true rfl ?_
      rintro ⟨-, ⟨ref, hok⟩, -⟩
      cases hok
    | ok ref =>
      simp only [Except.map, Except.ok.injEq, Prod.mk.injEq] at hagain
      simp only [Except.ok.injEq, Prod.mk.injEq, and_true, exists_eq', true_and]
      exact hagain

/-- A signal that stands in the stream already, at its end once more. -/
theorem project_shown_again_iff {log : List PyDict} {first second : PyDict} (hmem : first ∈ log)
    (hfirst : first.hasType "RiskSignal" = true) (hsecond : second.hasType "RiskSignal" = true)
    (hsame : ∀ key, key ≠ "event_id" → first.get? key = second.get? key) (requiredMetrics : List String)
    (rebuiltAt : Instant) :
    (project env decisionId requiredMetrics rebuiltAt (log ++ [second])).map shown =
        (project env decisionId requiredMetrics rebuiltAt log).map shown ↔
      ¬ ((∃ severity, severityField? env ((second.get? "severity").getD (.float (.fin 0))) = some severity ∧
        severity.value ≠ 0) ∧ Exposed env decisionId requiredMetrics log) := by
  have hreplay : reconstruct env decisionId (log ++ [second]) = reconstruct env decisionId log := by
    apply replay_append_skipped
    intro evt hevt
    rw [List.mem_singleton.mp hevt]
    exact ⟨hasType_of_hasType hsecond (by decide), hasType_of_hasType hsecond (by decide),
      hasType_of_hasType hsecond (by decide)⟩
  have hroots : ∀ evt ∈ [second], evt.hasType "MerkleRootPublished" = false := by
    intro evt hevt
    rw [List.mem_singleton.mp hevt]
    exact hasType_of_hasType hsecond (by decide)
  have hlast := lastRootEvent_append_rootless hroots log
  have hentry : RiskMatrix.entryOf env decisionId second = RiskMatrix.entryOf env decisionId first := by
    simp only [RiskMatrix.entryOf, item, hsame "metric_name" (by decide), hsame "risk_level" (by decide),
      hsame "severity" (by decide), hsame "contradiction_flags" (by decide)]
  rw [project_shown, project_shown, hreplay, merkleRootRef_congr hlast, merkleTimestamp_congr env hlast,
    riskMatrix_concat log hsecond, hentry, ← hsame "severity" (by decide)]
  unfold shownOf Exposed
  cases reconstruct env decisionId log with
  | error error => exact iff_of_true rfl (by simp)
  | ok metrics =>
    cases hrisks : RiskMatrix.reconstruct env decisionId log with
    | error error => exact iff_of_true rfl (by simp)
    | ok risks =>
      obtain ⟨risk, hrisk, hfound⟩ := mem_riskMatrix hrisks hmem hfirst
      obtain ⟨-, hactive, hseverity⟩ := entryOf_ok hfound
      rw [hfound, hseverity]
      cases merkleRootRef log with
      | error error => exact iff_of_true rfl (by simp)
      | ok root =>
        cases merkleTimestamp env log with
        | error error => exact iff_of_true rfl (by simp)
        | ok moment =>
          refine (shownOf_again_iff hrisk hactive requiredMetrics metrics root moment).trans (not_congr ?_)
          constructor
          · rintro ⟨hne, ⟨ref, hfield⟩, hleft⟩
            exact ⟨⟨_, rfl, hne⟩, metrics, risks, root, moment, ref, rfl, rfl, rfl, rfl, hfield, hleft⟩
          · rintro ⟨⟨severity, hsome, hne⟩, _, _, _, _, ref, hok, hokRisks, hokRoot, -, hfield, hleft⟩
            obtain rfl := Option.some.inj hsome
            obtain rfl := Except.ok.inj hok
            obtain rfl := Except.ok.inj hokRisks
            obtain rfl := Except.ok.inj hokRoot
            exact ⟨hne, ⟨ref, hfield⟩, hleft⟩

/-! ## A second delivery -/

/-- Behind the given events, the entry changes no replay and is neither a risk nor a root. -/
structure Harmless (env : Env) (events : List Entry) (entry : Entry) : Prop where
  replay : ∀ decisionId log, (∀ old ∈ events, old.decisionId = entry.decisionId → old.record ∈ log) →
    reconstruct env decisionId (log ++ [entry.record]) = reconstruct env decisionId log
  risk : entry.record.hasType "RiskSignal" = false
  root : entry.record.hasType "MerkleRootPublished" = false

theorem Entry.Honest.harmless {entry : Entry} (h : entry.Honest) (events : List Entry)
    (htype : entry.eventType ∉ readTypes) : Harmless env events entry := by
  simp only [readTypes, List.mem_cons, List.not_mem_nil, or_false, not_or] at htype
  obtain ⟨hcommit, hreject, hsupersede, hrisk, hroot⟩ := htype
  refine ⟨?_, ?_, ?_⟩
  · intro decisionId log _
    apply replay_append_skipped
    intro evt hevt
    rw [List.mem_singleton.mp hevt, h.hasType, h.hasType, h.hasType]
    exact ⟨decide_eq_false hcommit, decide_eq_false hreject, decide_eq_false hsupersede⟩
  · rw [h.hasType]
    exact decide_eq_false hrisk
  · rw [h.hasType]
    exact decide_eq_false hroot

/-- A rejection that has been stored before, at another moment. -/
theorem rejected_harmless {events : List Entry} {decision metric key : Json} {firstId : String} {firstNow : Instant}
    (hmem : ⟨firstId, decision, "MetricRejected", rejectedPayload env decision metric key firstNow, none⟩ ∈ events)
    (eventId : String) (now : Instant) :
    Harmless env events ⟨eventId, decision, "MetricRejected", rejectedPayload env decision metric key now, none⟩ := by
  refine ⟨?_, ?_, ?_⟩
  · intro decisionId log hlog
    apply replay_append_rejected (hlog _ hmem rfl)
    · rw [(rejected_honest firstId decision metric key firstNow).hasType]
      rfl
    · simp [Entry.record_get?, rejectedPayload]
      rfl
    · rw [(rejected_honest eventId decision metric key now).hasType]
      rfl
    · simp [Entry.record_get?, rejectedPayload]
  · rw [(rejected_honest eventId decision metric key now).hasType]
    rfl
  · rw [(rejected_honest eventId decision metric key now).hasType]
    rfl

section Appended

variable {state next : AppState} {stored : List Entry}

/-- Harmless entries change nothing a rebuild shows. -/
theorem rebuild_shown_of_harmless (hevents : next.auditTrail.events = state.auditTrail.events ++ stored)
    (hharmless : ∀ entry ∈ stored, Harmless env state.auditTrail.events entry) (decisionId : String)
    (requiredMetrics : List String) (rebuiltAt : Instant) :
    (rebuild env next rebuiltAt decisionId requiredMetrics).2.map shown =
      (rebuild env state rebuiltAt decisionId requiredMetrics).2.map shown := by
  have hextra : ∀ evt ∈ (stored.filter fun entry ↦ entry.decisionId.isStr decisionId).map Entry.record,
      ∃ entry ∈ stored, evt = entry.record := by
    intro evt hevt
    obtain ⟨entry, hentry, rfl⟩ := List.mem_map.mp hevt
    exact ⟨entry, (List.mem_filter.mp hentry).1, rfl⟩
  rw [rebuild_result, rebuild_result, MemoryAuditTrail.readRange_append hevents]
  apply project_shown_append
  · have hold : ∀ old ∈ state.auditTrail.events, old.decisionId = .str decisionId →
        old.record ∈ state.auditTrail.readRange decisionId 0 :=
      fun old hold hdecision ↦ List.mem_map.mpr ⟨old, MemoryAuditTrail.mem_entriesOf.mpr ⟨hold, hdecision⟩, rfl⟩
    generalize state.auditTrail.readRange decisionId 0 = log at hold
    clear hevents hextra
    -- One entry after the other; the stream only grows, so earlier events stay in it.
    induction stored generalizing log with
    | nil => simp
    | cons entry rest ih =>
      have hrest := fun other hother ↦ hharmless other (List.mem_cons_of_mem entry hother)
      by_cases hdecision : entry.decisionId = .str decisionId
      · have hone := (hharmless entry List.mem_cons_self).replay decisionId log
          fun old hmem heq ↦ hold old hmem (heq.trans hdecision)
        have hmore := ih hrest (log ++ [entry.record])
          fun old hmem heq ↦ List.mem_append_left _ (hold old hmem heq)
        rw [List.filter_cons, if_pos (by simp [hdecision]), List.map_cons, List.append_cons, hmore, hone]
      · rw [List.filter_cons, if_neg (by simp [hdecision])]
        exact ih hrest log hold
  · intro evt hevt
    obtain ⟨entry, hentry, rfl⟩ := hextra evt hevt
    exact (hharmless entry hentry).risk
  · intro evt hevt
    obtain ⟨entry, hentry, rfl⟩ := hextra evt hevt
    exact (hharmless entry hentry).root

end Appended

section Again

variable {state : AppState} {payload : PyDict}

/-- The gate of a reconciled decision that was handled before: nothing is committed, and a rejection
is one more of its kind. -/
theorem reconciledGate_again {base : AppState} (now : Instant)
    (hown : (Call.inbound .reconciledDecision payload).Honest)
    (hstaging : ∃ found, stagingKey payload = .ok found)
    (hdelivered : Delivered env base .reconciledDecision payload)
    (hknown : ∀ key ∈ base.auditTrail.events.filterMap (·.idempotencyKey),
      state.auditTrail.idempotencyIndex.get? key ≠ none) :
    ∃ stored, (reconciledGate env state now payload).1.auditTrail.events = state.auditTrail.events ++ stored ∧
      ∀ entry ∈ stored, Harmless env base.auditTrail.events entry := by
  have hgate : Resumed env now state ⟨.inbound .reconciledDecision payload, .reconciledGate payload⟩
      (reconciledGate env state now payload).1 (.ofProgress (reconciledGate env state now payload).2) :=
    .gate rfl rfl rfl
  generalize (reconciledGate env state now payload).1 = next at hgate
  generalize Move.ofProgress (reconciledGate env state now payload).2 = move at hgate
  cases hgate with
  | @quiet _ _ stored happends horigin _ _ _ =>
    refine ⟨stored.toList, happends.events, ?_⟩
    intro entry hentry
    have hfrom := horigin entry (Option.mem_toList.mp hentry)
    have honest : entry.Honest := Call.Stores.honest (.inl hfrom) hown
    cases hfrom with
    | @inbound kind found eventId hcall =>
      obtain ⟨rfl, rfl⟩ := Call.inbound.inj hcall
      exact honest.harmless _ (Inbound.eventType_not_read (by decide : Inbound.reconciledDecision ≠ .riskSignal))
    | rejected hlacks =>
      obtain ⟨eventId, first, hmem⟩ := hdelivered.rejected rfl hstaging _ _ _ hlacks
      exact rejected_harmless hmem _ _
    | superseded hcall => cases hcall
    | published hcloser _ => cases hcloser
  | @committed _ commit hcommits _ _ happends =>
    have hunseen := happends.unseen _ rfl commit.idempotencyKey rfl
    exact absurd hunseen (hknown _ (hdelivered.committed rfl commit hcommits))
  | added hpc => cases hpc
  | stored hpc => cases hpc
  | closed hpc => cases hpc
  | signed hpc => cases hpc
  | stamped hpc => cases hpc
  | anchored hpc => cases hpc

theorem finish_auditTrail (outcome : AppState × Except PyError Progress) :
    (discard (finish outcome)).1.auditTrail = outcome.1.auditTrail := by
  obtain ⟨state, result⟩ := outcome
  cases result with
  | error error => rfl
  | ok progress => cases progress <;> rfl

theorem onReconciledDecision_again (now : Instant) (htrail : TrailOk env state)
    (hown : (Call.inbound .reconciledDecision payload).Honest)
    (hdelivered : Delivered env state .reconciledDecision payload) :
    ∃ stored, (onReconciledDecision env state now payload).1.auditTrail.events = state.auditTrail.events ++ stored ∧
      ∀ entry ∈ stored, Harmless env state.auditTrail.events entry := by
  cases hkey : stagingKey payload with
  | error error =>
    refine ⟨[], ?_, by simp⟩
    simp [onReconciledDecision, reconciledEntry, stageAndAppend, hkey]
  | ok found =>
    obtain ⟨decision, key⟩ := found
    obtain ⟨staged, hentry, happends⟩ := stageAndAppend_ok env state hkey "ReconciledDecision" fun stage ↦
      ((stage.getD .empty).update payload).set "status" (.str MetricStatus.reconciled.value)
    have hknown : ∀ key ∈ state.auditTrail.events.filterMap (·.idempotencyKey),
        staged.auditTrail.idempotencyIndex.get? key ≠ none := by
      intro key hkey
      rw [happends.index]
      simpa using mt (htrail.indexed key).mp (not_not.mpr hkey)
    obtain ⟨stored, hstored, hharmless⟩ := reconciledGate_again now hown ⟨_, hkey⟩ hdelivered hknown
    have hcall : (onReconciledDecision env state now payload).1.auditTrail =
        (reconciledGate env staged now payload).1.auditTrail := by
      rw [onReconciledDecision_of_entry hentry]
      exact finish_auditTrail _
    have honest : Entry.Honest ⟨env.uuid4 state.drawn, decision, "ReconciledDecision", payload, none⟩ := hown
    refine ⟨⟨env.uuid4 state.drawn, decision, "ReconciledDecision", payload, none⟩ :: stored, ?_, ?_⟩
    · rw [hcall, hstored, happends.events]
      simp
    · intro entry hmem
      rcases List.mem_cons.mp hmem with rfl | hrest
      · exact honest.harmless _ (Inbound.eventType_not_read (by decide : Inbound.reconciledDecision ≠ .riskSignal))
      · exact hharmless entry hrest

theorem onInbound_again {kind : Inbound} (now : Instant) (hrisk : kind ≠ .riskSignal) (htrail : TrailOk env state)
    (hown : (Call.inbound kind payload).Honest) (hdelivered : Delivered env state kind payload) :
    ∃ stored, (onInbound env state now kind payload).1.auditTrail.events = state.auditTrail.events ++ stored ∧
      ∀ entry ∈ stored, Harmless env state.auditTrail.events entry := by
  by_cases hkind : kind = .reconciledDecision
  · subst hkind
    exact onReconciledDecision_again now htrail hown hdelivered
  · obtain ⟨stored, happends, hstored⟩ := onInbound_cases env state now payload hkind
    refine ⟨stored.toList, happends.events, ?_⟩
    intro entry hentry
    rw [hstored entry (Option.mem_toList.mp hentry)]
    have honest : Entry.Honest ⟨env.uuid4 state.drawn, (payload.get? "decision_id").getD (.str "runtime"),
        kind.eventType, payload, none⟩ := hown
    exact honest.harmless _ (Inbound.eventType_not_read hrisk)

end Again

/-- The payload is a signal for the decision whose severity is not zero. -/
def Penalises (env : Env) (payload : PyDict) (decisionId : String) : Prop :=
  payload.get? "decision_id" = some (.str decisionId) ∧ (∃ name, payload.get? "metric_name" = some (.str name)) ∧
    ∃ severity, severityField? env ((payload.get? "severity").getD (.float (.fin 0))) = some severity ∧
      severity.value ≠ 0

/-- A risk signal that was handled before. -/
theorem onRiskSignal_again_iff {state : AppState} {payload : PyDict}
    (hown : (Call.inbound .riskSignal payload).Honest) (hdelivered : Delivered env state .riskSignal payload)
    (decisionId : String) (requiredMetrics : List String) (rebuiltAt : Instant) :
    (rebuild env (onRiskSignal env state payload).1 rebuiltAt decisionId requiredMetrics).2.map shown =
        (rebuild env state rebuiltAt decisionId requiredMetrics).2.map shown ↔
      ¬ (Penalises env payload decisionId ∧
        Exposed env decisionId requiredMetrics (state.auditTrail.readRange decisionId 0)) := by
  rw [rebuild_result, rebuild_result]
  cases hkey : stagingKey payload with
  | error error =>
    refine iff_of_true ?_ ?_
    · simp [onRiskSignal, stageAndAppend, hkey]
    · rintro ⟨⟨hdecision, ⟨name, hname⟩, -⟩, -⟩
      rw [stagingKey_of_texts hdecision hname] at hkey
      cases hkey
  | ok found =>
    obtain ⟨decision, key⟩ := found
    obtain ⟨next, hcall, happends⟩ := stageAndAppend_ok env state hkey "RiskSignal" fun stage ↦
      ((stage.getD .empty).set "status" (.str MetricStatus.critiqued.value)).set "risk_level"
        ((payload.get? "risk_level").getD .null)
    rw [onRiskSignal, hcall, MemoryAuditTrail.readRange_append happends.events]
    by_cases hdecision : decision = .str decisionId
    · subst hdecision
      obtain ⟨eventId, hmem⟩ := hdelivered.risk rfl _ _ hkey
      have honest (eventId : String) : Entry.Honest ⟨eventId, .str decisionId, "RiskSignal", payload, none⟩ := hown
      have htype (eventId : String) :
          (Entry.record ⟨eventId, .str decisionId, "RiskSignal", payload, none⟩).hasType "RiskSignal" = true := by
        rw [(honest eventId).hasType]
        rfl
      have hlog : Entry.record ⟨eventId, .str decisionId, "RiskSignal", payload, none⟩ ∈
          state.auditTrail.readRange decisionId 0 :=
        List.mem_map.mpr ⟨_, MemoryAuditTrail.mem_entriesOf.mpr ⟨hmem, rfl⟩, rfl⟩
      simp only [Option.toList_some, List.filter_cons, Json.isStr, decide_true, if_true, List.filter_nil,
        List.map_cons, List.map_nil]
      rw [project_shown_again_iff hlog (htype eventId) (htype (env.uuid4 state.drawn))
        fun key hne ↦ Entry.record_get?_of_ne eventId _ _ _ _ _ hne,
        Entry.record_get?_own _ (by decide : "severity" ∉ _), not_iff_not]
      constructor
      · rintro ⟨hseverity, hexposed⟩
        refine ⟨⟨(stagingKey_ok hkey).1, ?_, hseverity⟩, hexposed⟩
        -- The signal was read, so it names its metric by a text.
        obtain ⟨-, risks, -, -, -, -, hrisks, -⟩ := hexposed
        obtain ⟨risk, -, hrisk⟩ := mem_riskMatrix hrisks hlog (htype eventId)
        obtain ⟨name, hname⟩ := (entryOf_ok hrisk).1
        exact ⟨name, (Entry.record_get?_own _ (by decide)).symm.trans hname⟩
      · rintro ⟨⟨-, -, hseverity⟩, hexposed⟩
        exact ⟨hseverity, hexposed⟩
    · refine iff_of_true ?_ ?_
      · simp [hdecision]
      · rintro ⟨⟨hother, -⟩, -⟩
        rw [(stagingKey_ok hkey).1] at hother
        exact hdecision (Option.some.inj hother)

section Runs

variable {maxLeaves : ℤ} {maxSeconds : ℚ} {trace : List (System × Label)} {last : System}

def sampleDecision : PyDict :=
  ⟨[("decision_id", .str "d1"), ("metric_name", .str "roi"), ("final_value", .int 1),
    ("resolution_method", .str "vote"), ("idempotency_key", .str "k1"), ("proposed_by", .str "agent"),
    ("evidence_refs", .ofStrs ["e1"]), ("occurred_at", .str "1970-01-01T00:00:00.000+00:00")]⟩

def sampleSignal : PyDict :=
  ⟨[("decision_id", .str "d1"), ("metric_name", .str "roi"), ("risk_level", .str "CRITICAL"),
    ("severity", .float (.fin (1 / 2))), ("occurred_at", .str "1970-01-01T00:00:00.000+00:00")]⟩

/-- A commit, and a risk signal about it. -/
def commitAndSignal : List Label :=
  uninterrupted (.updateMetric sampleCommand) 2 ++ uninterrupted (.inbound .riskSignal sampleSignal) 1

end Runs

end DecisionCore
