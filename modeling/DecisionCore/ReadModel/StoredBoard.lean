import DecisionCore.Transport.Scoreboard
import DecisionCore.ReadModel.ServedProofs

/-!
# The stored scoreboard

Every query that rebuilds a decision overwrites its stored row, with the metrics that the query itself
requires.  For a decision in the configuration these are the configured ones.  For every other decision
the scoreboard endpoints require nothing and the proof route requires the metric it is asked for, so
the row tells which query was the last one.
-/

namespace DecisionCore

open MetricsRegistry ScoreboardProjector PolicyEvaluator

variable {env : Env} {decisionId : String} {log : List PyDict}

/-- The stored row of a decision. -/
def storedRow (state : AppState) (decisionId : String) : Option StoreRow :=
  state.projectionStore.get? (scoreboardKey decisionId)

/-- Both rows are scoreboards, equal except for `rebuilt_at`. -/
def SameRow (first second : Option StoreRow) : Prop :=
  ∃ board other, first = some (.scoreboard board) ∧ second = some (.scoreboard other) ∧
    { board with rebuiltAt := other.rebuiltAt } = other

theorem not_sameRow {board other : ScoreboardState} (h : board.trustScore ≠ other.trustScore) :
    ¬ SameRow (some (.scoreboard board)) (some (.scoreboard other)) := by
  rintro ⟨first, second, hfirst, hsecond, heq⟩
  obtain rfl := StoreRow.scoreboard.inj (Option.some.inj hfirst)
  obtain rfl := StoreRow.scoreboard.inj (Option.some.inj hsecond)
  apply h
  rw [← heq]

/-! ## Rebuilds -/

/-- The registries and the last root can be read from the stream. -/
def Reconstructs (env : Env) (decisionId : String) (log : List PyDict) : Prop :=
  ∃ metrics risks found root moment, reconstruct env decisionId log = .ok metrics ∧
    RiskMatrix.reconstruct env decisionId log = .ok risks ∧ merkleRootRef log = .ok found ∧
    merkleTimestamp env log = .ok moment ∧ rootField found = .ok root

/-- The moment of a rebuild shows in `rebuilt_at` only. -/
theorem project_later {requiredMetrics : List String} {now : Instant} {board : ScoreboardState}
    (h : project env decisionId requiredMetrics now log = .ok board) (later : Instant) :
    project env decisionId requiredMetrics later log = .ok { board with rebuiltAt := later } := by
  simp only [project, bind_eq_ok] at h ⊢
  obtain ⟨metrics, hmetrics, risks, hrisks, found, hfound, moment, hmoment, verdict, hverdict, root, hroot, hboard⟩ := h
  obtain rfl := Except.ok.inj hboard
  exact ⟨metrics, hmetrics, risks, hrisks, found, hfound, moment, hmoment, verdict, hverdict, root, hroot, rfl⟩

theorem Reconstructs.of_project {requiredMetrics : List String} {now : Instant} {board : ScoreboardState}
    (h : project env decisionId requiredMetrics now log = .ok board) : Reconstructs env decisionId log := by
  simp only [project, bind_eq_ok] at h
  obtain ⟨metrics, hmetrics, risks, hrisks, found, hfound, moment, hmoment, -, -, root, hroot, -⟩ := h
  exact ⟨metrics, risks, found, root, moment, hmetrics, hrisks, hfound, hmoment, hroot⟩

/-- A rebuild that requires nothing has a score. -/
theorem evaluatePolicy_nil (metrics : Metrics) (risks : List RiskSignalEntry) :
    ∃ result, evaluatePolicy [] metrics risks none .default = .ok result ∧ result.trustScore ≠ none := by
  have hcommitted : committed [] metrics = [] := by simp [committed]
  simp only [evaluatePolicy, hcommitted]
  exact ⟨_, rfl, Option.some_ne_none _⟩

/-- A rebuild that requires a metric without a record has none. -/
theorem evaluatePolicy_unrecorded {metrics : Metrics} {name : String} (h : name ∉ metrics.keys)
    (risks : List RiskSignalEntry) :
    ∃ result, evaluatePolicy [name] metrics risks none .default = .ok result ∧ result.trustScore = none := by
  have hcommitted : committed [name] metrics = [] := by
    apply List.filter_eq_nil_iff.mpr
    intro binding hbinding
    have hne : binding.1 ≠ name := by
      rintro rfl
      exact h (List.mem_map_of_mem hbinding)
    simp [hne]
  simp only [evaluatePolicy, hcommitted]
  exact ⟨_, rfl, rfl⟩

/-- The board of a stream that can be read, from the verdict on it. -/
theorem Reconstructs.project (h : Reconstructs env decisionId log) :
    ∃ metrics risks, ∀ requiredMetrics now result,
      evaluatePolicy requiredMetrics metrics risks none .default = .ok result →
        ∃ board, ScoreboardProjector.project env decisionId requiredMetrics now log = .ok board ∧
          board.trustScore = result.trustScore := by
  obtain ⟨metrics, risks, found, root, moment, hmetrics, hrisks, hfound, hmoment, hroot⟩ := h
  refine ⟨metrics, risks, ?_⟩
  intro requiredMetrics now result hresult
  refine ⟨⟨decisionId, result.trustScore, result.status, viewsOf metrics, root, moment, now, log.length⟩, ?_, rfl⟩
  simp only [ScoreboardProjector.project, bind_eq_ok]
  exact ⟨metrics, hmetrics, risks, hrisks, found, hfound, moment, hmoment, result, hresult, root, hroot, rfl⟩

/-- Requiring nothing and requiring some metric leave different boards. -/
theorem Reconstructs.boards_differ (h : Reconstructs env decisionId log) (now : Instant) :
    ∃ board name other, ScoreboardProjector.project env decisionId [] now log = .ok board ∧
      ScoreboardProjector.project env decisionId [name] now log = .ok other ∧
      board.trustScore ≠ other.trustScore := by
  obtain ⟨metrics, risks, hproject⟩ := h.project
  obtain ⟨name, hname⟩ := Infinite.exists_notMem_finset metrics.keys.toFinset
  rw [List.mem_toFinset] at hname
  obtain ⟨scored, hscored, hsome⟩ := evaluatePolicy_nil metrics risks
  obtain ⟨missing, hmissing, hnone⟩ := evaluatePolicy_unrecorded hname risks
  obtain ⟨board, hboard, hboardScore⟩ := hproject [] now scored hscored
  obtain ⟨other, hother, hotherScore⟩ := hproject [name] now missing hmissing
  refine ⟨board, name, other, hboard, hother, ?_⟩
  rw [hboardScore, hotherScore, hnone]
  exact hsome

/-! ## Rows written by queries -/

theorem scoreboardKey_inj {first second : String} : scoreboardKey first = scoreboardKey second ↔ first = second :=
  String.append_right_inj _

/-- The row that a rebuild leaves: the new board, or what was there before. -/
theorem storedRow_rebuild (env : Env) (state : AppState) (now : Instant) (rebuiltId : String)
    (requiredMetrics : List String) (decisionId : String) :
    storedRow (rebuild env state now rebuiltId requiredMetrics).1 decisionId =
      match project env rebuiltId requiredMetrics now (state.auditTrail.readRange rebuiltId 0) with
      | .ok board => if rebuiltId = decisionId then some (.scoreboard board) else storedRow state decisionId
      | .error _ => storedRow state decisionId := by
  unfold rebuild
  split
  · rename_i hproject
    simp only [hproject]
  · rename_i hproject
    simp only [hproject, storedRow, Dict.get?_set, scoreboardKey_inj]

namespace Query

variable {requiredMetricsByDecision : Dict String (List String)} {state : AppState} {now : Instant}
  {query : Query} {queries : List (Instant × Query)}

/-- The query writes the row of the decision: it rebuilds the decision, and the rebuild does not raise. -/
def Writes (env : Env) (requiredMetricsByDecision : Dict String (List String)) (decisionId : String)
    (state : AppState) (now : Instant) (query : Query) : Prop :=
  ∃ required board, query.rebuilt requiredMetricsByDecision = some (decisionId, required) ∧
    (rebuild env state now decisionId required).2 = .ok board

/-- One of the queries, answered one after the other, writes the row of the decision. -/
def WritesRow (env : Env) (requiredMetricsByDecision : Dict String (List String)) (decisionId : String) :
    AppState → List (Instant × Query) → Prop
  | _, [] => False
  | state, (now, query) :: rest => Writes env requiredMetricsByDecision decisionId state now query ∨
    WritesRow env requiredMetricsByDecision decisionId (answered env requiredMetricsByDecision state now query) rest

theorem answered_auditTrail (env : Env) (requiredMetricsByDecision : Dict String (List String)) (state : AppState)
    (now : Instant) (query : Query) :
    (answered env requiredMetricsByDecision state now query).auditTrail = state.auditTrail := by
  rw [answered_eq]
  split
  · rfl
  · exact (rebuild_state env state now _ _).1

/-- A query that does not write the row leaves it. -/
theorem storedRow_answered_of_not
    (h : ¬ Writes env requiredMetricsByDecision decisionId state now query) :
    storedRow (answered env requiredMetricsByDecision state now query) decisionId = storedRow state decisionId := by
  rw [answered_eq]
  split
  · rfl
  · rename_i rebuiltId required hrebuilt
    rw [storedRow_rebuild]
    split
    · rename_i board hboard
      by_cases heq : rebuiltId = decisionId
      · subst heq
        exact absurd ⟨required, board, hrebuilt, (rebuild_result state now rebuiltId required).trans hboard⟩ h
      · rw [if_neg heq]
    · rfl

/-- A query whose rebuild of the decision succeeds leaves its board. -/
theorem storedRow_answered {required : List String} {board : ScoreboardState}
    (hrebuilt : query.rebuilt requiredMetricsByDecision = some (decisionId, required))
    (hboard : project env decisionId required now (state.auditTrail.readRange decisionId 0) = .ok board) :
    Writes env requiredMetricsByDecision decisionId state now query ∧
      storedRow (answered env requiredMetricsByDecision state now query) decisionId = some (.scoreboard board) := by
  refine ⟨⟨required, board, hrebuilt, (rebuild_result state now decisionId required).trans hboard⟩, ?_⟩
  simp only [answered_eq, hrebuilt]
  rw [storedRow_rebuild, hboard]
  exact if_pos rfl

theorem storedRow_answeredAll_of_not (h : ¬ WritesRow env requiredMetricsByDecision decisionId state queries) :
    storedRow (answeredAll env requiredMetricsByDecision state queries) decisionId = storedRow state decisionId := by
  induction queries generalizing state with
  | nil => rfl
  | cons first rest ih =>
    obtain ⟨now, query⟩ := first
    obtain ⟨hfirst, hrest⟩ := not_or.mp h
    calc storedRow (answeredAll env requiredMetricsByDecision state ((now, query) :: rest)) decisionId
        = storedRow (answered env requiredMetricsByDecision state now query) decisionId := ih hrest
      _ = storedRow state decisionId := storedRow_answered_of_not hfirst

/-- The row after queries that write it is the board of one of their rebuilds of the log. -/
theorem storedRow_answeredAll (h : WritesRow env requiredMetricsByDecision decisionId state queries) :
    ∃ (now : Instant) (query : Query) (required : List String) (board : ScoreboardState),
      query.rebuilt requiredMetricsByDecision = some (decisionId, required) ∧
      project env decisionId required now (state.auditTrail.readRange decisionId 0) = .ok board ∧
      storedRow (answeredAll env requiredMetricsByDecision state queries) decisionId = some (.scoreboard board) := by
  induction queries generalizing state with
  | nil => exact h.elim
  | cons first rest ih =>
    obtain ⟨now, query⟩ := first
    have htrail := answered_auditTrail env requiredMetricsByDecision state now query
    by_cases hrest : WritesRow env requiredMetricsByDecision decisionId
        (answered env requiredMetricsByDecision state now query) rest
    · have hlater := ih hrest
      rw [htrail] at hlater
      exact hlater
    · -- The last write is this one: the rest leaves the row.
      obtain ⟨required, board, hrebuilt, hresult⟩ := h.resolve_right hrest
      have hboard := (rebuild_result state now decisionId required).symm.trans hresult
      obtain ⟨-, hrow⟩ := storedRow_answered hrebuilt hboard
      exact ⟨now, query, required, board, hrebuilt, hboard, (storedRow_answeredAll_of_not hrest).trans hrow⟩

/-- The queries about a configured decision require the configured metrics. -/
theorem rebuilt_configured {required found : List String}
    (h : requiredMetricsByDecision.get? decisionId = some required)
    (hrebuilt : query.rebuilt requiredMetricsByDecision = some (decisionId, found)) : found = required := by
  cases query with
  | grpcGetMerkleProof _ _ => cases hrebuilt
  | _ =>
    simp only [rebuilt, Option.some.injEq, Prod.mk.injEq] at hrebuilt
    obtain ⟨rfl, rfl⟩ := hrebuilt
    rw [h, Option.getD_some]

end Query

/-! ## The law of the stored row -/

end DecisionCore
