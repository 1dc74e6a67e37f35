import DecisionCore.Infrastructure.LocalEnv
import DecisionCore.ReadModel.Streams

/-!
# When a rebuild scores a decision

A rebuild looks only at the replayed part of a stream.  It scores a decision exactly when every
required metric is live there, so it is right about the whole stream when the rest of it does not
change which required metrics are live.
-/

namespace DecisionCore

open MetricsRegistry ScoreboardProjector PolicyEvaluator

variable {env : Env} {decisionId : String} {log : List PyDict}

/-- Every required metric is live. -/
def AllLive (requiredMetrics : List String) (log : List PyDict) : Prop :=
  ∀ name ∈ requiredMetrics, live log name = true

instance (requiredMetrics : List String) (log : List PyDict) : Decidable (AllLive requiredMetrics log) :=
  inferInstanceAs (Decidable (∀ _ ∈ _, _))

/-- The current integers of the required metrics convert to floats. -/
def IntegersFit (requiredMetrics : List String) (log : List PyDict) : Prop :=
  ∀ name ∈ requiredMetrics, ∀ n, valueAfter name none log = some (.int n) → |n| < PyFloat.overflowBound

/-- The rebuild answered with a number and a verdict on it. -/
def Scored (result : Except PyError ScoreboardState) : Prop :=
  ∃ board score, result = .ok board ∧ board.trustScore = some score ∧
    board.policyVerdict ≠ .insufficientData

/-- The rebuild answered that it has not enough data. -/
def Insufficient (result : Except PyError ScoreboardState) : Prop :=
  ∃ board, result = .ok board ∧ board.trustScore = none ∧ board.policyVerdict = .insufficientData

theorem rebuild_result (state : AppState) (rebuiltAt : Instant) (decisionId : String)
    (requiredMetrics : List String) :
    (rebuild env state rebuiltAt decisionId requiredMetrics).2 =
      project env decisionId requiredMetrics rebuiltAt (state.auditTrail.readRange decisionId 0) := by
  unfold rebuild
  split <;> simp_all

section Board

variable {outcome : Except PyError PolicyVerdictResult} {metrics : Metrics} {root : Option String}
  {moment : Option Instant} {rebuiltAt : Instant} {rebuildSeq : ℕ}

theorem scored_map_board :
    Scored (outcome.map (Readable.board decisionId metrics root moment rebuiltAt rebuildSeq)) ↔
      ∃ result score, outcome = .ok result ∧ result.trustScore = some score ∧
        result.status ≠ .insufficientData := by
  cases outcome with
  | error error => simp [Scored, Except.map]
  | ok result => simp [Scored, Except.map, Readable.board]

theorem insufficient_map_board :
    Insufficient (outcome.map (Readable.board decisionId metrics root moment rebuiltAt rebuildSeq)) ↔
      ∃ result, outcome = .ok result ∧ result.trustScore = none ∧ result.status = .insufficientData := by
  cases outcome with
  | error error => simp [Insufficient, Except.map]
  | ok result => simp [Insufficient, Except.map, Readable.board]

end Board

/-- The replayed part of a stream is a prefix of it. -/
theorem replayed_isPrefix (seen : List String) (log : List PyDict) : replayed seen log <+: log := by
  induction log generalizing seen with
  | nil => exact List.prefix_rfl
  | cons evt rest ih =>
    rw [replayed]
    split
    · exact ⟨rest, rfl⟩
    · exact (List.prefix_cons_inj evt).mpr (ih _)

/-- Commits of a readable stream carry a value. -/
theorem Readable.live_eq (h : Readable env decisionId log) {part : List PyDict} (hpart : part <+: log)
    (name : String) : live part name = (valueAfter name none part).isSome := by
  apply live_eq_isSome_valueAfter
  intro evt hevt hcommits
  obtain ⟨change, hread⟩ := h.registry evt (hpart.subset hevt)
  rw [hread.commitsMetric] at hcommits
  cases hread with
  | commit _ _ _ hvalue _ => simp [hvalue]
  | _ => cases hcommits

/-- What a rebuild answers is decided by the replayed part of a readable stream. -/
theorem Readable.project_cases (h : Readable env decisionId log) (requiredMetrics : List String)
    (rebuiltAt : Instant) :
    (AllLive requiredMetrics (replayed [] log) →
      (Scored (project env decisionId requiredMetrics rebuiltAt log) ↔
        IntegersFit requiredMetrics (replayed [] log)) ∧
      ¬ Insufficient (project env decisionId requiredMetrics rebuiltAt log)) ∧
    (¬ AllLive requiredMetrics (replayed [] log) →
      Insufficient (project env decisionId requiredMetrics rebuiltAt log) ∧
      ¬ Scored (project env decisionId requiredMetrics rebuiltAt log)) := by
  obtain ⟨changes, hchanges⟩ := h.changes
  obtain ⟨risks, hrisks⟩ := h.riskSignals
  obtain ⟨root, moment, hroot, hmoment⟩ := h.root
  have hnodup : (settle .empty changes).keys.Nodup := nodup_keys_settle (by simp [Dict.keys, Dict.empty]) changes
  have hvalue (name : String) : committedValue (settle .empty changes) name =
      valueAfter name none (replayed [] log) :=
    committedValue_settle hchanges .nil name
  have hlive : AllLive requiredMetrics (replayed [] log) ↔
      ∀ name ∈ requiredMetrics, (committedValue (settle .empty changes) name).isSome = true := by
    simp only [AllLive, h.live_eq (replayed_isPrefix [] log), hvalue]
  have hfit : AllFit requiredMetrics (settle .empty changes) ↔ IntegersFit requiredMetrics (replayed [] log) := by
    simp only [AllFit, IntegersFit, hvalue]
    constructor
    · exact fun hall name hname n hn ↦ hall name hname _ hn
    · intro hall name hname value hsome
      cases value with
      | int n => exact hall name hname n hsome
      | _ => trivial
  rw [Readable.project_eq requiredMetrics rebuiltAt hchanges hrisks hroot hmoment, hlive]
  refine ⟨?_, ?_⟩
  · intro hall
    refine ⟨?_, ?_⟩
    · rw [scored_map_board, evaluatePolicy_scored_iff risks none .default hnodup hall, hfit]
    · rw [insufficient_map_board, evaluatePolicy_committed risks none .default hnodup hall]
      rintro ⟨result, hresult, hscore, -⟩
      cases hbase : baseScore none (committed requiredMetrics (settle .empty changes)) with
      | error error => simp [hbase, Except.map] at hresult
      | ok base =>
        simp only [hbase, Except.map, Except.ok.injEq] at hresult
        rw [← hresult] at hscore
        cases hscore
  · intro hall
    obtain ⟨result, hresult, hscore, hstatus⟩ := evaluatePolicy_insufficient risks none .default hnodup hall
    refine ⟨insufficient_map_board.mpr ⟨result, hresult, hscore, hstatus⟩, ?_⟩
    rw [scored_map_board, hresult]
    rintro ⟨found, score, hfound, hsome, -⟩
    rw [← Except.ok.inj hfound, hscore] at hsome
    cases hsome

/-- A board has a number and a verdict on it, or says that it has not enough data. -/
theorem scored_or_insufficient {requiredMetrics : List String} {rebuiltAt : Instant} {board : ScoreboardState}
    (h : project env decisionId requiredMetrics rebuiltAt log = .ok board) :
    Scored (project env decisionId requiredMetrics rebuiltAt log) ∨
      Insufficient (project env decisionId requiredMetrics rebuiltAt log) := by
  have hproject := h
  simp only [project, bind_eq_ok] at h
  obtain ⟨metrics, -, risks, -, root, -, moment, -, verdict, hverdict, field, -, hboard⟩ := h
  obtain rfl := Except.ok.inj hboard
  simp only [evaluatePolicy] at hverdict
  split at hverdict
  · obtain ⟨base, -, hresult⟩ := bind_eq_ok.mp hverdict
    obtain rfl := Except.ok.inj hresult
    exact .inl ⟨_, _, hproject, rfl, verdictOf_ne_insufficientData _ _ _⟩
  · obtain rfl := Except.ok.inj hverdict
    exact .inr ⟨_, hproject, rfl, rfl⟩

/-- A rebuild of a readable stream raises only for a live integer that is too large for a float. -/
theorem Readable.project_isOk_iff (h : Readable env decisionId log) (requiredMetrics : List String)
    (rebuiltAt : Instant) :
    (∃ board, project env decisionId requiredMetrics rebuiltAt log = .ok board) ↔
      (AllLive requiredMetrics (replayed [] log) → IntegersFit requiredMetrics (replayed [] log)) := by
  obtain ⟨hlive, hnot⟩ := h.project_cases requiredMetrics rebuiltAt
  constructor
  · rintro ⟨board, hboard⟩ hall
    obtain ⟨hscored, hinsufficient⟩ := hlive hall
    exact hscored.mp ((scored_or_insufficient hboard).resolve_right hinsufficient)
  · intro hfits
    by_cases hall : AllLive requiredMetrics (replayed [] log)
    · obtain ⟨board, -, hboard, -, -⟩ := (hlive hall).1.mpr (hfits hall)
      exact ⟨board, hboard⟩
    · obtain ⟨board, hboard, -, -⟩ := (hnot hall).1
      exact ⟨board, hboard⟩

section Runs

variable {maxLeaves : ℤ} {maxSeconds : ℚ} {trace : List (System × Label)} {last : System}

/-- One metric is committed and superseded, then the required one is committed. -/
def supersedeThenCommit : List Label :=
  uninterrupted (.updateMetric (sampleCommit "cost" (.int 1) "k1")) 2 ++
    uninterrupted (.supersede ⟨"d1", "cost", "", "late evidence", "k2"⟩) 1 ++
    uninterrupted (.updateMetric (sampleCommit "roi" (.int 1) "k3")) 2

end Runs

end DecisionCore
