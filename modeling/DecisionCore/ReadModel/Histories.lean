import DecisionCore.ReadModel.Registry
import DecisionCore.ReadModel.Streams

/-!
# Histories of the metrics

The commits and rejections in a log give each metric a record, and a supersession should change the record of its own
metric, when this is the commit it names.  The replay returns at the first supersession of a metric with a record, of
whichever metric and whichever commit: up to there it shows the records of the commits and rejections, and behind it
nothing counts.
-/

namespace DecisionCore

open MetricsRegistry

variable {env : Env} {decisionId : String}

/-! ## Logs that do not end the replay -/

/-- No event of the log supersedes a metric that an earlier one has given a record. -/
def Unsuperseded (log : List PyDict) : Prop :=
  log.Pairwise fun earlier later ↦ ∀ name ∈ recordedMetric earlier, supersedesMetric name later = false

instance (log : List PyDict) : Decidable (Unsuperseded log) := inferInstanceAs (Decidable (List.Pairwise _ _))

/-- A supersession of a metric that the events before it, which do not end the replay, have given a record. -/
structure Returns (front : List PyDict) (evt : PyDict) (name : String) : Prop where
  unsuperseded : Unsuperseded front
  recorded : ∃ earlier ∈ front, recordedMetric earlier = some name
  supersedes : supersedesMetric name evt = true

/-- A log that ends the replay does so at its first supersession of a metric with a record. -/
theorem exists_returns {log : List PyDict} (h : ¬ Unsuperseded log) :
    ∃ front evt back name, log = front ++ evt :: back ∧ Returns front evt name := by
  induction log using List.reverseRecOn with
  | nil => exact absurd List.Pairwise.nil h
  | append_singleton init evt ih =>
    by_cases hinit : Unsuperseded init
    · have hlast : ∃ earlier ∈ init, ∃ name ∈ recordedMetric earlier, supersedesMetric name evt = true := by
        by_contra hnone
        apply h
        rw [Unsuperseded, List.pairwise_append]
        refine ⟨hinit, List.pairwise_singleton _ _, ?_⟩
        simpa using hnone
      obtain ⟨earlier, hmem, name, hname, hsupersedes⟩ := hlast
      exact ⟨init, evt, [], name, rfl, hinit, ⟨earlier, hmem, hname⟩, hsupersedes⟩
    · obtain ⟨front, first, back, name, rfl, hreturns⟩ := ih hinit
      exact ⟨front, first, back ++ [evt], name, by simp, hreturns⟩

/-! ## The record of a metric -/

namespace MetricsRegistry

/-- The event rejects the metric. -/
def rejectsMetric (name : String) (evt : PyDict) : Bool :=
  evt.hasType "MetricRejected" && decide (evt.text? "metric_name" = some name)

/-- The record of the last commit of the metric. -/
def lastCommit (env : Env) (decisionId name : String) (log : List PyDict) : Option MetricRecord :=
  (log.filter (commitsMetric name)).getLast?.bind fun evt ↦ (committedRecord env decisionId evt).toOption

/-- The record of the first rejection of the metric. -/
def firstRejection (env : Env) (decisionId name : String) (log : List PyDict) : Option MetricRecord :=
  (log.find? (rejectsMetric name)).bind fun evt ↦ (rejectedRecord env decisionId evt).toOption

/-- The record that the commits and rejections of the log give the metric. -/
def holder (env : Env) (decisionId name : String) (log : List PyDict) : Option MetricRecord :=
  (lastCommit env decisionId name log).or (firstRejection env decisionId name log)

section Events

variable {evt : PyDict} {change : Change} {name : String}

theorem Reads.rejectsMetric (h : Reads env decisionId evt change) (name : String) :
    rejectsMetric name evt = match change with
      | .reject record => decide (record.metricName = name)
      | _ => false := by
  cases h with
  | commit htype _ _ _ _ =>
    simp [MetricsRegistry.rejectsMetric, hasType_of_hasType htype (by decide : _ ≠ "MetricRejected")]
  | reject htype _ hname _ => simp [MetricsRegistry.rejectsMetric, htype, text?_of_get? hname]
  | supersede htype _ _ =>
    simp [MetricsRegistry.rejectsMetric, hasType_of_hasType htype (by decide : _ ≠ "MetricRejected")]
  | skip _ hreject _ => simp [MetricsRegistry.rejectsMetric, hreject]

/-- A readable commit of a metric has a record of this metric. -/
theorem Reads.commit_of_commits (h : Reads env decisionId evt change)
    (hcommits : MetricsRegistry.commitsMetric name evt = true) :
    ∃ record, change = .commit record ∧ committedRecord env decisionId evt = .ok record ∧
      record.metricName = name ∧ record.status = .committed := by
  rw [h.commitsMetric] at hcommits
  cases h with
  | commit _ hrecord _ _ hstatus => exact ⟨_, rfl, hrecord, of_decide_eq_true hcommits, hstatus⟩
  | _ => cases hcommits

/-- A readable rejection of a metric has a record of this metric. -/
theorem Reads.reject_of_rejects (h : Reads env decisionId evt change)
    (hrejects : MetricsRegistry.rejectsMetric name evt = true) :
    ∃ record, change = .reject record ∧ rejectedRecord env decisionId evt = .ok record ∧
      record.metricName = name ∧ record.status = .rejected := by
  rw [h.rejectsMetric] at hrejects
  cases h with
  | reject _ hrecord _ hstatus => exact ⟨_, rfl, hrecord, of_decide_eq_true hrejects, hstatus⟩
  | _ => cases hrejects

theorem recordedMetric_eq_some_iff :
    recordedMetric evt = some name ↔ commitsMetric name evt = true ∨ rejectsMetric name evt = true := by
  unfold recordedMetric commitsMetric rejectsMetric
  cases evt.hasType "MetricCommitted" <;> cases evt.hasType "MetricRejected" <;> simp

end Events

section Holder

variable {log : List PyDict} {name : String}

theorem lastCommit_concat (env : Env) (decisionId name : String) (log : List PyDict) (evt : PyDict) :
    lastCommit env decisionId name (log ++ [evt]) =
      if commitsMetric name evt = true then (committedRecord env decisionId evt).toOption
      else lastCommit env decisionId name log := by
  unfold lastCommit
  rw [List.filter_append]
  by_cases h : commitsMetric name evt = true <;> simp [h]

/-- A readable rejection that no other precedes gives the metric its record. -/
theorem firstRejection_concat (hread : ∀ evt ∈ log, ∃ change, Reads env decisionId evt change) (evt : PyDict) :
    firstRejection env decisionId name (log ++ [evt]) = (firstRejection env decisionId name log).or
      (if rejectsMetric name evt = true then (rejectedRecord env decisionId evt).toOption else none) := by
  unfold firstRejection
  rw [List.find?_append]
  cases hfirst : log.find? (rejectsMetric name) with
  | none => by_cases h : rejectsMetric name evt = true <;> simp [h]
  | some first =>
    obtain ⟨change, hreads⟩ := hread first (List.mem_of_find?_eq_some hfirst)
    obtain ⟨record, -, hrecord, -⟩ := hreads.reject_of_rejects (List.find?_some hfirst)
    simp [hrecord, Except.toOption]

/-- What a change makes of the record of a metric, as long as the replay goes on. -/
def Change.hold (name : String) (current : Option MetricRecord) : Change → Option MetricRecord
  | commit record => if record.metricName = name then some record else current
  | reject record => current.or (if record.metricName = name then some record else none)
  | supersede _ _ => current
  | skip => current

theorem holder_concat (hread : ∀ evt ∈ log, ∃ change, Reads env decisionId evt change) {evt : PyDict}
    {change : Change} (hevt : Reads env decisionId evt change) (name : String) :
    holder env decisionId name (log ++ [evt]) = change.hold name (holder env decisionId name log) := by
  have hcommits := hevt.commitsMetric name
  have hrejects := hevt.rejectsMetric name
  rw [holder, lastCommit_concat, firstRejection_concat hread, hcommits, hrejects]
  cases hevt with
  | @commit record _ hrecord _ _ _ =>
    by_cases hname : record.metricName = name <;> simp [Change.hold, holder, hname, hrecord, Except.toOption]
  | @reject record _ hrecord _ _ =>
    by_cases hname : record.metricName = name <;> simp [Change.hold, holder, hname, hrecord, Except.toOption]
  | supersede _ _ _ => simp [Change.hold, holder]
  | skip _ _ _ => simp [Change.hold, holder]

/-- The commits and rejections of a metric are what gives it a record. -/
theorem holder_isSome_iff (hread : ∀ evt ∈ log, ∃ change, Reads env decisionId evt change) :
    (holder env decisionId name log).isSome = true ↔ ∃ evt ∈ log, recordedMetric evt = some name := by
  induction log using List.reverseRecOn with
  | nil => simp [holder, lastCommit, firstRejection]
  | append_singleton log evt ih =>
    have hlog : ∀ other ∈ log, ∃ change, Reads env decisionId other change :=
      fun other hother ↦ hread other (List.mem_append_left _ hother)
    obtain ⟨change, hevt⟩ := hread evt (by simp)
    have hrecorded := hevt.recordedMetric
    rw [holder_concat hlog hevt]
    simp only [List.mem_append, List.mem_singleton, or_and_right, exists_or, exists_eq_left, ← ih hlog, hrecorded]
    cases change with
    | commit record => by_cases hname : record.metricName = name <;> simp [Change.hold, hname]
    | reject record => by_cases hname : record.metricName = name <;> simp [Change.hold, hname]
    | supersede target by_ => simp [Change.hold]
    | skip => simp [Change.hold]

end Holder

/-! ## What the replay shows -/

/-- The registry after a change that does not end the replay. -/
def Change.record (metrics : Metrics) : Change → Metrics
  | commit record => metrics.set record.metricName record
  | reject record =>
    if metrics.contains record.metricName then metrics else metrics.set record.metricName record
  | supersede _ _ => metrics
  | skip => metrics

/-- The registry after changes none of which ends the replay. -/
def absorb (changes : List Change) : Metrics := changes.foldl Change.record .empty

section Replay

variable {log : List PyDict} {read : PyDict → Change}

theorem absorb_concat (changes : List Change) (change : Change) :
    absorb (changes ++ [change]) = change.record (absorb changes) := by
  simp [absorb]

theorem Change.get?_record (change : Change) (metrics : Metrics) (name : String) :
    (change.record metrics).get? name = change.hold name (metrics.get? name) := by
  cases change with
  | commit record => exact Dict.get?_set _ _ _ _
  | reject record =>
    simp only [Change.record, Change.hold]
    by_cases hcontains : metrics.contains record.metricName = true
    · rw [if_pos hcontains]
      by_cases hname : record.metricName = name
      · obtain ⟨found, hfound⟩ := Option.isSome_iff_exists.mp hcontains
        rw [← hname, hfound, Option.some_or]
      · rw [if_neg hname, Option.or_none]
    · rw [if_neg hcontains, Dict.get?_set]
      by_cases hname : record.metricName = name
      · have hnone : metrics.get? record.metricName = none := by simpa [Dict.contains] using hcontains
        rw [if_pos hname, ← hname, hnone, Option.none_or, if_pos rfl]
      · rw [if_neg hname, if_neg hname, Option.or_none]
  | supersede target by_ => rfl
  | skip => rfl

/-- As long as the replay goes on, the registry shows what the commits and rejections say. -/
theorem absorb_get? (hread : ∀ evt ∈ log, Reads env decisionId evt (read evt)) (name : String) :
    (absorb (log.map read)).get? name = holder env decisionId name log := by
  induction log using List.reverseRecOn with
  | nil => rfl
  | append_singleton log evt ih =>
    have hlog : ∀ other ∈ log, Reads env decisionId other (read other) :=
      fun other hother ↦ hread other (List.mem_append_left _ hother)
    rw [holder_concat (fun other hother ↦ ⟨_, hlog other hother⟩) (hread evt (by simp)), ← ih hlog, List.map_append,
      List.map_singleton, absorb_concat]
    exact Change.get?_record _ _ _

/-- The replay goes on behind a log that does not end it. -/
theorem settle_of_unsuperseded (hread : ∀ evt ∈ log, Reads env decisionId evt (read evt)) (h : Unsuperseded log)
    (rest : List Change) : settle .empty (log.map read ++ rest) = settle (absorb (log.map read)) rest := by
  induction log using List.reverseRecOn generalizing rest with
  | nil => rfl
  | append_singleton log evt ih =>
    have hlog : ∀ other ∈ log, Reads env decisionId other (read other) :=
      fun other hother ↦ hread other (List.mem_append_left _ hother)
    obtain ⟨hopen, -, hlast⟩ := List.pairwise_append.mp h
    have hevt := hread evt (by simp)
    rw [List.map_append, List.map_singleton, List.append_assoc, ih hlog hopen, absorb_concat, List.singleton_append]
    generalize read evt = change at hevt
    cases hevt with
    | @supersede target by_ htype hname _ =>
      have hnone : (absorb (log.map read)).get? target = none := by
        rw [absorb_get? hlog, ← Option.not_isSome_iff_eq_none,
          holder_isSome_iff fun other hother ↦ ⟨_, hlog other hother⟩]
        rintro ⟨other, hother, hrecorded⟩
        have hfree := hlast other hother evt List.mem_cons_self target hrecorded
        simp [supersedesMetric, htype, text?_of_get? hname] at hfree
      simp only [settle, hnone, Change.record]
    | _ => rfl

end Replay

/-- The record of a metric in the replayed registry. -/
def recordAfter (env : Env) (decisionId : String) (log : List PyDict) (name : String) :
    Except PyError (Option MetricRecord) :=
  (reconstruct env decisionId log).map (·.get? name)

section RecordAfter

variable {log front back : List PyDict} {evt : PyDict}

theorem exists_reading (hread : ∀ evt ∈ log, ∃ change, Reads env decisionId evt change) :
    ∃ read : PyDict → Change, (∀ evt ∈ log, Reads env decisionId evt (read evt)) ∧
      List.Forall₂ (Reads env decisionId) log (log.map read) := by
  have hnonempty : Nonempty Change := ⟨.skip⟩
  choose! read hread using hread
  exact ⟨read, hread, List.forall₂_map_right_iff.mpr (List.forall₂_same.mpr hread)⟩

theorem recordAfter_of_unsuperseded (hread : ∀ evt ∈ log, ∃ change, Reads env decisionId evt change)
    (h : Unsuperseded log) (name : String) :
    recordAfter env decisionId log name = .ok (holder env decisionId name log) := by
  obtain ⟨read, hread, hchanges⟩ := exists_reading hread
  have hsettle := settle_of_unsuperseded hread h []
  rw [List.append_nil] at hsettle
  rw [recordAfter, reconstruct, replay_eq_settle hchanges, hsettle, settle]
  exact congrArg Except.ok (absorb_get? hread name)

/-- The replay returns at a supersession of a metric with a record, whatever stands behind it. -/
theorem recordAfter_of_returns {target : String}
    (hread : ∀ other ∈ front ++ evt :: back, ∃ change, Reads env decisionId other change)
    (h : Returns front evt target) : ∃ by_, evt.get? "superseded_by_idempotency_key" = some by_ ∧
      ∀ name, recordAfter env decisionId (front ++ evt :: back) name = .ok (if target = name
        then (holder env decisionId name front).map (MetricsRegistry.supersede · by_)
        else holder env decisionId name front) := by
  obtain ⟨read, hread, hchanges⟩ := exists_reading hread
  have hfront : ∀ other ∈ front, Reads env decisionId other (read other) :=
    fun other hother ↦ hread other (List.mem_append_left _ hother)
  have hevt := hread evt (by simp)
  have hsettle := settle_of_unsuperseded hfront h.unsuperseded ((evt :: back).map read)
  obtain ⟨htype, htext⟩ := Bool.and_eq_true_iff.mp h.supersedes
  have hsome := (holder_isSome_iff fun other hother ↦ ⟨_, hfront other hother⟩).mpr h.recorded
  rw [← absorb_get? hfront] at hsome
  obtain ⟨record, hrecord⟩ := Option.isSome_iff_exists.mp hsome
  have hreplay : reconstruct env decisionId (front ++ evt :: back) =
      .ok (settle (absorb (front.map read)) ((evt :: back).map read)) := by
    rw [reconstruct, replay_eq_settle hchanges, List.map_append, hsettle]
  simp only [recordAfter, hreplay, List.map_cons]
  generalize read evt = change at hevt
  cases hevt with
  | @supersede other by_ _ hname hby =>
    have hsame : other = target := by simpa [text?_of_get? hname] using htext
    subst hsame
    refine ⟨by_, hby, ?_⟩
    intro name
    simp only [settle, hrecord, Except.map, Dict.get?_set, ← absorb_get? hfront]
    by_cases htarget : other = name
    · simp [← htarget, hrecord]
    · simp [htarget]
  | commit hother _ _ _ _ => simp [hasType_of_hasType hother (by decide : _ ≠ "MetricSuperseded")] at htype
  | reject hother _ _ _ => simp [hasType_of_hasType hother (by decide : _ ≠ "MetricSuperseded")] at htype
  | skip _ _ hother => simp [hother] at htype

/-- The commits and rejections give no superseded record. -/
theorem holder_status (hread : ∀ evt ∈ log, ∃ change, Reads env decisionId evt change) {name : String}
    {record : MetricRecord} (h : holder env decisionId name log = some record) : record.status ≠ .superseded := by
  induction log using List.reverseRecOn with
  | nil => cases h
  | append_singleton log evt ih =>
    have hlog : ∀ other ∈ log, ∃ change, Reads env decisionId other change :=
      fun other hother ↦ hread other (List.mem_append_left _ hother)
    obtain ⟨change, hevt⟩ := hread evt (by simp)
    rw [holder_concat hlog hevt] at h
    cases hevt with
    | commit _ _ _ _ hstatus =>
      simp only [Change.hold] at h
      split at h
      · obtain rfl := Option.some.inj h
        simp [hstatus]
      · exact ih hlog h
    | reject _ _ _ hstatus =>
      simp only [Change.hold] at h
      rw [Option.or_eq_some_iff] at h
      rcases h with hold | ⟨-, hnew⟩
      · exact ih hlog hold
      · split at hnew
        · obtain rfl := Option.some.inj hnew
          simp [hstatus]
        · cases hnew
    | supersede _ _ _ => exact ih hlog h
    | skip _ _ _ => exact ih hlog h

end RecordAfter

end MetricsRegistry

end DecisionCore
