import DecisionCore.Application.MetricsRegistry

/-!
# The registry as a fold of changes

An event of a well-formed stream reads as one change of the registry, and replaying the stream is
settling these changes one after the other.  A supersession that finds its metric ends the replay,
so what the registry shows is decided by the stream up to there.
-/

namespace DecisionCore.MetricsRegistry

/-- What an event means to the registry. -/
inductive Change where
  | commit (record : MetricRecord)
  | reject (record : MetricRecord)
  | supersede (name : String) (by_ : Json)
  | skip

/-- The registry after the changes; the first supersession with an effect is the last change. -/
def settle (metrics : Metrics) : List Change → Metrics
  | [] => metrics
  | .commit record :: rest => settle (metrics.set record.metricName record) rest
  | .reject record :: rest =>
    settle (if metrics.contains record.metricName then metrics else metrics.set record.metricName record) rest
  | .supersede name by_ :: rest =>
    match metrics.get? name with
    | some record => metrics.set name (supersede record by_)
    | none => settle metrics rest
  | .skip :: rest => settle metrics rest

variable {env : Env} {decisionId : String}

/-- The event can be read, as the given change. -/
inductive Reads (env : Env) (decisionId : String) (evt : PyDict) : Change → Prop
  | commit {record : MetricRecord} : evt.hasType "MetricCommitted" = true →
    committedRecord env decisionId evt = .ok record →
    evt.get? "metric_name" = some (.str record.metricName) → evt.get? "value" = some record.value →
    record.status = .committed → Reads env decisionId evt (.commit record)
  | reject {record : MetricRecord} : evt.hasType "MetricRejected" = true →
    rejectedRecord env decisionId evt = .ok record →
    evt.get? "metric_name" = some (.str record.metricName) → record.status = .rejected →
    Reads env decisionId evt (.reject record)
  | supersede {name : String} {by_ : Json} : evt.hasType "MetricSuperseded" = true →
    evt.get? "metric_name" = some (.str name) →
    evt.get? "superseded_by_idempotency_key" = some by_ → Reads env decisionId evt (.supersede name by_)
  | skip : evt.hasType "MetricCommitted" = false → evt.hasType "MetricRejected" = false →
    evt.hasType "MetricSuperseded" = false → Reads env decisionId evt .skip

/-- An event has one type. -/
theorem hasType_of_hasType {evt : PyDict} {first second : String} (h : evt.hasType first = true)
    (hne : first ≠ second) : evt.hasType second = false := by
  rw [Bool.eq_false_iff]
  intro hsecond
  rw [PyDict.hasType_iff] at h hsecond
  rw [h] at hsecond
  exact hne (Json.str.inj (Option.some.inj hsecond))

theorem item_eq {evt : PyDict} {key : String} {value : Json} (h : evt.get? key = some value) :
    item evt key = .ok value := by
  simp [item, h]

/-- Replaying a readable stream settles its changes. -/
theorem replay_eq_settle {log : List PyDict} {changes : List Change}
    (h : List.Forall₂ (Reads env decisionId) log changes) (metrics : Metrics) :
    replay env decisionId metrics log = .ok (settle metrics changes) := by
  induction h generalizing metrics with
  | nil => rfl
  | @cons evt change log changes hread _ ih =>
    cases hread with
    | commit htype hrecord _ _ _ =>
      rw [replay, if_pos htype, hrecord]
      exact ih _
    | @reject record htype hrecord hname _ =>
      have hcommit := hasType_of_hasType htype (by decide : "MetricRejected" ≠ "MetricCommitted")
      rw [replay, hcommit, if_neg Bool.false_ne_true, if_pos htype, item_eq hname, hrecord]
      cases hfound : metrics.get? record.metricName with
      | none =>
        have hcontains : metrics.contains record.metricName = false := by simp [Dict.contains, hfound]
        simp only [settle, hcontains, Bool.false_eq_true, if_false]
        rw [← ih]
        simp [recordOf?, hfound, bind, Except.bind]
      | some found =>
        have hcontains : metrics.contains record.metricName = true := by simp [Dict.contains, hfound]
        simp only [settle, hcontains, if_true]
        rw [← ih]
        simp [recordOf?, hfound, bind, Except.bind]
    | @supersede name by_ htype hname hby =>
      have hcommit := hasType_of_hasType htype (by decide : "MetricSuperseded" ≠ "MetricCommitted")
      have hreject := hasType_of_hasType htype (by decide : "MetricSuperseded" ≠ "MetricRejected")
      rw [replay, hcommit, if_neg Bool.false_ne_true, hreject, if_neg Bool.false_ne_true, if_pos htype,
        item_eq hname, item_eq hby]
      cases hfound : metrics.get? name with
      | none =>
        simp only [settle, hfound]
        rw [← ih]
        simp [recordOf?, hfound, bind, Except.bind]
      | some found =>
        simp only [settle, hfound]
        simp [recordOf?, hfound, bind, Except.bind, pure, Except.pure]
    | skip hcommit hreject hsupersede =>
      rw [replay, hcommit, if_neg Bool.false_ne_true, hreject, if_neg Bool.false_ne_true, hsupersede,
        if_neg Bool.false_ne_true]
      exact ih _

theorem nodup_keys_settle {metrics : Metrics} (h : metrics.keys.Nodup) (changes : List Change) :
    (settle metrics changes).keys.Nodup := by
  induction changes generalizing metrics with
  | nil => exact h
  | cons change rest ih =>
    cases change with
    | commit record => exact ih (Dict.nodup_keys_set h _ _)
    | reject record =>
      simp only [settle]
      split
      · exact ih h
      · exact ih (Dict.nodup_keys_set h _ _)
    | supersede name by_ =>
      simp only [settle]
      split
      · exact Dict.nodup_keys_set h _ _
      · exact ih h
    | skip => exact ih h

/-! ## What the stream says about one metric -/

/-- The event commits the metric. -/
def commitsMetric (name : String) (evt : PyDict) : Bool :=
  evt.hasType "MetricCommitted" && decide (evt.text? "metric_name" = some name)

/-- The event supersedes the metric. -/
def supersedesMetric (name : String) (evt : PyDict) : Bool :=
  evt.hasType "MetricSuperseded" && decide (evt.text? "metric_name" = some name)

/-- The metric is live: the last of its commits and supersessions is a commit. -/
def live (log : List PyDict) (name : String) : Bool :=
  match (log.filter fun evt ↦ commitsMetric name evt || supersedesMetric name evt).getLast? with
  | some evt => evt.hasType "MetricCommitted"
  | none => false

/-- The value of the metric after the stream, none while it is not live. -/
def valueAfter (name : String) (current : Option Json) (log : List PyDict) : Option Json :=
  log.foldl (fun current evt ↦
    if commitsMetric name evt then evt.get? "value"
    else if supersedesMetric name evt then none
    else current) current

/-- The metric an event gives a record to. -/
def recordedMetric (evt : PyDict) : Option String :=
  if evt.hasType "MetricCommitted" || evt.hasType "MetricRejected" then evt.text? "metric_name" else none

/-- The stream up to and with the first supersession of a metric that has been committed or rejected
before, the part the registry replays. -/
def replayed (seen : List String) : List PyDict → List PyDict
  | [] => []
  | evt :: rest =>
    if evt.hasType "MetricSuperseded" && decide (∃ name ∈ seen, evt.text? "metric_name" = some name) then [evt]
    else evt :: replayed ((recordedMetric evt).toList ++ seen) rest

theorem valueAfter_concat (name : String) (current : Option Json) (log : List PyDict) (evt : PyDict) :
    valueAfter name current (log ++ [evt]) =
      if commitsMetric name evt then evt.get? "value"
      else if supersedesMetric name evt then none else valueAfter name current log := by
  simp [valueAfter]

/-- A metric is live when it has a value. -/
theorem live_eq_isSome_valueAfter {log : List PyDict} {name : String}
    (h : ∀ evt ∈ log, commitsMetric name evt = true → (evt.get? "value").isSome = true) :
    live log name = (valueAfter name none log).isSome := by
  induction log using List.reverseRecOn with
  | nil => rfl
  | append_singleton log evt ih =>
    have hlog := ih fun other hother ↦ h other (List.mem_append_left _ hother)
    rw [valueAfter_concat]
    unfold live at hlog ⊢
    rw [List.filter_append]
    by_cases hcommit : commitsMetric name evt = true
    · have hvalue := h evt (by simp) hcommit
      have htype : evt.hasType "MetricCommitted" = true := (Bool.and_eq_true_iff.mp hcommit).1
      simp [hcommit, hvalue, htype]
    · by_cases hsupersede : supersedesMetric name evt = true
      · have htype : evt.hasType "MetricCommitted" = false :=
          hasType_of_hasType (Bool.and_eq_true_iff.mp hsupersede).1 (by decide)
        simp [hcommit, hsupersede, htype]
      · simpa [hcommit, hsupersede] using hlog

/-- The value of a metric with status `COMMITTED`. -/
def committedValue (metrics : Metrics) (name : String) : Option Json :=
  (metrics.get? name).bind fun record ↦ if record.status = .committed then some record.value else none

theorem committedValue_set (metrics : Metrics) (key name : String) (record : MetricRecord) :
    committedValue (metrics.set key record) name =
      if key = name then (if record.status = .committed then some record.value else none)
      else committedValue metrics name := by
  by_cases h : key = name <;> simp [committedValue, h]

theorem valueAfter_cons (name : String) (current : Option Json) (evt : PyDict) (rest : List PyDict) :
    valueAfter name current (evt :: rest) =
      valueAfter name (if commitsMetric name evt then evt.get? "value"
        else if supersedesMetric name evt then none else current) rest := rfl

section Reads

variable {evt : PyDict} {change : Change}

theorem text?_of_get? {key text : String} (h : evt.get? key = some (.str text)) :
    evt.text? key = some text := by
  simp [PyDict.text?, h, Json.asStr?]

/-- The events of a metric, by the change an event reads as. -/
theorem Reads.commitsMetric (h : Reads env decisionId evt change) (name : String) :
    commitsMetric name evt = match change with
      | .commit record => decide (record.metricName = name)
      | _ => false := by
  cases h with
  | commit htype _ hname _ _ => simp [MetricsRegistry.commitsMetric, htype, text?_of_get? hname]
  | reject htype _ _ _ =>
    simp [MetricsRegistry.commitsMetric, hasType_of_hasType htype (by decide : _ ≠ "MetricCommitted")]
  | supersede htype _ _ =>
    simp [MetricsRegistry.commitsMetric, hasType_of_hasType htype (by decide : _ ≠ "MetricCommitted")]
  | skip hcommit _ _ => simp [MetricsRegistry.commitsMetric, hcommit]

theorem Reads.supersedesMetric (h : Reads env decisionId evt change) (name : String) :
    supersedesMetric name evt = match change with
      | .supersede target _ => decide (target = name)
      | _ => false := by
  cases h with
  | commit htype _ _ _ _ =>
    simp [MetricsRegistry.supersedesMetric, hasType_of_hasType htype (by decide : _ ≠ "MetricSuperseded")]
  | reject htype _ _ _ =>
    simp [MetricsRegistry.supersedesMetric, hasType_of_hasType htype (by decide : _ ≠ "MetricSuperseded")]
  | supersede htype hname _ => simp [MetricsRegistry.supersedesMetric, htype, text?_of_get? hname]
  | skip _ _ hsupersede => simp [MetricsRegistry.supersedesMetric, hsupersede]

theorem Reads.recordedMetric (h : Reads env decisionId evt change) :
    recordedMetric evt = match change with
      | .commit record => some record.metricName
      | .reject record => some record.metricName
      | _ => none := by
  cases h with
  | commit htype _ hname _ _ => simp [MetricsRegistry.recordedMetric, htype, text?_of_get? hname]
  | reject htype _ hname _ => simp [MetricsRegistry.recordedMetric, htype, text?_of_get? hname]
  | supersede htype _ _ =>
    simp [MetricsRegistry.recordedMetric, hasType_of_hasType htype (by decide : _ ≠ "MetricCommitted"),
      hasType_of_hasType htype (by decide : _ ≠ "MetricRejected")]
  | skip hcommit hreject _ => simp [MetricsRegistry.recordedMetric, hcommit, hreject]

/-- The value a change leaves to a metric. -/
theorem Reads.valueAfter (h : Reads env decisionId evt change) (name : String) (current : Option Json)
    (rest : List PyDict) :
    valueAfter name current (evt :: rest) = valueAfter name (match change with
      | .commit record => if record.metricName = name then some record.value else current
      | .supersede target _ => if target = name then none else current
      | _ => current) rest := by
  rw [valueAfter_cons, h.commitsMetric, h.supersedesMetric]
  cases h with
  | @commit record _ _ _ hvalue _ => by_cases heq : record.metricName = name <;> simp [heq, hvalue]
  | @supersede target _ _ _ _ => by_cases heq : target = name <;> simp [heq]
  | _ => simp

/-- The replay goes on behind every event but a supersession of a metric with a record. -/
theorem Reads.replayed (h : Reads env decisionId evt change) (seen : List String) (rest : List PyDict) :
    replayed seen (evt :: rest) = match change with
      | .commit record => evt :: replayed (record.metricName :: seen) rest
      | .reject record => evt :: replayed (record.metricName :: seen) rest
      | .supersede target _ => if target ∈ seen then [evt] else evt :: replayed seen rest
      | .skip => evt :: replayed seen rest := by
  have hrecorded := h.recordedMetric
  rw [MetricsRegistry.replayed, hrecorded]
  cases h with
  | commit htype _ _ _ _ =>
    simp [hasType_of_hasType htype (by decide : _ ≠ "MetricSuperseded")]
  | reject htype _ _ _ => simp [hasType_of_hasType htype (by decide : _ ≠ "MetricSuperseded")]
  | @supersede target _ htype hname _ =>
    by_cases hseen : target ∈ seen <;> simp [htype, text?_of_get? hname, hseen]
  | skip _ _ hsupersede => simp [hsupersede]

end Reads

/-! ## Names with a record -/

/-- The names seen so far are those with a record. -/
def Lists (seen : List String) (metrics : Metrics) : Prop :=
  ∀ name, name ∈ seen ↔ metrics.contains name = true

theorem Lists.nil : Lists [] .empty := by
  intro name
  simp [Dict.contains]

section Names

variable {seen : List String} {metrics : Metrics}

/-- Setting the record of a metric adds its name. -/
theorem Lists.set (h : Lists seen metrics) (name : String) (record : MetricRecord) :
    Lists (name :: seen) (metrics.set name record) := by
  intro other
  by_cases heq : name = other
  · simp [heq, Dict.contains]
  · simpa [heq, Ne.symm heq, Dict.contains] using h other

/-- A name with a record adds nothing. -/
theorem Lists.known (h : Lists seen metrics) {name : String} (hcontains : metrics.contains name = true) :
    Lists (name :: seen) metrics := by
  intro other
  rw [List.mem_cons, h other]
  constructor
  · rintro (rfl | hother)
    · exact hcontains
    · exact hother
  · exact Or.inr

/-- A rejection records its metric unless the metric has a record. -/
theorem Lists.setNew (h : Lists seen metrics) (name : String) (record : MetricRecord) :
    Lists (name :: seen) (if metrics.contains name = true then metrics else metrics.set name record) := by
  by_cases hcontains : metrics.contains name = true
  · rw [if_pos hcontains]
    exact h.known hcontains
  · rw [if_neg hcontains]
    exact h.set name record

end Names

/-- The registry shows for every metric the value it has after the replayed part of the stream. -/
theorem committedValue_settle {log : List PyDict} {changes : List Change}
    (h : List.Forall₂ (Reads env decisionId) log changes) {metrics : Metrics} {seen : List String}
    (hseen : Lists seen metrics) (name : String) :
    committedValue (settle metrics changes) name =
      valueAfter name (committedValue metrics name) (replayed seen log) := by
  induction h generalizing metrics seen with
  | nil => rfl
  | @cons evt change log changes hread _ ih =>
    rw [hread.replayed]
    cases change with
    | commit record =>
      have hstatus : record.status = .committed := by cases hread; assumption
      simp only [settle]
      rw [ih (hseen.set record.metricName record), hread.valueAfter, committedValue_set]
      simp [hstatus]
    | reject record =>
      have hstatus : record.status = .rejected := by cases hread; assumption
      simp only [settle]
      by_cases hcontains : metrics.contains record.metricName = true
      · -- The metric has a record already, and keeps it.
        rw [if_pos hcontains, hread.valueAfter]
        exact ih (hseen.known hcontains)
      · rw [if_neg hcontains, ih (hseen.set record.metricName record), hread.valueAfter, committedValue_set]
        by_cases heq : record.metricName = name
        · have hnone : metrics.get? record.metricName = none := by simpa [Dict.contains] using hcontains
          simp [committedValue, ← heq, hnone, hstatus]
        · simp [heq]
    | supersede target by_ =>
      simp only [settle]
      cases hfound : metrics.get? target with
      | none =>
        have htarget : target ∉ seen := by simp [hseen target, Dict.contains, hfound]
        simp only [htarget, if_false]
        rw [ih hseen, hread.valueAfter]
        by_cases heq : target = name
        · simp [committedValue, ← heq, hfound]
        · simp [heq]
      | some record =>
        have htarget : target ∈ seen := by simp [hseen target, Dict.contains, hfound]
        simp only [htarget, if_true]
        rw [hread.valueAfter, committedValue_set]
        simp [valueAfter, supersede]
    | skip =>
      simp only [settle]
      rw [ih hseen, hread.valueAfter]

/-! ## Rounds of the replay

Without any assumption on the stream: one round of the loop, and what a round that does not raise has
seen.
-/

/-- One round of the loop: the registry it leaves, and whether it returns. -/
def consume (env : Env) (decisionId : String) (metrics : Metrics) (evt : PyDict) : Except PyError (Metrics × Bool) :=
  if evt.hasType "MetricCommitted" then do
    let record ← committedRecord env decisionId evt
    return (metrics.set record.metricName record, false)
  else if evt.hasType "MetricRejected" then do
    match ← recordOf? metrics (← item evt "metric_name") with
    | some _ => return (metrics, false)
    | none =>
      let record ← rejectedRecord env decisionId evt
      return (metrics.set record.metricName record, false)
  else if evt.hasType "MetricSuperseded" then do
    match ← recordOf? metrics (← item evt "metric_name") with
    | some (target, record) =>
      let by_ ← item evt "superseded_by_idempotency_key"
      return (metrics.set target (supersede record by_), true)
    | none => return (metrics, false)
  else return (metrics, false)

theorem replay_cons (metrics : Metrics) (evt : PyDict) (rest : List PyDict) :
    replay env decisionId metrics (evt :: rest) = consume env decisionId metrics evt >>= fun round ↦
      if round.2 then .ok round.1 else replay env decisionId round.1 rest := by
  rw [replay, consume]
  split
  · cases committedRecord env decisionId evt <;> rfl
  · split
    · cases item evt "metric_name" with
      | error error => rfl
      | ok name =>
        simp only [bind, Except.bind]
        cases recordOf? metrics name with
        | error error => rfl
        | ok found =>
          cases found with
          | some pair => rfl
          | none => cases rejectedRecord env decisionId evt <;> rfl
    · split
      · cases item evt "metric_name" with
        | error error => rfl
        | ok name =>
          simp only [bind, Except.bind]
          cases recordOf? metrics name with
          | error error => rfl
          | ok found =>
            cases found with
            | some pair => cases item evt "superseded_by_idempotency_key" <;> rfl
            | none => rfl
      · rfl

theorem item_ok {evt : PyDict} {key : String} {value : Json} (h : item evt key = .ok value) :
    evt.get? key = some value := by
  unfold item at h
  split at h
  · rename_i found hfound
    rw [hfound, Except.ok.inj h]
  · cases h

/-- What the registry has validated about a replayed commit. -/
theorem committedRecord_ok {evt : PyDict} {record : MetricRecord}
    (h : committedRecord env decisionId evt = .ok record) :
    evt.get? "metric_name" = some (.str record.metricName) ∧ record.status = .committed ∧
      ∃ leafHash, evt.get? "leaf_hash" = some leafHash ∧ leafHashField? leafHash = some record.leafHash := by
  simp only [committedRecord, bind_eq_ok] at h
  obtain ⟨metricName, hname, value, -, idempotencyKey, -, evidenceRefs, -, committedAt, -, createdAt, -,
    leafHash, hleaf, hbuild⟩ := h
  unfold MetricRecord.build at hbuild
  split at hbuild
  · rename_i text _ _ _ leaf htext _ _ _ hfield
    obtain rfl := Except.ok.inj hbuild
    rw [Json.asStr?_eq_some] at htext
    exact ⟨htext ▸ item_ok hname, rfl, leafHash, item_ok hleaf, hfield⟩
  · cases hbuild

theorem rejectedRecord_ok {evt : PyDict} {record : MetricRecord}
    (h : rejectedRecord env decisionId evt = .ok record) :
    evt.get? "metric_name" = some (.str record.metricName) ∧ record.status = .rejected := by
  simp only [rejectedRecord, bind_eq_ok] at h
  obtain ⟨metricName, hname, idempotencyKey, -, occurredAt, -, createdAt, -, hbuild⟩ := h
  unfold MetricRecord.build at hbuild
  split at hbuild
  · rename_i text _ _ _ leaf htext _ _ _ hfield
    obtain rfl := Except.ok.inj hbuild
    rw [Json.asStr?_eq_some] at htext
    exact ⟨htext ▸ item_ok hname, rfl⟩
  · cases hbuild

/-- What the replay made of an event it did not raise on: the registry it left, and whether it
stopped there. -/
inductive Consumes (env : Env) (decisionId : String) (metrics : Metrics) (evt : PyDict) : Metrics → Bool → Prop
  | commit {record : MetricRecord} : evt.hasType "MetricCommitted" = true →
    committedRecord env decisionId evt = .ok record →
    Consumes env decisionId metrics evt (metrics.set record.metricName record) false
  | reject {record : MetricRecord} : evt.hasType "MetricRejected" = true →
    rejectedRecord env decisionId evt = .ok record → metrics.get? record.metricName = none →
    Consumes env decisionId metrics evt (metrics.set record.metricName record) false
  | recorded {name : String} {record : MetricRecord} : evt.hasType "MetricRejected" = true →
    evt.get? "metric_name" = some (.str name) → metrics.get? name = some record →
    Consumes env decisionId metrics evt metrics false
  | supersede {name : String} {record : MetricRecord} {by_ : Json} : evt.hasType "MetricSuperseded" = true →
    evt.get? "metric_name" = some (.str name) → metrics.get? name = some record →
    Consumes env decisionId metrics evt (metrics.set name (MetricsRegistry.supersede record by_)) true
  | unknown : evt.hasType "MetricSuperseded" = true →
    (∀ name, evt.text? "metric_name" = some name → metrics.get? name = none) →
    Consumes env decisionId metrics evt metrics false
  | other : evt.hasType "MetricCommitted" = false → evt.hasType "MetricRejected" = false →
    evt.hasType "MetricSuperseded" = false → Consumes env decisionId metrics evt metrics false

theorem recordOf?_some {metrics : Metrics} {name : Json} {text : String} {record : MetricRecord}
    (h : recordOf? metrics name = .ok (some (text, record))) :
    name = .str text ∧ metrics.get? text = some record := by
  cases name with
  | str other =>
    obtain ⟨found, hget, hpair⟩ := Option.map_eq_some_iff.mp (Except.ok.inj h)
    obtain ⟨rfl, rfl⟩ := Prod.mk.inj hpair
    exact ⟨rfl, hget⟩
  | _ => cases h

theorem recordOf?_none {metrics : Metrics} {text : String}
    (h : recordOf? metrics (.str text) = .ok none) : metrics.get? text = none :=
  Option.map_eq_none_iff.mp (Except.ok.inj h)

/-- Everything a round that does not raise can do. -/
theorem consume_ok {metrics next : Metrics} {evt : PyDict} {stop : Bool}
    (h : consume env decisionId metrics evt = .ok (next, stop)) :
    Consumes env decisionId metrics evt next stop := by
  unfold consume at h
  split at h
  · rename_i hcommit
    obtain ⟨record, hrecord, hround⟩ := bind_eq_ok.mp h
    cases hround
    exact .commit hcommit hrecord
  · rename_i hcommit
    split at h
    · rename_i hreject
      obtain ⟨name, hname, hlookup⟩ := bind_eq_ok.mp h
      obtain ⟨found, hfound, hround⟩ := bind_eq_ok.mp hlookup
      cases found with
      | some pair =>
        obtain ⟨rfl, hget⟩ := recordOf?_some hfound
        cases hround
        exact .recorded hreject (item_ok hname) hget
      | none =>
        obtain ⟨record, hrecord, hlast⟩ := bind_eq_ok.mp hround
        obtain rfl := Option.some.inj ((item_ok hname).symm.trans (rejectedRecord_ok hrecord).1)
        cases hlast
        exact .reject hreject hrecord (recordOf?_none hfound)
    · rename_i hreject
      split at h
      · rename_i hsupersede
        obtain ⟨name, hname, hlookup⟩ := bind_eq_ok.mp h
        obtain ⟨found, hfound, hround⟩ := bind_eq_ok.mp hlookup
        cases found with
        | some pair =>
          obtain ⟨rfl, hget⟩ := recordOf?_some hfound
          obtain ⟨by_, -, hlast⟩ := bind_eq_ok.mp hround
          cases hlast
          exact .supersede hsupersede (item_ok hname) hget
        | none =>
          cases hround
          refine .unknown hsupersede ?_
          intro text htext
          obtain rfl := Option.some.inj ((item_ok hname).symm.trans (PyDict.get?_of_text? htext))
          exact recordOf?_none hfound
      · rename_i hsupersede
        cases h
        exact .other (by simpa using hcommit) (by simpa using hreject) (by simpa using hsupersede)

/-- One round of a replay that succeeds. -/
theorem replay_cons_ok {metrics after : Metrics} {evt : PyDict} {rest : List PyDict}
    (h : replay env decisionId metrics (evt :: rest) = .ok after) :
    ∃ next stop, Consumes env decisionId metrics evt next stop ∧
      if stop then after = next else replay env decisionId next rest = .ok after := by
  rw [replay_cons] at h
  obtain ⟨⟨next, stop⟩, hround, hrest⟩ := bind_eq_ok.mp h
  refine ⟨next, stop, consume_ok hround, ?_⟩
  cases stop with
  | true => exact (Except.ok.inj hrest).symm
  | false => exact hrest

section Consumes

variable {metrics next : Metrics} {evt : PyDict} {stop : Bool} {seen : List String}

/-- The replay stops where the replayed part of the stream ends. -/
theorem Consumes.replayed (h : Consumes env decisionId metrics evt next stop)
    (hseen : Lists seen metrics) (rest : List PyDict) :
    replayed seen (evt :: rest) =
      if stop then [evt] else evt :: replayed ((recordedMetric evt).toList ++ seen) rest := by
  rw [MetricsRegistry.replayed]
  cases h with
  | commit htype _ => simp [hasType_of_hasType htype (by decide : _ ≠ "MetricSuperseded")]
  | reject htype _ _ => simp [hasType_of_hasType htype (by decide : _ ≠ "MetricSuperseded")]
  | recorded htype _ _ => simp [hasType_of_hasType htype (by decide : _ ≠ "MetricSuperseded")]
  | @supersede name record _ htype hname hget =>
    have hmem : name ∈ seen := by simp [hseen name, Dict.contains, hget]
    simp [htype, text?_of_get? hname, hmem]
  | unknown htype hnone =>
    have hmem : ¬ ∃ name ∈ seen, evt.text? "metric_name" = some name := by
      rintro ⟨name, hname, htext⟩
      rw [hseen name, Dict.contains, hnone name htext] at hname
      cases hname
    simp [hmem]
  | other _ _ htype => simp [htype]

/-- The names seen so far are those with a record. -/
theorem Consumes.mem_seen (h : Consumes env decisionId metrics evt next false)
    (hseen : Lists seen metrics) : Lists ((recordedMetric evt).toList ++ seen) next := by
  have hset (record : MetricRecord) (hrecorded : recordedMetric evt = some record.metricName) :
      Lists ((recordedMetric evt).toList ++ seen) (metrics.set record.metricName record) := by
    rw [hrecorded]
    exact hseen.set record.metricName record
  have hskip (hrecorded : recordedMetric evt = none) :
      Lists ((recordedMetric evt).toList ++ seen) metrics := by
    rw [hrecorded]
    exact hseen
  cases h with
  | commit htype hrecord =>
    exact hset _ (by simp [recordedMetric, htype, text?_of_get? (committedRecord_ok hrecord).1])
  | reject htype hrecord _ =>
    exact hset _ (by simp [recordedMetric, htype, text?_of_get? (rejectedRecord_ok hrecord).1])
  | @recorded known record htype hname hget =>
    have hrecorded : recordedMetric evt = some known := by
      simp [recordedMetric, htype, text?_of_get? hname]
    rw [hrecorded]
    exact hseen.known (by simp [Dict.contains, hget])
  | unknown htype _ =>
    exact hskip (by simp [recordedMetric, hasType_of_hasType htype (by decide : _ ≠ "MetricCommitted"),
      hasType_of_hasType htype (by decide : _ ≠ "MetricRejected")])
  | other hcommit hreject _ => exact hskip (by simp [recordedMetric, hcommit, hreject])

theorem Consumes.of_committed (h : Consumes env decisionId metrics evt next stop)
    (htype : evt.hasType "MetricCommitted" = true) : ∃ record, committedRecord env decisionId evt = .ok record ∧
      next = metrics.set record.metricName record ∧ stop = false := by
  cases h with
  | commit _ hrecord => exact ⟨_, hrecord, rfl, rfl⟩
  | other hcommit _ _ => simp [hcommit] at htype
  | reject hother | recorded hother | supersede hother | unknown hother =>
    simp [hasType_of_hasType hother (by decide : _ ≠ "MetricCommitted")] at htype

/-- Only a commit makes a record committed. -/
theorem Consumes.get?_of_committed (h : Consumes env decisionId metrics evt next stop)
    (htype : evt.hasType "MetricCommitted" = false) {name : String} {record : MetricRecord}
    (hget : next.get? name = some record) (hstatus : record.status = .committed) :
    metrics.get? name = some record := by
  have hset {key : String} {new : MetricRecord} (hnew : new.status ≠ .committed)
      (hget : (metrics.set key new).get? name = some record) : metrics.get? name = some record := by
    rw [Dict.get?_set] at hget
    split at hget
    · obtain rfl := Option.some.inj hget
      exact absurd hstatus hnew
    · exact hget
  cases h with
  | commit hcommit _ => simp [hcommit] at htype
  | reject _ hrecord _ => exact hset (by simp [(rejectedRecord_ok hrecord).2]) hget
  | supersede _ _ _ => exact hset (by simp [MetricsRegistry.supersede]) hget
  | recorded _ _ _ => exact hget
  | unknown _ _ => exact hget
  | other _ _ _ => exact hget

/-- A round leaves the registry or sets one record in it. -/
theorem Consumes.keeps {inv : Metrics → Prop} (h : Consumes env decisionId metrics evt next stop)
    (hset : ∀ metrics key record, inv metrics → inv (metrics.set key record)) (hinv : inv metrics) :
    inv next := by
  cases h with
  | commit _ _ => exact hset _ _ _ hinv
  | reject _ _ _ => exact hset _ _ _ hinv
  | supersede _ _ _ => exact hset _ _ _ hinv
  | _ => exact hinv

end Consumes

/-- A property of the records an event can build, kept by supersession, holds of every record of the
registry. -/
theorem replay_records (inv : MetricRecord → Prop) {log : List PyDict} {metrics after : Metrics}
    (h : replay env decisionId metrics log = .ok after)
    (committed : ∀ evt ∈ log, evt.hasType "MetricCommitted" = true →
      ∀ record, committedRecord env decisionId evt = .ok record → inv record)
    (rejected : ∀ evt ∈ log, evt.hasType "MetricRejected" = true →
      ∀ record, rejectedRecord env decisionId evt = .ok record → inv record)
    (superseded : ∀ record by_, inv record → inv (MetricsRegistry.supersede record by_))
    (hall : ∀ name record, metrics.get? name = some record → inv record) :
    ∀ name record, after.get? name = some record → inv record := by
  induction log generalizing metrics with
  | nil =>
    obtain rfl := Except.ok.inj h
    exact hall
  | cons evt rest ih =>
    obtain ⟨next, stop, hconsumes, hrest⟩ := replay_cons_ok h
    have hset {key : String} {new : MetricRecord} (hnew : inv new) :
        ∀ name record, (metrics.set key new).get? name = some record → inv record := by
      intro name record hget
      rw [Dict.get?_set] at hget
      split at hget
      · rw [← Option.some.inj hget]
        exact hnew
      · exact hall name record hget
    have hnext : ∀ name record, next.get? name = some record → inv record := by
      cases hconsumes with
      | commit htype hrecord => exact hset (committed evt List.mem_cons_self htype _ hrecord)
      | reject htype hrecord _ => exact hset (rejected evt List.mem_cons_self htype _ hrecord)
      | supersede _ _ hget => exact hset (superseded _ _ (hall _ _ hget))
      | _ => exact hall
    cases stop with
    | true =>
      obtain rfl : after = next := hrest
      exact hnext
    | false =>
      exact ih hrest (fun other hother ↦ committed other (List.mem_cons_of_mem _ hother))
        (fun other hother ↦ rejected other (List.mem_cons_of_mem _ hother)) hnext

/-- A commit with the leaf hash its record was given. -/
def CarriesLeaf (evt : PyDict) (leaf : Option String) : Prop :=
  ∃ leafHash, evt.get? "leaf_hash" = some leafHash ∧ leafHashField? leafHash = some leaf

/-- Every replayed commit of a replay that succeeds carries a leaf hash, or none explicitly. -/
theorem replayed_commit_carriesLeaf {log : List PyDict} {metrics after : Metrics} {seen : List String}
    (h : replay env decisionId metrics log = .ok after)
    (hseen : Lists seen metrics) :
    ∀ evt ∈ replayed seen log, evt.hasType "MetricCommitted" = true → ∃ leaf, CarriesLeaf evt leaf := by
  induction log generalizing metrics seen with
  | nil => simp [replayed]
  | cons first rest ih =>
    obtain ⟨next, stop, hconsumes, hrest⟩ := replay_cons_ok h
    have hfirst (htype : first.hasType "MetricCommitted" = true) : ∃ leaf, CarriesLeaf first leaf := by
      obtain ⟨record, hrecord, -, -⟩ := hconsumes.of_committed htype
      exact ⟨_, (committedRecord_ok hrecord).2.2⟩
    rw [hconsumes.replayed hseen]
    intro evt hevt htype
    cases stop with
    | true =>
      obtain rfl : evt = first := by simpa using hevt
      exact hfirst htype
    | false =>
      rcases List.mem_cons.mp hevt with rfl | hmem
      · exact hfirst htype
      · exact ih hrest (hconsumes.mem_seen hseen) evt hmem htype

/-- A committed record that a replay shows has the leaf of the last replayed commit of its metric. -/
theorem replay_shows_last {log : List PyDict} {metrics after : Metrics} {seen : List String}
    (h : replay env decisionId metrics log = .ok after)
    (hseen : Lists seen metrics) {name : String} {record : MetricRecord}
    (hget : after.get? name = some record) (hstatus : record.status = .committed) :
    (∀ evt, ((replayed seen log).filter (commitsMetric name)).getLast? = some evt →
      CarriesLeaf evt record.leafHash) ∧
    (((replayed seen log).filter (commitsMetric name)).getLast? = none → metrics.get? name = some record) := by
  induction log generalizing metrics seen with
  | nil =>
    obtain rfl := Except.ok.inj h
    simpa [replayed] using hget
  | cons first rest ih =>
    obtain ⟨next, stop, hconsumes, hrest⟩ := replay_cons_ok h
    rw [hconsumes.replayed hseen]
    by_cases htype : first.hasType "MetricCommitted" = true
    · -- The commit is the shown one unless a later one of its metric follows.
      obtain ⟨new, hrecord, rfl, rfl⟩ := hconsumes.of_committed htype
      obtain ⟨hname, -, hleaf⟩ := committedRecord_ok hrecord
      obtain ⟨hsome, hnone⟩ := ih hrest (hconsumes.mem_seen hseen)
      have hcommits : commitsMetric name first = decide (new.metricName = name) := by
        simp [commitsMetric, htype, text?_of_get? hname]
      rw [if_neg Bool.false_ne_true, List.filter_cons, hcommits]
      rw [Dict.get?_set] at hnone
      by_cases heq : new.metricName = name
      · rw [decide_eq_true heq, if_pos rfl, List.getLast?_cons]
        refine ⟨?_, by simp⟩
        rintro evt ⟨⟩
        rw [if_pos heq] at hnone
        cases hlast : ((replayed ((recordedMetric first).toList ++ seen) rest).filter
            (commitsMetric name)).getLast? with
        | some found => exact hsome found hlast
        | none =>
          obtain rfl := Option.some.inj (hnone hlast)
          exact hleaf
      · rw [decide_eq_false heq, if_neg Bool.false_ne_true]
        rw [if_neg heq] at hnone
        exact ⟨hsome, hnone⟩
    · rw [Bool.not_eq_true] at htype
      have hcommits : commitsMetric name first = false := by simp [commitsMetric, htype]
      cases stop with
      | true =>
        obtain rfl : after = next := hrest
        have hbefore := hconsumes.get?_of_committed htype hget hstatus
        simp [hcommits, hbefore]
      | false =>
        obtain ⟨hsome, hnone⟩ := ih hrest (hconsumes.mem_seen hseen)
        rw [if_neg Bool.false_ne_true, List.filter_cons, hcommits, if_neg Bool.false_ne_true]
        exact ⟨hsome, fun hlast ↦ hconsumes.get?_of_committed htype (hnone hlast) hstatus⟩

end DecisionCore.MetricsRegistry
