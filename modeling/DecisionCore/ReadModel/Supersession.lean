import DecisionCore.Infrastructure.LocalEnv
import DecisionCore.ReadModel.Histories

/-!
# What a supersession does to the registry

A replay metric by metric would lose nothing, and a supersession would change the commit it names.  The replay of the
code does the first as long as no supersession finds a metric with a record, and the second when the supersession finds
none or names the last commit: the leaf hash in a supersession is never read.
-/

namespace DecisionCore

open MetricsRegistry

variable {env : Env} {decisionId name : String}

/-! ## The events about one metric -/

/-- The event is of a type that the registry looks at. -/
def isRegistryEvent (evt : PyDict) : Bool :=
  evt.hasType "MetricCommitted" || evt.hasType "MetricRejected" || evt.hasType "MetricSuperseded"

/-- Of the events that the registry looks at, those that name the metric are about it; which other events are about it
is left open. -/
def Selects (about : PyDict → Bool) (name : String) : Prop :=
  ∀ evt, isRegistryEvent evt = true → (about evt = true ↔ evt.text? "metric_name" = some name)

namespace Selects

variable {about : PyDict → Bool}

theorem of_commits (h : Selects about name) {evt : PyDict} (hevt : commitsMetric name evt = true) :
    about evt = true := by
  simp only [commitsMetric, Bool.and_eq_true, decide_eq_true_eq] at hevt
  exact (h evt (by simp [isRegistryEvent, hevt.1])).mpr hevt.2

theorem of_rejects (h : Selects about name) {evt : PyDict} (hevt : rejectsMetric name evt = true) :
    about evt = true := by
  simp only [rejectsMetric, Bool.and_eq_true, decide_eq_true_eq] at hevt
  exact (h evt (by simp [isRegistryEvent, hevt.1])).mpr hevt.2

theorem of_recorded (h : Selects about name) {evt : PyDict} (hevt : recordedMetric evt = some name) :
    about evt = true := by
  cases recordedMetric_eq_some_iff.mp hevt with
  | inl hcommits => exact h.of_commits hcommits
  | inr hrejects => exact h.of_rejects hrejects

/-- A supersession is about the metric it supersedes only. -/
theorem iff_of_supersedes (h : Selects about name) {evt : PyDict} {target : String}
    (hevt : supersedesMetric target evt = true) : about evt = true ↔ target = name := by
  simp only [supersedesMetric, Bool.and_eq_true, decide_eq_true_eq] at hevt
  rw [h evt (by simp [isRegistryEvent, hevt.1]), hevt.2, Option.some.injEq]

theorem eq_of_recorded (h : Selects about name) {evt : PyDict} {target : String}
    (hevt : recordedMetric evt = some target) (habout : about evt = true) : target = name := by
  have hregistry : isRegistryEvent evt = true := by
    unfold recordedMetric at hevt
    split at hevt
    · rename_i htype
      simp [isRegistryEvent, htype]
    · cases hevt
  have htext := (h evt hregistry).mp habout
  unfold recordedMetric at hevt
  split at hevt
  · exact Option.some.inj (hevt.symm.trans htext)
  · cases hevt

theorem filter_commits (h : Selects about name) (log : List PyDict) :
    (log.filter about).filter (commitsMetric name) = log.filter (commitsMetric name) := by
  rw [List.filter_filter]
  apply List.filter_congr
  intro evt _
  cases hevt : commitsMetric name evt with
  | false => rfl
  | true => simp [h.of_commits hevt]

theorem find?_rejects (h : Selects about name) (log : List PyDict) :
    (log.filter about).find? (rejectsMetric name) = log.find? (rejectsMetric name) := by
  rw [List.find?_filter]
  congr 1
  funext evt
  cases hevt : rejectsMetric name evt with
  | false => simp
  | true => simp [h.of_rejects hevt]

/-- The events about a metric give it the record that all events do. -/
theorem holder_filter (h : Selects about name) (env : Env) (decisionId : String) (log : List PyDict) :
    holder env decisionId name (log.filter about) = holder env decisionId name log := by
  unfold holder lastCommit firstRejection
  rw [h.filter_commits, h.find?_rejects]

/-- A commit behind which nothing is about the metric is its last commit. -/
theorem lastCommit_of_getLast? (h : Selects about name) (env : Env) (decisionId : String) {log : List PyDict}
    {evt : PyDict} (hlast : (log.filter about).getLast? = some evt) (htype : evt.hasType "MetricCommitted" = true) :
    commitsMetric name evt = true ∧
      lastCommit env decisionId name log = (committedRecord env decisionId evt).toOption := by
  have habout : about evt = true := (List.mem_filter.mp (List.mem_of_getLast? hlast)).2
  have hcommits : commitsMetric name evt = true := by
    simp [commitsMetric, htype, (h evt (by simp [isRegistryEvent, htype])).mp habout]
  obtain ⟨init, hinit⟩ := List.getLast?_eq_some_iff.mp hlast
  refine ⟨hcommits, ?_⟩
  calc
    lastCommit env decisionId name log = lastCommit env decisionId name (init ++ [evt]) := by
      rw [lastCommit, ← h.filter_commits, hinit, lastCommit]
    _ = (committedRecord env decisionId evt).toOption := by rw [lastCommit_concat, if_pos hcommits]

/-- The events about a metric supersede no metric that has no supersession in the whole log. -/
theorem unsuperseded_filter {log : List PyDict} (h : Unsuperseded log) : Unsuperseded (log.filter about) :=
  List.Pairwise.filter about h

theorem returns_filter (h : Selects about name) {front : List PyDict} {evt : PyDict}
    (hreturns : Returns front evt name) : Returns (front.filter about) evt name where
  unsuperseded := unsuperseded_filter hreturns.unsuperseded
  recorded := by
    obtain ⟨earlier, hmem, hrecorded⟩ := hreturns.recorded
    exact ⟨earlier, List.mem_filter.mpr ⟨hmem, h.of_recorded hrecorded⟩, hrecorded⟩
  supersedes := hreturns.supersedes

end Selects

/-! ## Replay metric by metric -/

/-- The registry shows the metric as if its own events were the only ones, and a commit behind which nothing is about
the metric is what it shows. -/
structure PerMetric (env : Env) (decisionId : String) (about : PyDict → Bool) (events : List PyDict) (name : String) :
    Prop where
  alone : recordAfter env decisionId events name = recordAfter env decisionId (events.filter about) name
  last : ∀ evt, (events.filter about).getLast? = some evt → evt.hasType "MetricCommitted" = true →
    ∃ record, committedRecord env decisionId evt = .ok record ∧ record.status = .committed ∧
      recordAfter env decisionId events name = .ok (some record)

/-- The condition when the replay returns behind `front`: a supersession of the metric itself has no commit of the
metric as the last event about it, and one of another metric leaves behind neither a supersession of this metric nor a
change of its record. -/
def LosesNothing (env : Env) (decisionId : String) (about : PyDict → Bool) (events front : List PyDict)
    (target name : String) : Prop :=
  if target = name then ∀ last, (events.filter about).getLast? = some last → last.hasType "MetricCommitted" = false
  else Unsuperseded (events.filter about) ∧ holder env decisionId name front = holder env decisionId name events

section PerMetric

variable {about : PyDict → Bool} {events front back : List PyDict} {evt : PyDict} {target : String}

/-- What is shown as the record of the commits and rejections is a last commit. -/
theorem PerMetric.last_of_holder (hread : ∀ evt ∈ events, ∃ change, Reads env decisionId evt change)
    (hselects : Selects about name)
    (hshown : recordAfter env decisionId events name = .ok (holder env decisionId name events)) :
    ∀ evt, (events.filter about).getLast? = some evt → evt.hasType "MetricCommitted" = true →
      ∃ record, committedRecord env decisionId evt = .ok record ∧ record.status = .committed ∧
        recordAfter env decisionId events name = .ok (some record) := by
  intro evt hlast htype
  obtain ⟨hcommits, hholder⟩ := hselects.lastCommit_of_getLast? env decisionId hlast htype
  have hmem : evt ∈ events := (List.mem_filter.mp (List.mem_of_getLast? hlast)).1
  obtain ⟨change, hchange⟩ := hread evt hmem
  obtain ⟨record, -, hrecord, -, hstatus⟩ := hchange.commit_of_commits hcommits
  refine ⟨record, hrecord, hstatus, ?_⟩
  rw [hshown, holder, hholder, hrecord]
  rfl

theorem perMetric_of_unsuperseded (hread : ∀ evt ∈ events, ∃ change, Reads env decisionId evt change)
    (hselects : Selects about name) (h : Unsuperseded events) : PerMetric env decisionId about events name where
  alone := by
    have hfilter : ∀ evt ∈ events.filter about, ∃ change, Reads env decisionId evt change :=
      fun evt hevt ↦ hread evt (List.mem_filter.mp hevt).1
    rw [recordAfter_of_unsuperseded hread h, recordAfter_of_unsuperseded hfilter (Selects.unsuperseded_filter h),
      hselects.holder_filter]
  last := PerMetric.last_of_holder hread hselects (recordAfter_of_unsuperseded hread h name)

/-- The replay returns at a supersession of the metric itself. -/
theorem perMetric_iff_of_own (hread : ∀ other ∈ front ++ evt :: back, ∃ change, Reads env decisionId other change)
    (hselects : Selects about name) (h : Returns front evt name) :
    PerMetric env decisionId about (front ++ evt :: back) name ↔
      ∀ last, ((front ++ evt :: back).filter about).getLast? = some last →
        last.hasType "MetricCommitted" = false := by
  have habout : about evt = true := (hselects.iff_of_supersedes h.supersedes).mpr rfl
  have hsplit : (front ++ evt :: back).filter about = front.filter about ++ evt :: back.filter about := by
    rw [List.filter_append, List.filter_cons_of_pos habout]
  have hfilter : ∀ other ∈ front.filter about ++ evt :: back.filter about,
      ∃ change, Reads env decisionId other change := by
    rw [← hsplit]
    exact fun other hother ↦ hread other (List.mem_filter.mp hother).1
  obtain ⟨by_, hby, hshown⟩ := recordAfter_of_returns hread h
  obtain ⟨other, hother, hown⟩ := recordAfter_of_returns hfilter (hselects.returns_filter h)
  obtain rfl : by_ = other := Option.some.inj (hby.symm.trans hother)
  constructor
  · intro hmetric last hlast
    rw [Bool.eq_false_iff]
    intro htype
    obtain ⟨record, -, hstatus, hrecord⟩ := hmetric.last last hlast htype
    rw [hshown, if_pos rfl] at hrecord
    obtain ⟨old, -, rfl⟩ := Option.map_eq_some_iff.mp (Except.ok.inj hrecord)
    cases hstatus
  · intro hlast
    constructor
    · rw [hshown, hsplit, hown, hselects.holder_filter]
    · intro last hgetLast htype
      simp [hlast last hgetLast] at htype

/-- The replay returns at a supersession of another metric. -/
theorem perMetric_iff_of_other (hread : ∀ other ∈ front ++ evt :: back, ∃ change, Reads env decisionId other change)
    (hselects : Selects about name) (h : Returns front evt target) (hne : target ≠ name) :
    PerMetric env decisionId about (front ++ evt :: back) name ↔
      Unsuperseded ((front ++ evt :: back).filter about) ∧
        holder env decisionId name front = holder env decisionId name (front ++ evt :: back) := by
  have hfilter : ∀ other ∈ (front ++ evt :: back).filter about, ∃ change, Reads env decisionId other change :=
    fun other hother ↦ hread other (List.mem_filter.mp hother).1
  have hfront : ∀ other ∈ front, ∃ change, Reads env decisionId other change :=
    fun other hother ↦ hread other (List.mem_append_left _ hother)
  obtain ⟨by_, -, hshown⟩ := recordAfter_of_returns hread h
  have hshown := hshown name
  rw [if_neg hne] at hshown
  constructor
  · intro hmetric
    have halone := hmetric.alone
    have hopen : Unsuperseded ((front ++ evt :: back).filter about) := by
      by_contra hclosed
      -- The metric's own events would show it as superseded.
      obtain ⟨early, sup, late, own, hsplit, hreturns⟩ := exists_returns hclosed
      have hown : own = name := by
        obtain ⟨earlier, hmem, hrecorded⟩ := hreturns.recorded
        have hmem : earlier ∈ (front ++ evt :: back).filter about := by
          rw [hsplit]
          exact List.mem_append_left _ hmem
        exact hselects.eq_of_recorded hrecorded (List.mem_filter.mp hmem).2
      subst hown
      rw [hsplit] at hfilter
      have hearly := (holder_isSome_iff fun other hother ↦ hfilter other (List.mem_append_left _ hother)).mpr
        hreturns.recorded
      obtain ⟨record, hrecord⟩ := Option.isSome_iff_exists.mp hearly
      obtain ⟨sooner, -, hsuperseded⟩ := recordAfter_of_returns hfilter hreturns
      rw [hshown, hsplit, hsuperseded, if_pos rfl, hrecord] at halone
      exact holder_status hfront (Except.ok.inj halone) rfl
    rw [hshown, recordAfter_of_unsuperseded hfilter hopen, hselects.holder_filter] at halone
    exact ⟨hopen, Except.ok.inj halone⟩
  · rintro ⟨hopen, hholder⟩
    constructor
    · rw [hshown, recordAfter_of_unsuperseded hfilter hopen, hselects.holder_filter, hholder]
    · apply PerMetric.last_of_holder hread hselects
      rw [hshown, hholder]

/-- The replay is per metric and loses nothing exactly when no supersession ends it, or the first one that does costs
the metric nothing. -/
theorem replay_per_metric_iff (hread : ∀ evt ∈ events, ∃ change, Reads env decisionId evt change)
    (hselects : Selects about name) : PerMetric env decisionId about events name ↔ Unsuperseded events ∨
      ∃ front evt back target, events = front ++ evt :: back ∧ Returns front evt target ∧
        LosesNothing env decisionId about events front target name := by
  have hreturns {front : List PyDict} {evt : PyDict} {back : List PyDict} {target : String}
      (hevents : events = front ++ evt :: back) (h : Returns front evt target) :
      PerMetric env decisionId about events name ↔ LosesNothing env decisionId about events front target name := by
    subst hevents
    by_cases htarget : target = name
    · subst htarget
      rw [perMetric_iff_of_own hread hselects h, LosesNothing, if_pos rfl]
    · rw [perMetric_iff_of_other hread hselects h htarget, LosesNothing, if_neg htarget]
  constructor
  · intro hmetric
    by_cases hopen : Unsuperseded events
    · exact .inl hopen
    · obtain ⟨front, evt, back, target, hevents, h⟩ := exists_returns hopen
      exact .inr ⟨front, evt, back, target, hevents, h, (hreturns hevents h).mp hmetric⟩
  · rintro (hopen | ⟨front, evt, back, target, hevents, h, hloses⟩)
    · exact perMetric_of_unsuperseded hread hselects hopen
    · exact (hreturns hevents h).mpr hloses

/-- The leaf hash of one digit. -/
def sampleLeaf (digit : Char) : String := String.ofList (List.replicate 64 digit)

def committedEvent (metricName key : String) (digit : Char) : PyDict :=
  ⟨[("event_type", .str "MetricCommitted"), ("decision_id", .str "d1"), ("metric_name", .str metricName),
    ("value", .int 1), ("evidence_refs", .list [.str "e1"]), ("idempotency_key", .str key),
    ("leaf_hash", .str (sampleLeaf digit)), ("committed_at", .str LocalEnv.epochText), ("proposed_by", .str "agent")]⟩

def supersededEvent (metricName key : String) (digit : Char) : PyDict :=
  ⟨[("event_type", .str "MetricSuperseded"), ("decision_id", .str "d1"), ("metric_name", .str metricName),
    ("original_leaf_hash", .str (sampleLeaf digit)), ("new_risk_context", .str "late signal"),
    ("superseded_by_idempotency_key", .str key), ("occurred_at", .str LocalEnv.epochText)]⟩

theorem committedEvent_reads (metricName key : String) {digit : Char}
    (h : leafHashField? (.str (sampleLeaf digit)) = some (some (sampleLeaf digit))) :
    ∃ change, Reads .local "d1" (committedEvent metricName key digit) change := by
  let record : MetricRecord :=
    { decisionId := "d1", metricName, value := .int 1, proposedBy := "agent", idempotencyKey := key,
      evidenceRefs := sortedSet ["e1"], status := .committed, createdAt := 0, leafHash := some (sampleLeaf digit),
      supersededBy := none }
  have hrecord : committedRecord .local "d1" (committedEvent metricName key digit) = .ok record := by
    simp [committedRecord, committedEvent, item, parse, MetricRecord.build, Json.asStr?, Json.asStrList?, h,
      Env.local, LocalEnv.fromisoformat, bind, Except.bind, record]
  exact ⟨_, .commit rfl hrecord rfl rfl rfl⟩

theorem supersededEvent_reads (metricName key : String) (digit : Char) :
    ∃ change, Reads .local "d1" (supersededEvent metricName key digit) change :=
  ⟨_, .supersede rfl rfl rfl⟩

/-- The events that name the metric. -/
def naming (name : String) (evt : PyDict) : Bool := decide (evt.text? "metric_name" = some name)

theorem selects_naming (name : String) : Selects (naming name) name := by
  intro evt _
  simp [naming]

/-- A commit of another metric in front of a supersession is kept. -/
theorem perMetric_of_commit_in_front : PerMetric .local "d1" (naming "cost")
    [committedEvent "cost" "k1" 'a', committedEvent "roi" "k2" 'b', supersededEvent "roi" "k3" 'b'] "cost" := by
  apply (replay_per_metric_iff ?_ (selects_naming "cost")).mpr
  · right
    refine ⟨[committedEvent "cost" "k1" 'a', committedEvent "roi" "k2" 'b'], supersededEvent "roi" "k3" 'b', [], "roi",
      rfl, ⟨by decide, ⟨_, List.mem_cons_of_mem _ List.mem_cons_self, rfl⟩, by decide⟩, ?_⟩
    rw [LosesNothing, if_neg (by decide)]
    exact ⟨by decide, rfl⟩
  · simp only [List.forall_mem_cons]
    exact ⟨committedEvent_reads _ _ (by decide), committedEvent_reads _ _ (by decide), supersededEvent_reads _ _ _,
      nofun⟩

/-- A commit behind a supersession is lost, of another metric as of the same one. -/
theorem commit_lost_behind_supersession :
    (∀ evt ∈ [committedEvent "roi" "k1" 'a', supersededEvent "roi" "k2" 'a', committedEvent "roi" "k2" 'b',
      committedEvent "cost" "k3" 'c'], ∃ change, Reads .local "d1" evt change) ∧
    ¬ PerMetric .local "d1" (naming "roi") [committedEvent "roi" "k1" 'a', supersededEvent "roi" "k2" 'a',
      committedEvent "roi" "k2" 'b', committedEvent "cost" "k3" 'c'] "roi" ∧
    ¬ PerMetric .local "d1" (naming "cost") [committedEvent "roi" "k1" 'a', supersededEvent "roi" "k2" 'a',
      committedEvent "roi" "k2" 'b', committedEvent "cost" "k3" 'c'] "cost" := by
  have hread : ∀ evt ∈ [committedEvent "roi" "k1" 'a'] ++ supersededEvent "roi" "k2" 'a' ::
      [committedEvent "roi" "k2" 'b', committedEvent "cost" "k3" 'c'], ∃ change, Reads .local "d1" evt change := by
    simp only [List.singleton_append, List.forall_mem_cons]
    exact ⟨committedEvent_reads _ _ (by decide), supersededEvent_reads _ _ _, committedEvent_reads _ _ (by decide),
      committedEvent_reads _ _ (by decide), nofun⟩
  have hreturns : Returns [committedEvent "roi" "k1" 'a'] (supersededEvent "roi" "k2" 'a') "roi" :=
    ⟨by decide, ⟨_, List.mem_cons_self, rfl⟩, by decide⟩
  refine ⟨hread, ?_, ?_⟩
  · intro hmetric
    have hlast := (perMetric_iff_of_own hread (selects_naming "roi") hreturns).mp hmetric
      (committedEvent "roi" "k2" 'b') rfl
    cases hlast
  · intro hmetric
    have hholder := (perMetric_iff_of_other hread (selects_naming "cost") hreturns (by decide)).mp hmetric
    cases hholder.2

end PerMetric

/-! ## The commit a supersession names -/

/-- The supersession names the leaf hash. -/
def NamesLeaf (evt : PyDict) (leafHash : Option String) : Prop :=
  ∃ leaf, evt.text? "original_leaf_hash" = some leaf ∧ leafHash = some leaf

/-- The supersession names the last commit of the metric. -/
def NamesCurrent (log : List PyDict) (name : String) (evt : PyDict) : Prop :=
  ∃ last, (log.filter (commitsMetric name)).getLast? = some last ∧ NamesLeaf evt (last.text? "leaf_hash")

/-- The supersession that stands between `before` and `after` counts only for the commit it names: it makes no
difference when another commit is the current one, neither another commit nor a rejection becomes superseded, and what
it supersedes keeps the fields of the commit. -/
structure HitsNamedCommit (env : Env) (decisionId : String) (before : List PyDict) (evt : PyDict)
    (after : List PyDict) (name : String) : Prop where
  affects : recordAfter env decisionId (before ++ evt :: after) name ≠
    recordAfter env decisionId (before ++ after) name → NamesCurrent before name evt
  newer : ∀ record, recordAfter env decisionId before name = .ok (some record) → record.status = .committed →
    ¬ NamesLeaf evt record.leafHash → recordAfter env decisionId (before ++ [evt]) name = .ok (some record)
  rejected : ∀ record, recordAfter env decisionId before name = .ok (some record) → record.status = .rejected →
    recordAfter env decisionId (before ++ [evt]) name = .ok (some record)
  keeps : ∀ record, recordAfter env decisionId (before ++ [evt]) name = .ok (some record) →
    record.status = .superseded →
    (∀ old, recordAfter env decisionId before name = .ok (some old) → old.status ≠ .superseded) →
    ∃ earlier ∈ before, ∃ commit, commitsMetric name earlier = true ∧
      committedRecord env decisionId earlier = .ok commit ∧ NamesLeaf evt commit.leafHash ∧
      record.value = commit.value ∧ record.evidenceRefs = commit.evidenceRefs ∧
      record.createdAt = commit.createdAt ∧ record.leafHash = commit.leafHash

section HitsNamedCommit

variable {before after log tail : List PyDict} {evt : PyDict}

theorem front_subset (before : List PyDict) (evt : PyDict) (after : List PyDict) :
    before ++ [evt] ⊆ before ++ evt :: after :=
  (List.Sublist.append_left (List.singleton_sublist.mpr List.mem_cons_self) before).subset

theorem rest_subset (before : List PyDict) (evt : PyDict) (after : List PyDict) :
    before ++ after ⊆ before ++ evt :: after :=
  (List.Sublist.append_left (List.sublist_cons_self evt after) before).subset

/-- The leaf hash of a record is the one in its event. -/
theorem leafHash_of_committedRecord {record : MetricRecord} (h : committedRecord env decisionId evt = .ok record) :
    record.leafHash = evt.text? "leaf_hash" := by
  obtain ⟨-, -, leafHash, hget, hfield⟩ := committedRecord_ok h
  rw [PyDict.text?, hget, Option.bind_some]
  unfold leafHashField? at hfield
  split at hfield
  · exact (Option.some.inj hfield).symm
  · split at hfield
    · exact (Option.some.inj hfield).symm
    · cases hfield
  · cases hfield

/-- The last commit of a metric in a readable log, and its record. -/
theorem exists_of_lastCommit (hread : ∀ evt ∈ log, ∃ change, Reads env decisionId evt change) {record : MetricRecord}
    (h : lastCommit env decisionId name log = some record) :
    ∃ evt, (log.filter (commitsMetric name)).getLast? = some evt ∧ evt ∈ log ∧ commitsMetric name evt = true ∧
      committedRecord env decisionId evt = .ok record ∧ record.status = .committed := by
  obtain ⟨evt, hlast, hrecord⟩ := Option.bind_eq_some_iff.mp h
  obtain ⟨hmem, hcommits⟩ := List.mem_filter.mp (List.mem_of_getLast? hlast)
  obtain ⟨change, hchange⟩ := hread evt hmem
  obtain ⟨other, -, hother, -, hstatus⟩ := hchange.commit_of_commits hcommits
  rw [hother] at hrecord
  obtain rfl := Option.some.inj hrecord
  exact ⟨evt, hlast, hmem, hcommits, hother, hstatus⟩

theorem status_of_firstRejection (hread : ∀ evt ∈ log, ∃ change, Reads env decisionId evt change)
    {record : MetricRecord} (h : firstRejection env decisionId name log = some record) :
    record.status = .rejected := by
  obtain ⟨evt, hfirst, hrecord⟩ := Option.bind_eq_some_iff.mp h
  obtain ⟨change, hchange⟩ := hread evt (List.mem_of_find?_eq_some hfirst)
  obtain ⟨other, -, hother, -, hstatus⟩ := hchange.reject_of_rejects (List.find?_some hfirst)
  rw [hother] at hrecord
  obtain rfl := Option.some.inj hrecord
  exact hstatus

/-- Behind a log that has ended the replay nothing counts. -/
theorem recordAfter_append_of_ended (hread : ∀ evt ∈ log ++ tail, ∃ change, Reads env decisionId evt change)
    (h : ¬ Unsuperseded log) (name : String) :
    recordAfter env decisionId (log ++ tail) name = recordAfter env decisionId log name := by
  obtain ⟨front, evt, back, target, rfl, hreturns⟩ := exists_returns h
  have hlog : ∀ other ∈ front ++ evt :: back, ∃ change, Reads env decisionId other change :=
    fun other hother ↦ hread other (List.mem_append_left _ hother)
  rw [List.append_assoc, List.cons_append] at hread ⊢
  obtain ⟨by_, hby, hlong⟩ := recordAfter_of_returns hread hreturns
  obtain ⟨other, hother, hshort⟩ := recordAfter_of_returns hlog hreturns
  obtain rfl : by_ = other := Option.some.inj (hby.symm.trans hother)
  rw [hlong, hshort]

/-- A supersession of a metric without a record does nothing. -/
theorem reconstruct_of_unknown (hread : ∀ other ∈ before ++ evt :: after, ∃ change, Reads env decisionId other change)
    (h : Unsuperseded before) (hevt : supersedesMetric name evt = true)
    (hunknown : ∀ other ∈ before, recordedMetric other ≠ some name) :
    reconstruct env decisionId (before ++ evt :: after) = reconstruct env decisionId (before ++ after) := by
  obtain ⟨read, hread, hlong⟩ := exists_reading hread
  have hbefore : ∀ other ∈ before, Reads env decisionId other (read other) :=
    fun other hother ↦ hread other (List.mem_append_left _ hother)
  have hwith : ∀ other ∈ before ++ [evt], Reads env decisionId other (read other) :=
    fun other hother ↦ hread other (front_subset before evt after hother)
  have hshort : List.Forall₂ (Reads env decisionId) (before ++ after) ((before ++ after).map read) := by
    apply List.forall₂_map_right_iff.mpr
    apply List.forall₂_same.mpr
    exact fun other hother ↦ hread other (rest_subset before evt after hother)
  simp only [supersedesMetric, Bool.and_eq_true, decide_eq_true_eq] at hevt
  have hopen : Unsuperseded (before ++ [evt]) := by
    rw [Unsuperseded, List.pairwise_append]
    refine ⟨h, List.pairwise_singleton _ _, ?_⟩
    intro other hother last hlast found hfound
    obtain rfl := List.mem_singleton.mp hlast
    have hne : name ≠ found := by
      rintro rfl
      exact hunknown other hother hfound
    simp [supersedesMetric, hevt.2, hne]
  have hskip : (read evt).record (absorb (before.map read)) = absorb (before.map read) := by
    have hchange := hread evt (by simp)
    generalize read evt = change at hchange
    cases hchange with
    | commit htype _ _ _ _ => simp [hasType_of_hasType htype (by decide : _ ≠ "MetricSuperseded")] at hevt
    | reject htype _ _ _ => simp [hasType_of_hasType htype (by decide : _ ≠ "MetricSuperseded")] at hevt
    | supersede _ _ _ => rfl
    | skip _ _ _ => rfl
  have hsettle := settle_of_unsuperseded hwith hopen (after.map read)
  rw [List.map_append, List.map_singleton, absorb_concat, hskip, List.append_assoc, List.singleton_append] at hsettle
  rw [reconstruct, replay_eq_settle hlong, reconstruct, replay_eq_settle hshort, List.map_append, List.map_cons,
    hsettle, List.map_append, settle_of_unsuperseded hbefore h]

/-- A supersession that the replay reaches changes the record of the metric, whatever it is. -/
theorem recordAfter_of_known (hread : ∀ other ∈ before ++ [evt], ∃ change, Reads env decisionId other change)
    (h : Unsuperseded before) (hevt : supersedesMetric name evt = true) {record : MetricRecord}
    (hrecord : holder env decisionId name before = some record) :
    ∃ by_, recordAfter env decisionId (before ++ [evt]) name = .ok (some (MetricsRegistry.supersede record by_)) := by
  have hbefore : ∀ other ∈ before, ∃ change, Reads env decisionId other change :=
    fun other hother ↦ hread other (List.mem_append_left _ hother)
  have hsome : (holder env decisionId name before).isSome = true := by rw [hrecord]; rfl
  obtain ⟨by_, -, hshown⟩ := recordAfter_of_returns hread ⟨h, (holder_isSome_iff hbefore).mp hsome, hevt⟩
  refine ⟨by_, ?_⟩
  rw [hshown, if_pos rfl, hrecord]
  rfl

/-- Without any effect the supersession hits no wrong commit. -/
theorem HitsNamedCommit.of_unaffected
    (hsame : recordAfter env decisionId (before ++ evt :: after) name =
      recordAfter env decisionId (before ++ after) name)
    (hkept : recordAfter env decisionId (before ++ [evt]) name = recordAfter env decisionId before name) :
    HitsNamedCommit env decisionId before evt after name where
  affects h := absurd hsame h
  newer record hrecord _ _ := by rw [hkept, hrecord]
  rejected record hrecord _ := by rw [hkept, hrecord]
  keeps record hrecord hstatus hfresh := by
    rw [hkept] at hrecord
    exact absurd hstatus (hfresh record hrecord)

/-- What the replay makes of the commit that the supersession names, when it reaches it. -/
theorem HitsNamedCommit.of_current (hread : ∀ other ∈ before ++ [evt], ∃ change, Reads env decisionId other change)
    (hopen : Unsuperseded before) (hevt : supersedesMetric name evt = true) (h : NamesCurrent before name evt) :
    HitsNamedCommit env decisionId before evt after name := by
  have hbefore : ∀ other ∈ before, ∃ change, Reads env decisionId other change :=
    fun other hother ↦ hread other (List.mem_append_left _ hother)
  obtain ⟨last, hlast, hleaf⟩ := h
  obtain ⟨hmem, hcommits⟩ := List.mem_filter.mp (List.mem_of_getLast? hlast)
  obtain ⟨change, hchange⟩ := hbefore last hmem
  obtain ⟨commit, -, hcommit, -, hstatus⟩ := hchange.commit_of_commits hcommits
  rw [← leafHash_of_committedRecord hcommit] at hleaf
  have hholder : holder env decisionId name before = some commit := by
    rw [holder, lastCommit, hlast, Option.bind_some, hcommit]
    rfl
  have hshown := recordAfter_of_unsuperseded hbefore hopen name
  rw [hholder] at hshown
  obtain ⟨by_, hsuperseded⟩ := recordAfter_of_known hread hopen hevt hholder
  constructor
  · intro _
    exact ⟨last, hlast, by rwa [← leafHash_of_committedRecord hcommit]⟩
  · intro record hrecord _ hother
    obtain rfl := Option.some.inj (Except.ok.inj (hshown.symm.trans hrecord))
    exact absurd hleaf hother
  · intro record hrecord hrejected
    obtain rfl := Option.some.inj (Except.ok.inj (hshown.symm.trans hrecord))
    rw [hstatus] at hrejected
    cases hrejected
  · intro record hrecord _ _
    obtain rfl := Option.some.inj (Except.ok.inj (hsuperseded.symm.trans hrecord))
    exact ⟨last, hmem, commit, hcommits, hcommit, hleaf, rfl, rfl, rfl, rfl⟩

/-- A record that the supersession changes rightly is that of the commit it names. -/
theorem HitsNamedCommit.namesCurrent (h : HitsNamedCommit env decisionId before evt after name)
    (hread : ∀ other ∈ before ++ [evt], ∃ change, Reads env decisionId other change)
    (hopen : Unsuperseded before) (hevt : supersedesMetric name evt = true) {record : MetricRecord}
    (hrecord : holder env decisionId name before = some record) : NamesCurrent before name evt := by
  have hbefore : ∀ other ∈ before, ∃ change, Reads env decisionId other change :=
    fun other hother ↦ hread other (List.mem_append_left _ hother)
  have hshown := recordAfter_of_unsuperseded hbefore hopen name
  rw [hrecord] at hshown
  obtain ⟨by_, hsuperseded⟩ := recordAfter_of_known hread hopen hevt hrecord
  have hchanged : recordAfter env decisionId (before ++ [evt]) name = .ok (some record) →
      record.status = .superseded := by
    intro hkept
    rw [← Option.some.inj (Except.ok.inj (hsuperseded.symm.trans hkept))]
    rfl
  rw [holder, Option.or_eq_some_iff] at hrecord
  rcases hrecord with hcommit | ⟨-, hrejection⟩
  · obtain ⟨last, hlast, -, -, hlastRecord, hstatus⟩ := exists_of_lastCommit hbefore hcommit
    by_cases hleaf : NamesLeaf evt record.leafHash
    · rw [leafHash_of_committedRecord hlastRecord] at hleaf
      exact ⟨last, hlast, hleaf⟩
    · have hstays := hchanged (h.newer record hshown hstatus hleaf)
      rw [hstatus] at hstays
      cases hstays
  · have hstatus := status_of_firstRejection hbefore hrejection
    have hstays := hchanged (h.rejected record hshown hstatus)
    rw [hstatus] at hstays
    cases hstays

/-- A supersession hits exactly the commit it names when the replay does not reach it, when it finds no record, or when
the commit it names is the last one. -/
theorem supersession_hits_named_commit_iff
    (hread : ∀ other ∈ before ++ evt :: after, ∃ change, Reads env decisionId other change)
    (hevt : supersedesMetric name evt = true) : HitsNamedCommit env decisionId before evt after name ↔
      ¬ Unsuperseded before ∨ (∀ earlier ∈ before, recordedMetric earlier ≠ some name) ∨
        NamesCurrent before name evt := by
  have hwith : ∀ other ∈ before ++ [evt], ∃ change, Reads env decisionId other change :=
    fun other hother ↦ hread other (front_subset before evt after hother)
  have hwithout : ∀ other ∈ before ++ after, ∃ change, Reads env decisionId other change :=
    fun other hother ↦ hread other (rest_subset before evt after hother)
  have hbefore : ∀ other ∈ before, ∃ change, Reads env decisionId other change :=
    fun other hother ↦ hread other (List.mem_append_left _ hother)
  constructor
  · intro h
    by_cases hopen : Unsuperseded before
    · right
      cases hholder : holder env decisionId name before with
      | none =>
        left
        intro earlier hmem hrecorded
        have hsome := (holder_isSome_iff hbefore).mpr ⟨earlier, hmem, hrecorded⟩
        simp [hholder] at hsome
      | some record => exact .inr (h.namesCurrent hwith hopen hevt hholder)
    · exact .inl hopen
  · by_cases hopen : Unsuperseded before
    · rintro (hclosed | hunknown | hcurrent)
      · exact absurd hopen hclosed
      · have hsame := reconstruct_of_unknown hread hopen hevt hunknown
        have hkept := reconstruct_of_unknown hwith hopen hevt hunknown
        rw [List.append_nil] at hkept
        apply HitsNamedCommit.of_unaffected
        · rw [recordAfter, hsame, recordAfter]
        · rw [recordAfter, hkept, recordAfter]
      · exact HitsNamedCommit.of_current hwith hopen hevt hcurrent
    · intro _
      apply HitsNamedCommit.of_unaffected
      · rw [recordAfter_append_of_ended hread hopen, recordAfter_append_of_ended hwithout hopen]
      · exact recordAfter_append_of_ended hwith hopen name

/-- The supersession of the only commit. -/
theorem only_commit_superseded : HitsNamedCommit .local "d1" [committedEvent "roi" "k1" 'a']
    (supersededEvent "roi" "k2" 'a') [] "roi" := by
  apply (supersession_hits_named_commit_iff ?_ (by decide)).mpr
  · exact .inr (.inr ⟨committedEvent "roi" "k1" 'a', rfl, sampleLeaf 'a', rfl, rfl⟩)
  · simp only [List.singleton_append, List.forall_mem_cons]
    exact ⟨committedEvent_reads _ _ (by decide), supersededEvent_reads _ _ _, nofun⟩

/-- A late supersession of the first commit hits the second one. -/
theorem newer_commit_superseded :
    (∀ evt ∈ [committedEvent "roi" "k1" 'a', committedEvent "roi" "k2" 'b', supersededEvent "roi" "k3" 'a'],
      ∃ change, Reads .local "d1" evt change) ∧
    ¬ HitsNamedCommit .local "d1" [committedEvent "roi" "k1" 'a', committedEvent "roi" "k2" 'b']
      (supersededEvent "roi" "k3" 'a') [] "roi" := by
  have hread : ∀ evt ∈ [committedEvent "roi" "k1" 'a', committedEvent "roi" "k2" 'b'] ++
      [supersededEvent "roi" "k3" 'a'], ∃ change, Reads .local "d1" evt change := by
    simp only [List.cons_append, List.nil_append, List.forall_mem_cons]
    exact ⟨committedEvent_reads _ _ (by decide), committedEvent_reads _ _ (by decide), supersededEvent_reads _ _ _,
      nofun⟩
  refine ⟨hread, ?_⟩
  intro hhits
  obtain ⟨last, hlast, leaf, hnamed, hleaf⟩ := hhits.namesCurrent hread (by decide) (by decide) rfl
  obtain rfl := Option.some.inj hlast
  exact absurd (hnamed.trans hleaf.symm) (by decide)

end HitsNamedCommit

end DecisionCore
