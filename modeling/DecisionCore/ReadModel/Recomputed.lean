import DecisionCore.Infrastructure.LocalEnv
import DecisionCore.ReadModel.Streams

/-!
# Recomputing a leaf from its record

Evidence references are sorted and made unique in the leaf formula, only sorted in the event, and
made unique again by the model of the record; the moment of the commit is cut to milliseconds in the
event and read back.  An auditor who applies the leaf formula to a rebuilt record still gets the leaf
hash the record carries, also after a supersession.
-/

namespace DecisionCore

open CommandHandler MetricsRegistry

variable {env : Env}

/-- The leaf hash of a record, if it has one, is the leaf formula of its fields. -/
def ReproducesLeaf (env : Env) (record : MetricRecord) : Prop :=
  ∀ leafHash, record.leafHash = some leafHash →
    hex (computeLeafHash env record.decisionId record.metricName record.value
      (env.isoformat record.createdAt) record.evidenceRefs record.idempotencyKey) = leafHash

/-- The leaf formula takes its references as a set. -/
theorem computeLeafHash_congr (env : Env) (decisionId metricName : String) (value : Json)
    (timestampIso idempotencyKey : String) {first second : List String}
    (h : ∀ ref, ref ∈ first ↔ ref ∈ second) :
    computeLeafHash env decisionId metricName value timestampIso first idempotencyKey =
      computeLeafHash env decisionId metricName value timestampIso second idempotencyKey := by
  rw [computeLeafHash, computeLeafHash, leafPreimage, leafPreimage, sortedSet_congr h]

theorem Commit.reproducesLeaf (htexts : env.MillisecondTexts) (commit : Commit) (proposedBy : String) :
    ReproducesLeaf env (commit.record env proposedBy) := by
  rintro leafHash ⟨⟩
  have hmem (ref : String) : ref ∈ sortedSet (sorted commit.evidenceRefs) ↔ ref ∈ commit.evidenceRefs := by
    rw [mem_sortedSet, mem_sorted]
  simp only [Commit.record, htexts commit.now]
  rw [computeLeafHash_congr env _ _ _ _ _ hmem]
  rfl

theorem ReproducesLeaf.supersede {record : MetricRecord} (h : ReproducesLeaf env record) (by_ : Json) :
    ReproducesLeaf env (supersede record by_) := h

/-- A rejection has no leaf. -/
theorem rejectedRecord_leafHash {decisionId : String} {evt : PyDict} {record : MetricRecord}
    (h : rejectedRecord env decisionId evt = .ok record) : record.leafHash = none := by
  simp only [rejectedRecord, bind_eq_ok] at h
  obtain ⟨metricName, -, idempotencyKey, -, occurredAt, -, createdAt, -, hbuild⟩ := h
  unfold MetricRecord.build at hbuild
  split at hbuild
  · rename_i hfield
    obtain rfl := Except.ok.inj hbuild
    exact (Option.some.inj hfield).symm
  · cases hbuild

/-- The registry reads an honest commit as the record of that commit. -/
theorem committedRecord_entry (hdigest : env.DigestSized) (commit : Commit) (eventId : String)
    {proposedBy : String} (hproposed : commit.proposedBy = .str proposedBy) :
    committedRecord env commit.decisionId (commit.entry env eventId).record =
      .ok (commit.record env proposedBy) := by
  cases commit.reads hdigest eventId hproposed with
  | commit _ hrecord _ _ _ => exact hrecord

section Runs

variable {maxLeaves : ℤ} {maxSeconds : ℚ} {trace : List (System × Label)} {last : System}

/-- The commits in the stream of a conforming run are read as records that reproduce their leaf. -/
theorem Run.committed_reproducesLeaf
    (run : Run (System.step env) (System.initial maxLeaves maxSeconds) trace last)
    (conforms : Along (fun _ label ↦ label.Starts (Call.Conforms env)) trace) (hdigest : env.DigestSized)
    (htexts : env.MillisecondTexts) {decisionId : String} {evt : PyDict}
    (hevt : evt ∈ last.state.auditTrail.readRange decisionId 0) (htype : evt.hasType "MetricCommitted" = true)
    {record : MetricRecord} (hrecord : committedRecord env decisionId evt = .ok record) :
    ReproducesLeaf env record := by
  obtain ⟨entry, hentry, rfl⟩ := List.mem_map.mp hevt
  obtain ⟨hmem, hdecision⟩ := MemoryAuditTrail.mem_entriesOf.mp hentry
  obtain ⟨call, hconforms, hstores⟩ := (run.storedBy conforms).2 entry hmem
  rw [(hstores.honest hconforms.honest).hasType, decide_eq_true_eq] at htype
  rcases hstores with horigin | ⟨commit, hcommits, hcommit⟩
  · exact absurd htype horigin.eventType_ne_committed
  · obtain ⟨proposedBy, hproposed⟩ := hcommits.proposedBy hconforms
    rw [hcommit] at hdecision hrecord
    obtain rfl : commit.decisionId = decisionId := Json.str.inj hdecision
    rw [committedRecord_entry hdigest commit entry.eventId hproposed] at hrecord
    rw [← Except.ok.inj hrecord]
    exact commit.reproducesLeaf htexts proposedBy

/-- In every conforming run the registry of every decision can be rebuilt, and each of its records
with a leaf hash reproduces it. -/
theorem rebuilt_record_reproduces_leaf
    (run : Run (System.step env) (System.initial maxLeaves maxSeconds) trace last)
    (conforms : Along (fun _ label ↦ label.Starts (Call.Conforms env)) trace) (hdigest : env.DigestSized)
    (htexts : env.MillisecondTexts) (decisionId : String) :
    ∃ metrics, reconstruct env decisionId (last.state.auditTrail.readRange decisionId 0) = .ok metrics ∧
      ∀ name record, metrics.get? name = some record → ∀ leafHash, record.leafHash = some leafHash →
        hex (computeLeafHash env record.decisionId record.metricName record.value
          (env.isoformat record.createdAt) record.evidenceRefs record.idempotencyKey) = leafHash := by
  obtain ⟨changes, hchanges⟩ := (run.readable conforms hdigest decisionId).changes
  have hmetrics : reconstruct env decisionId (last.state.auditTrail.readRange decisionId 0) =
      .ok (settle .empty changes) := replay_eq_settle hchanges .empty
  refine ⟨_, hmetrics, ?_⟩
  have hall : ∀ name record, (settle .empty changes).get? name = some record → ReproducesLeaf env record := by
    apply replay_records (ReproducesLeaf env) hmetrics
    · intro evt hevt htype record hrecord
      exact run.committed_reproducesLeaf conforms hdigest htexts hevt htype hrecord
    · intro evt _ _ record hrecord leafHash hleaf
      rw [rejectedRecord_leafHash hrecord] at hleaf
      cases hleaf
    · exact fun record by_ h ↦ h.supersede by_
    · simp
  exact hall

end Runs

/-- A commit whose references come unordered and repeated, superseded afterwards. -/
def supersededCommit : List Label :=
  uninterrupted (.updateMetric { sampleCommand with evidenceRefs := ["e2", "e1", "e2"] }) 2 ++
    uninterrupted (.supersede ⟨"d1", "roi", "", "late evidence", "k2"⟩) 1

/-- The superseded record still reproduces its leaf. -/
theorem superseded_record_reproduces_leaf :
    ∃ last, follow (System.step .local) (System.initial 100 60) supersededCommit = some last ∧
      ∃ metrics, reconstruct .local "d1" (last.state.auditTrail.readRange "d1" 0) = .ok metrics ∧
        ∃ record leafHash, metrics.get? "roi" = some record ∧ record.status = .superseded ∧
          record.leafHash = some leafHash ∧
          hex (computeLeafHash .local record.decisionId record.metricName record.value
            (Env.local.isoformat record.createdAt) record.evidenceRefs record.idempotencyKey) = leafHash := by
  have hrun : (follow (System.step .local) (System.initial 100 60) supersededCommit).any (fun last ↦
      decide ((reconstruct .local "d1" (last.state.auditTrail.readRange "d1" 0)).toOption.any fun metrics ↦
        (metrics.get? "roi").any fun record ↦
          decide (record.status = .superseded) && record.leafHash.isSome)) = true := by decide +kernel
  obtain ⟨last, hlast, hshown⟩ := exists_follow hrun
  obtain ⟨metrics, hmetrics, hall⟩ := rebuilt_record_reproduces_leaf (Run.of_follow hlast)
    (along_traceOf (by simp [supersededCommit, uninterrupted, Label.Starts, Call.Conforms]))
    Env.local_digestSized Env.local_millisecondTexts "d1"
  rw [hmetrics, Except.toOption, Option.any_some] at hshown
  obtain ⟨record, hrecord, hfacts⟩ := (Option.any_eq_true _ _).mp hshown
  obtain ⟨hstatus, hleaf⟩ := Bool.and_eq_true_iff.mp hfacts
  obtain ⟨leafHash, hleafHash⟩ := Option.isSome_iff_exists.mp hleaf
  exact ⟨last, hlast, metrics, hmetrics, record, leafHash, hrecord, of_decide_eq_true hstatus, hleafHash,
    hall "roi" record hrecord leafHash hleafHash⟩

end DecisionCore
