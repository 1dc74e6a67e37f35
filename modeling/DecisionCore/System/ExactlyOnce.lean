import DecisionCore.System.Custody

/-!
# Exactly-once commits

The commit and the supersede paths share one key index, and the append that decides about a key is
one step.  Whatever calls carry a key and however their steps are interleaved, one event is stored
under it, one call is accepted and one leaf reaches the batches.
-/

namespace DecisionCore

open CommandHandler MerkleAnchorService

variable {env : Env} {maxLeaves : ℤ} {maxSeconds : ℚ} {trace : List (System × Label)} {last : System}

/-- The events stored under a key. -/
def entriesUnder (events : List Entry) (key : String) : List Entry :=
  events.filter fun entry ↦ decide (entry.idempotencyKey = some key)

/-- The leaf belongs to an event stored under the key. -/
def stemsFrom (events : List Entry) (key : String) (leaf : PendingLeaf) : Bool :=
  (entriesUnder events key).any fun entry ↦ decide (entry.eventId = leaf.eventId)

/-- The finished calls with a key that were accepted. -/
def acceptedUnder (answers : List (Call × Answer)) (key : String) : List (Call × Answer) :=
  answers.filter fun pair ↦ decide (acceptedKey? pair = some key)

theorem count_filterMap_eq_length {α β : Type} [DecidableEq β] (f : α → Option β) (items : List α) (key : β) :
    (items.filterMap f).count key = (items.filter fun item ↦ decide (f item = some key)).length := by
  rw [List.count_filterMap, List.countP_eq_length_filter]
  congr 1
  refine List.filter_congr fun item _ ↦ ?_
  by_cases h : f item = some key <;> simp [h]

theorem TrailOk.entriesUnder_length {state : AppState} (h : TrailOk env state) (key : String) :
    (entriesUnder state.auditTrail.events key).length ≤ 1 := by
  have hcount := List.nodup_iff_count_le_one.mp h.keys key
  rwa [count_filterMap_eq_length] at hcount

/-- Accepted calls are commits of the trail. -/
theorem Run.acceptedUnder_length
    (run : Run (System.step env) (System.initial maxLeaves maxSeconds) trace last) (key : String) :
    (acceptedUnder last.history.answers key).length ≤ 1 := by
  have hkeys := run.ledger.keys key
  have hcommits : (last.state.auditTrail.events.filterMap Entry.commitKey?).count key ≤
      (entriesUnder last.state.auditTrail.events key).length := by
    rw [count_filterMap_eq_length, entriesUnder]
    refine List.Sublist.length_le (List.monotone_filter_right _ fun entry h ↦ ?_)
    rw [decide_eq_true_iff] at h ⊢
    unfold Entry.commitKey? at h
    split at h
    · exact h
    · cases h
  have hone := run.trailOk.entriesUnder_length key
  rw [count_filterMap_eq_length acceptedKey?] at hkeys
  unfold acceptedUnder
  omega

theorem length_le_one_of_nodup {α : Type} {items : List α} (hnodup : items.Nodup)
    (hsame : ∀ first ∈ items, ∀ second ∈ items, first = second) : items.length ≤ 1 := by
  match items, hnodup with
  | [], _ => simp
  | [_], _ => simp
  | first :: second :: rest, hnodup =>
    have hne := (List.nodup_cons.mp hnodup).1
    exact absurd (hsame first (by simp) second (by simp) ▸ List.mem_cons_self) hne

/-- Of leaves of different events one at most stems from a key. -/
theorem TrailOk.stemsFrom_length {state : AppState} (h : TrailOk env state) (key : String)
    {leaves : List PendingLeaf} (hnodup : (leaves.map (·.eventId)).Nodup) :
    (leaves.filter (stemsFrom state.auditTrail.events key)).length ≤ 1 := by
  rw [← List.length_map (f := (·.eventId))]
  refine length_le_one_of_nodup ((List.filter_sublist.map _).nodup hnodup) ?_
  have hid {eventId : String} (h : eventId ∈ (leaves.filter
      (stemsFrom state.auditTrail.events key)).map (·.eventId)) :
      ∃ entry ∈ entriesUnder state.auditTrail.events key, entry.eventId = eventId := by
    obtain ⟨leaf, hleaf, rfl⟩ := List.mem_map.mp h
    obtain ⟨entry, hentry, heq⟩ := List.any_eq_true.mp (List.mem_filter.mp hleaf).2
    exact ⟨entry, hentry, of_decide_eq_true heq⟩
  intro first hfirst second hsecond
  obtain ⟨entry, hentry, rfl⟩ := hid hfirst
  obtain ⟨other, hother, rfl⟩ := hid hsecond
  have hlength := h.entriesUnder_length key
  obtain ⟨only, honly⟩ := List.length_eq_one_iff.mp
    (le_antisymm hlength (List.length_pos_of_mem hentry))
  rw [honly, List.mem_singleton] at hentry hother
  rw [hentry, hother]

/-- One leaf at most stems from a key. -/
theorem Run.stemsFrom_length
    (run : Run (System.step env) (System.initial maxLeaves maxSeconds) trace last) (key : String) :
    ((last.history.closed.flatMap (·.pending) ++ last.state.merkleBuilder.pending).filter
      (stemsFrom last.state.auditTrail.events key)).length ≤ 1 := by
  rw [run.ledger.pending]
  exact run.trailOk.stemsFrom_length key run.addedIds_nodup

/-- For every key, over every interleaving and whatever closers fail: at most one event is stored
under it; at most one call with it is accepted and every other completed committing call with it is
told that it is a duplicate; at most one leaf of all batches stems from it; and no later step changes
a record or its position in the stream of its decision. -/
theorem exactly_once_commit
    (run : Run (System.step env) (System.initial maxLeaves maxSeconds) trace last) (key : String) :
    (entriesUnder last.state.auditTrail.events key).length ≤ 1 ∧
      (acceptedUnder last.history.answers key).length ≤ 1 ∧
      (∀ call result, (call, .ok result) ∈ last.history.answers → call.committing = true →
        call.key? = some key → (call, .ok result) ∉ acceptedUnder last.history.answers key →
        result = some ⟨.duplicateIgnored, none⟩) ∧
      ((last.history.closed.flatMap (·.pending) ++ last.state.merkleBuilder.pending).filter
        (stemsFrom last.state.auditTrail.events key)).length ≤ 1 ∧
      ∀ rest later, Run (System.step env) last rest later → ∀ decisionId,
        last.state.auditTrail.readRange decisionId 0 <+: later.state.auditTrail.readRange decisionId 0 := by
  refine ⟨run.trailOk.entriesUnder_length key, run.acceptedUnder_length key, ?_, run.stemsFrom_length key, ?_⟩
  · intro call result hanswer hcommitting hkey hother
    rcases run.answerOk along_true _ hanswer with hok | ⟨-, herror, -⟩
    · rcases hok.committing hcommitting result rfl with ⟨leafHash, rfl⟩ | hduplicate
      · exact absurd (List.mem_filter.mpr ⟨hanswer, decide_eq_true hkey⟩) hother
      · exact hduplicate
    · cases herror
  · intro rest later hafter decisionId
    exact MemoryAuditTrail.readRange_prefix (run.persists hafter).events decisionId

/-- Two calls with one key, the second between the append and the leaf of the first. -/
def racingCommits : List Label :=
  [.start (.updateMetric sampleCommand), .start (.updateMetric sampleCommand), .resume 0 0, .resume 1 0,
    .resume 0 0]

theorem exactly_once_racingCommits :
    ∃ last, follow (System.step .local) (System.initial 100 60) racingCommits = some last ∧
      last.history.answers.length = 2 ∧ (acceptedUnder last.history.answers "k1").length = 1 ∧
      (entriesUnder last.state.auditTrail.events "k1").length ≤ 1 ∧
      ((last.history.closed.flatMap (·.pending) ++ last.state.merkleBuilder.pending).filter
        (stemsFrom last.state.auditTrail.events "k1")).length ≤ 1 := by
  have hsome : ((follow (System.step .local) (System.initial 100 60) racingCommits).map fun last ↦
      decide (last.history.answers.length = 2 ∧ (acceptedUnder last.history.answers "k1").length = 1)) =
        some true := by decide +kernel
  obtain ⟨last, hlast, hfacts⟩ := Option.map_eq_some_iff.mp hsome
  obtain ⟨hanswers, haccepted⟩ := of_decide_eq_true hfacts
  obtain ⟨hentries, -, -, hleaves, -⟩ := exactly_once_commit (Run.of_follow hlast) "k1"
  exact ⟨last, hlast, hanswers, haccepted, hentries, hleaves⟩

end DecisionCore
