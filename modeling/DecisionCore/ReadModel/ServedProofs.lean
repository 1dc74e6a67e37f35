import DecisionCore.System.Anchored
import DecisionCore.ReadModel.Scoring
import DecisionCore.Transport.MerkleProof

/-!
# Served proofs

The registry shows the last commit of a metric that it replays, and the proof endpoints search the
log for the first one.  The proof they serve belongs to the shown record exactly when both commits
have one leaf hash, or when the first one has no proof yet.
-/

namespace DecisionCore

open MetricsRegistry MerkleAnchorService ScoreboardProjector

variable {env : Env} {decisionId : String}

/-- The commit whose record the registry shows. -/
def shownCommit? (log : List PyDict) (name : String) : Option PyDict :=
  ((replayed [] log).filter (commitsMetric name)).getLast?

/-! ## The two searches -/

theorem isCommitOf_eq (name : String) : isCommitOf name = commitsMetric name := by
  funext evt
  unfold isCommitOf commitsMetric PyDict.text?
  cases evt.get? "metric_name" with
  | none => rfl
  | some value => cases value <;> simp [Json.isStr, Json.asStr?]

section Searches

variable {log : List PyDict} {metrics : Metrics} {name : String} {record : MetricRecord}

/-- A shown record has a commit behind it, and its leaf. -/
theorem shownCommit?_of_committed (hmetrics : reconstruct env decisionId log = .ok metrics)
    (hget : metrics.get? name = some record) (hstatus : record.status = .committed) :
    ∃ shown, shownCommit? log name = some shown ∧ CarriesLeaf shown record.leafHash := by
  obtain ⟨hsome, hnone⟩ := replay_shows_last hmetrics .nil hget hstatus
  cases hlast : shownCommit? log name with
  | some shown => exact ⟨shown, rfl, hsome shown hlast⟩
  | none => cases hnone hlast

/-- The endpoints find a commit that the registry has replayed. -/
theorem committedEvent?_of_shown (hmetrics : reconstruct env decisionId log = .ok metrics) {shown : PyDict}
    (hshown : shownCommit? log name = some shown) :
    ∃ first leaf, committedEvent? log name = some first ∧ CarriesLeaf first leaf := by
  obtain ⟨hmem, hcommits⟩ := List.mem_filter.mp (List.mem_of_getLast? hshown)
  have hfound : ((replayed [] log).find? (commitsMetric name)).isSome = true :=
    List.find?_isSome.mpr ⟨shown, hmem, hcommits⟩
  obtain ⟨first, hfirst⟩ := Option.isSome_iff_exists.mp hfound
  have hfirstCommits : commitsMetric name first = true := List.find?_some hfirst
  have htype : first.hasType "MetricCommitted" = true := (Bool.and_eq_true_iff.mp hfirstCommits).1
  obtain ⟨leaf, hleaf⟩ := replayed_commit_carriesLeaf hmetrics .nil first
    (List.mem_of_find?_eq_some hfirst) htype
  refine ⟨first, leaf, ?_, hleaf⟩
  rw [committedEvent?, isCommitOf_eq]
  exact (replayed_isPrefix [] log).find?_eq_some hfirst

end Searches

/-! ## The rows the endpoints answer from -/

theorem leafHashField?_cases {leafHash : Json} {leaf : Option String} (h : leafHashField? leafHash = some leaf) :
    leafHash = .null ∧ leaf = none ∨ ∃ text, leafHash = .str text ∧ leaf = some text := by
  cases leafHash with
  | null => exact .inl ⟨rfl, (Option.some.inj h).symm⟩
  | str text =>
    simp only [leafHashField?] at h
    split at h
    · exact .inr ⟨text, rfl, (Option.some.inj h).symm⟩
    · cases h
  | _ => cases h

/-- No leaf is formatted as the absent leaf hash. -/
theorem hex_ne_none (leaf : Bytes) : hex leaf ≠ Json.format env .null := by
  intro h
  have hdecode := (fromhex_hex leaf).symm.trans (congrArg fromhex h)
  have hnone : fromhex (Json.format env .null) = none := by
    change fromhex "None" = none
    decide
  rw [hnone] at hdecode
  cases hdecode

/-- A row found for a validated leaf hash is the proof of that leaf. -/
theorem RowsOk.served {state : AppState} (h : RowsOk env state.projectionStore) {leafHash : Json}
    {leaf : Option String} {stored : StoreRow} (hfield : leafHashField? leafHash = some leaf)
    (hstored : storedProof? env state leafHash = some stored) :
    ∃ bytes row, leafHash = .str (hex bytes) ∧ leaf = some (hex bytes) ∧ stored = .proof row ∧
      RowOk env bytes row := by
  obtain ⟨bytes, row, htext, hrow, hok⟩ := h _ _ hstored
  rcases leafHashField?_cases hfield with ⟨rfl, -⟩ | ⟨text, rfl, rfl⟩
  · exact absurd htext.symm (hex_ne_none bytes)
  · obtain rfl : text = hex bytes := htext
    exact ⟨bytes, row, rfl, rfl, hrow, hok⟩

theorem mapM_fromhexField {path : List ProofNode} {proof : List ProofStep} (h : decodeProof path = some proof) :
    ∃ nodes, path.mapM (fun node ↦ (Grpc.fromhexField node.hash).map fun hash ↦
      (⟨hash, node.position⟩ : Grpc.ProofNode)) = .ok nodes := by
  induction path generalizing proof with
  | nil => exact ⟨[], rfl⟩
  | cons node rest ih =>
    simp only [decodeProof, List.mapM_cons, bind, Option.bind_eq_some_iff] at h
    obtain ⟨step, hstep, steps, hsteps, -⟩ := h
    obtain ⟨bytes, hbytes, -⟩ := Option.map_eq_some_iff.mp hstep
    obtain ⟨nodes, hnodes⟩ := ih hsteps
    refine ⟨⟨bytes, node.position⟩ :: nodes, ?_⟩
    simp only [List.mapM_cons, Grpc.fromhexField, hbytes, Except.map, bind, Except.bind] at hnodes ⊢
    rw [hnodes]
    rfl

/-- A right row becomes a message for its leaf. -/
theorem RowOk.messageOf {bytes : Bytes} {row : ProofRow} (h : RowOk env bytes row) :
    ∃ message, Grpc.messageOf env (.proof row) = .ok message ∧ message.leafHash = bytes := by
  obtain ⟨proof, root, hproof, hroot, -, hsignature⟩ := h.verifies
  obtain ⟨now, hnow⟩ := h.timestamp
  obtain ⟨nodes, hnodes⟩ := mapM_fromhexField hproof
  refine ⟨⟨bytes, nodes, root, env.sign root, (now - now % 1000).tdiv 1000⟩, ?_, rfl⟩
  simp only [Grpc.messageOf, parse, hnow, env.fromisoformat_isoformat, bind, Except.bind]
  simp only [h.leafHash, Grpc.fromhexField, fromhex_hex, hroot, hsignature]
  simp only [Grpc.fromhexField] at hnodes
  rw [hnodes]
  rfl

theorem responseOf_leafHash {row : ProofRow} {response : Api.GetMerkleProofResponse}
    (h : Api.responseOf env (.proof row) = .ok response) : response.leafHash = row.leafHash := by
  simp only [Api.responseOf] at h
  split at h
  · cases h
  · obtain rfl := Except.ok.inj h
    rfl

/-! ## What the endpoints answer -/

section Endpoints

variable {state : AppState} {name : String}

/-- A rebuild leaves the log and the proofs as they are. -/
theorem rebuild_state (env : Env) (state : AppState) (now : Instant) (decisionId : String)
    (requiredMetrics : List String) :
    (rebuild env state now decisionId requiredMetrics).1.auditTrail = state.auditTrail ∧
      ∀ leafHash, storedProof? env (rebuild env state now decisionId requiredMetrics).1 leafHash =
        storedProof? env state leafHash := by
  unfold rebuild
  split
  · exact ⟨rfl, fun _ ↦ rfl⟩
  · refine ⟨rfl, ?_⟩
    intro leafHash
    simp only [storedProof?]
    rw [Dict.get?_set, if_neg (scoreboardKey_ne_proofKey _ _)]

/-- A response of the REST route comes from the row of the commit it found. -/
theorem Api.getMerkleProof_ok {requiredMetricsByDecision : Dict String (List String)} {now : Instant}
    {response : Api.GetMerkleProofResponse}
    (h : (Api.getMerkleProof env requiredMetricsByDecision state now decisionId name).2 = .ok response) :
    ∃ first leafHash stored, committedEvent? (state.auditTrail.readRange decisionId 0) name = some first ∧
      first.get? "leaf_hash" = some leafHash ∧ storedProof? env state leafHash = some stored ∧
      Api.responseOf env stored = .ok response := by
  obtain ⟨htrail, hproofs⟩ := rebuild_state env state now decisionId
    ((requiredMetricsByDecision.get? decisionId).getD [name])
  simp only [Api.getMerkleProof] at h
  split at h
  · cases h
  · rename_i next scoreboard hrebuild
    simp only [hrebuild] at htrail hproofs
    rw [htrail] at h
    split at h
    · split at h
      · cases h
      · rename_i leafHash hleaf
        obtain ⟨first, hfirst, hget⟩ := Option.bind_eq_some_iff.mp hleaf
        split at h
        · cases h
        · rename_i stored hstored
          refine ⟨first, leafHash, stored, hfirst, hget, (hproofs leafHash).symm.trans hstored, ?_⟩
          cases hresponse : Api.responseOf env stored with
          | error error => rw [hresponse] at h; cases h
          | ok found =>
            rw [hresponse] at h
            exact congrArg Except.ok (Reply.ok.inj h)
    · cases h

/-- The gRPC method answers from the row of the commit it found. -/
theorem Grpc.getMerkleProof_of_some {first : PyDict} {leafHash : Json} {stored : StoreRow}
    (hfirst : committedEvent? (state.auditTrail.readRange decisionId 0) name = some first)
    (hleaf : first.get? "leaf_hash" = some leafHash) (hstored : storedProof? env state leafHash = some stored) :
    Grpc.getMerkleProof env state decisionId name = .ofExcept (Grpc.messageOf env stored) := by
  simp only [Grpc.getMerkleProof, hfirst, hleaf, hstored]

theorem Grpc.getMerkleProof_of_none {first : PyDict} {leafHash : Json}
    (hfirst : committedEvent? (state.auditTrail.readRange decisionId 0) name = some first)
    (hleaf : first.get? "leaf_hash" = some leafHash) (hstored : storedProof? env state leafHash = none) :
    Grpc.getMerkleProof env state decisionId name = .notFound "leaf committed but not yet anchored" := by
  simp only [Grpc.getMerkleProof, hfirst, hleaf, hstored]

end Endpoints

/-! ## Proofs of shown records -/

/-- Whatever the two endpoints serve for the metric is a proof of the given leaf. -/
def ServesLeaf (env : Env) (requiredMetricsByDecision : Dict String (List String)) (state : AppState)
    (decisionId name : String) (leaf : Option String) : Prop :=
  (∀ now response, (Api.getMerkleProof env requiredMetricsByDecision state now decisionId name).2 = .ok response →
    some response.leafHash = leaf) ∧
  ∀ message, Grpc.getMerkleProof env state decisionId name = .ok message → some (hex message.leafHash) = leaf

/-- The first commit of the metric has the leaf hash of the last replayed one, or no proof yet. -/
def FirstCommitFits (env : Env) (state : AppState) (decisionId name : String) : Prop :=
  ∀ first shown, committedEvent? (state.auditTrail.readRange decisionId 0) name = some first →
    shownCommit? (state.auditTrail.readRange decisionId 0) name = some shown →
    first.get? "leaf_hash" = shown.get? "leaf_hash" ∨
      ∀ leafHash, first.get? "leaf_hash" = some leafHash → storedProof? env state leafHash = none

section Runs

variable {maxLeaves : ℤ} {maxSeconds : ℚ} {trace : List (System × Label)} {last : System}

/-- In every reachable state, the endpoints serve proofs of the committed record that the registry
shows if and only if the first commit of the metric has its leaf hash or no proof. -/
theorem served_proof_fits_iff
    (run : Run (System.step env) (System.initial maxLeaves maxSeconds) trace last)
    (requiredMetricsByDecision : Dict String (List String)) {name : String} {metrics : Metrics}
    {record : MetricRecord}
    (hmetrics : reconstruct env decisionId (last.state.auditTrail.readRange decisionId 0) = .ok metrics)
    (hget : metrics.get? name = some record) (hstatus : record.status = .committed) :
    ServesLeaf env requiredMetricsByDecision last.state decisionId name record.leafHash ↔
      FirstCommitFits env last.state decisionId name := by
  obtain ⟨shown, hshown, shownLeaf, hshownLeaf, hshownField⟩ := shownCommit?_of_committed hmetrics hget hstatus
  obtain ⟨first, leaf, hfirst, leafHash, hleaf, hfield⟩ := committedEvent?_of_shown hmetrics hshown
  have hrows := run.anchored.rows
  constructor
  · rintro ⟨-, hgrpc⟩ first' shown' hfirst' hshown'
    obtain rfl := Option.some.inj (hfirst.symm.trans hfirst')
    obtain rfl := Option.some.inj (hshown.symm.trans hshown')
    cases hstored : storedProof? env last.state leafHash with
    | none =>
      right
      intro other hother
      obtain rfl := Option.some.inj (hleaf.symm.trans hother)
      exact hstored
    | some stored =>
      left
      obtain ⟨bytes, row, rfl, rfl, rfl, hrow⟩ := hrows.served hfield hstored
      obtain ⟨message, hmessage, hbytes⟩ := hrow.messageOf
      have hserved := hgrpc message (by rw [Grpc.getMerkleProof_of_some hfirst hleaf hstored, hmessage]; rfl)
      rw [hbytes] at hserved
      rcases leafHashField?_cases hshownField with ⟨-, hnone⟩ | ⟨text, rfl, htext⟩
      · rw [hnone] at hserved
        cases hserved
      · rw [hleaf, hshownLeaf, Option.some.inj (hserved.trans htext)]
  · intro hfits
    -- A row that is found belongs to the first commit, so the first commit has the shown leaf.
    have hshows {stored : StoreRow} (hstored : storedProof? env last.state leafHash = some stored) :
        ∃ bytes row, record.leafHash = some (hex bytes) ∧ stored = .proof row ∧ RowOk env bytes row := by
      obtain ⟨bytes, row, rfl, rfl, rfl, hrow⟩ := hrows.served hfield hstored
      rcases hfits first shown hfirst hshown with hsame | hnone
      · rw [hleaf, hshownLeaf] at hsame
        obtain rfl := Option.some.inj hsame
        exact ⟨bytes, row, (Option.some.inj (hfield.symm.trans hshownField)).symm, rfl, hrow⟩
      · rw [hnone _ hleaf] at hstored
        cases hstored
    refine ⟨?_, ?_⟩
    · intro now response hresponse
      obtain ⟨found, foundLeaf, stored, hfound, hfoundLeaf, hstored, hrow⟩ := Api.getMerkleProof_ok hresponse
      obtain rfl := Option.some.inj (hfirst.symm.trans hfound)
      obtain rfl := Option.some.inj (hleaf.symm.trans hfoundLeaf)
      obtain ⟨bytes, row, hrecord, rfl, hok⟩ := hshows hstored
      rw [responseOf_leafHash hrow, hok.leafHash, hrecord]
    · intro message hmessage
      cases hstored : storedProof? env last.state leafHash with
      | none =>
        rw [Grpc.getMerkleProof_of_none hfirst hleaf hstored] at hmessage
        cases hmessage
      | some stored =>
        obtain ⟨bytes, row, hrecord, rfl, hok⟩ := hshows hstored
        obtain ⟨found, hfound, hbytes⟩ := hok.messageOf
        rw [Grpc.getMerkleProof_of_some hfirst hleaf hstored, hfound] at hmessage
        obtain rfl := Reply.ok.inj hmessage
        rw [hbytes, hrecord]

/-- The endpoints serve a proof of the only commit. -/
theorem served_proof_after_commitAndClose :
    ∃ last metrics record, follow (System.step .local) (System.initial 100 60) commitAndClose = some last ∧
      reconstruct .local "d1" (last.state.auditTrail.readRange "d1" 0) = .ok metrics ∧
      metrics.get? "roi" = some record ∧ record.status = .committed ∧
      ServesLeaf .local .empty last.state "d1" "roi" record.leafHash := by
  have hsome : ((follow (System.step .local) (System.initial 100 60) commitAndClose).map fun last ↦
      let log := last.state.auditTrail.readRange "d1" 0
      let first := (committedEvent? log "roi").bind (·.text? "leaf_hash")
      match reconstruct .local "d1" log with
      | .ok metrics => (metrics.get? "roi").any (fun record ↦ decide (record.status = .committed)) &&
          first.isSome && decide ((shownCommit? log "roi").bind (·.text? "leaf_hash") = first)
      | .error _ => false) = some true := by decide +kernel
  obtain ⟨last, hlast, hfacts⟩ := Option.map_eq_some_iff.mp hsome
  cases hmetrics : reconstruct .local "d1" (last.state.auditTrail.readRange "d1" 0) with
  | error error => simp [hmetrics] at hfacts
  | ok metrics =>
    simp only [hmetrics, Bool.and_eq_true, decide_eq_true_eq, Option.any_eq_true] at hfacts
    obtain ⟨⟨⟨record, hget, hstatus⟩, hfirstLeaf⟩, hshownLeaf⟩ := hfacts
    refine ⟨last, metrics, record, hlast, hmetrics, hget, hstatus, ?_⟩
    apply (served_proof_fits_iff (Run.of_follow hlast) .empty hmetrics hget hstatus).mpr
    intro first shown hfirst hshown
    simp only [hfirst, hshown, Option.bind_some] at hfirstLeaf hshownLeaf
    obtain ⟨text, htext⟩ := Option.isSome_iff_exists.mp hfirstLeaf
    left
    rw [PyDict.get?_of_text? htext, PyDict.get?_of_text? (hshownLeaf.trans htext)]

/-- A metric is committed, anchored and committed again under another key. -/
def commitCloseCommit : List Label :=
  commitAndClose ++ uninterrupted (.updateMetric (sampleCommit "roi" (.int 2) "k2")) 2

/-- The proof served is of the first commit, while the registry shows the second one. -/
theorem served_proof_of_first_commit :
    ∃ last metrics record, follow (System.step .local) (System.initial 100 60) commitCloseCommit = some last ∧
      reconstruct .local "d1" (last.state.auditTrail.readRange "d1" 0) = .ok metrics ∧
      metrics.get? "roi" = some record ∧ record.status = .committed ∧
      ¬ ServesLeaf .local .empty last.state "d1" "roi" record.leafHash := by
  have hsome : ((follow (System.step .local) (System.initial 100 60) commitCloseCommit).map fun last ↦
      match reconstruct .local "d1" (last.state.auditTrail.readRange "d1" 0) with
      | .ok metrics => (metrics.get? "roi").any fun record ↦ decide (record.status = .committed) &&
          (Grpc.getMerkleProof .local last.state "d1" "roi").message?.any fun message ↦
            decide (some (hex message.leafHash) ≠ record.leafHash)
      | .error _ => false) = some true := by decide +kernel
  obtain ⟨last, hlast, hfacts⟩ := Option.map_eq_some_iff.mp hsome
  cases hmetrics : reconstruct .local "d1" (last.state.auditTrail.readRange "d1" 0) with
  | error error => simp [hmetrics] at hfacts
  | ok metrics =>
    simp only [hmetrics, Option.any_eq_true, Bool.and_eq_true, decide_eq_true_eq] at hfacts
    obtain ⟨record, hget, hstatus, message, hmessage, hne⟩ := hfacts
    refine ⟨last, metrics, record, hlast, hmetrics, hget, hstatus, ?_⟩
    intro hserves
    exact hne (hserves.2 message (Reply.eq_ok_of_message? hmessage))

end Runs

end DecisionCore
