import DecisionCore.ReadModel.ServedProofs

/-!
# The two proof endpoints compared

Both endpoints answer from the row of the first commit of the metric.  The REST route asks the rebuilt
scoreboard first, and so it raises when the rebuild raises, and does not find a metric whose commits
all stand behind the part of the stream that the registry replays.
-/

namespace DecisionCore

open MetricsRegistry MerkleAnchorService ScoreboardProjector PolicyEvaluator

variable {env : Env} {decisionId : String}

/-! ## The metrics a rebuild shows -/

/-- The registry has a record of the metrics that the replayed part of the stream commits or rejects. -/
theorem contains_settle {log : List PyDict} {changes : List Change}
    (h : List.Forall₂ (Reads env decisionId) log changes) {metrics : Metrics} {seen : List String}
    (hseen : Lists seen metrics) (name : String) :
    (settle metrics changes).contains name = true ↔
      name ∈ seen ∨ ∃ evt ∈ replayed seen log, recordedMetric evt = some name := by
  induction h generalizing metrics seen with
  | nil => simp [settle, replayed, hseen name]
  | @cons evt change log changes hread _ ih =>
    have hrecorded := hread.recordedMetric
    -- An event that records a metric adds it to the names seen so far.
    have hadds {key : String} (hkey : recordedMetric evt = some key) :
        (name ∈ key :: seen ∨ ∃ other ∈ replayed (key :: seen) log, recordedMetric other = some name) ↔
          name ∈ seen ∨ ∃ other ∈ evt :: replayed (key :: seen) log, recordedMetric other = some name := by
      simp only [List.mem_cons, exists_eq_or_imp, hkey, Option.some.injEq, eq_comm (a := name)]
      tauto
    rw [hread.replayed]
    cases change with
    | commit record =>
      simp only [settle]
      rw [ih (hseen.set record.metricName record), hadds hrecorded]
    | reject record =>
      simp only [settle]
      rw [← hadds hrecorded]
      apply ih
      exact hseen.setNew record.metricName record
    | supersede target by_ =>
      simp only [settle]
      cases hfound : metrics.get? target with
      | none =>
        have htarget : target ∉ seen := by simp [hseen target, Dict.contains, hfound]
        simp only [htarget, if_false]
        rw [ih hseen]
        simp [hrecorded]
      | some record =>
        have htarget : target ∈ seen := by simp [hseen target, Dict.contains, hfound]
        simp only [htarget, if_true]
        by_cases heq : target = name
        · subst heq
          simp [Dict.contains, htarget]
        · simp [Dict.contains, hseen name, heq, hrecorded]
    | skip =>
      simp only [settle]
      rw [ih hseen]
      simp [hrecorded]

theorem viewsOf_contains (metrics : Metrics) (name : String) :
    (viewsOf metrics).contains name = metrics.contains name := by
  obtain ⟨entries⟩ := metrics
  simp only [Dict.contains, viewsOf]
  induction entries with
  | nil => rfl
  | cons binding rest ih =>
    obtain ⟨first, record⟩ := binding
    rw [List.map_cons, Dict.get?_cons, Dict.get?_cons]
    split
    · rfl
    · exact ih

/-! ## Equal answers -/

/-- The same proof, once in hexadecimal and once in bytes. -/
structure SameProof (response : Api.GetMerkleProofResponse) (message : Grpc.MerkleProof) : Prop where
  leafHash : fromhex response.leafHash = some message.leafHash
  root : fromhex response.root = some message.root
  anchorSignature : fromhex response.anchorSignature = some message.anchorSignature
  proofPath : response.proofPath.mapM (fun node ↦ (fromhex node.hash).map fun hash ↦ (hash, node.position)) =
    some (message.proofPath.map fun node ↦ (node.hash, node.position))

def Reply.isNotFound {α : Type} : Reply α → Bool
  | .notFound _ => true
  | _ => false

/-- One endpoint answers that nothing is found exactly when the other one does, and otherwise both
answer with the same proof. -/
def AgreeOnProof (rest : Reply Api.GetMerkleProofResponse) (grpc : Reply Grpc.MerkleProof) : Prop :=
  (rest.isNotFound = true ↔ grpc.isNotFound = true) ∧
    (rest.isNotFound = false → ∃ response message, rest = .ok response ∧ grpc = .ok message ∧
      SameProof response message)

theorem mapM_fromhexField_path {path : List ProofNode} {nodes : List Grpc.ProofNode}
    (h : path.mapM (fun node ↦ (Grpc.fromhexField node.hash).map fun hash ↦
      (⟨hash, node.position⟩ : Grpc.ProofNode)) = .ok nodes) :
    path.mapM (fun node ↦ (fromhex node.hash).map fun hash ↦ (hash, node.position)) =
      some (nodes.map fun node ↦ (node.hash, node.position)) := by
  induction path generalizing nodes with
  | nil =>
    obtain rfl := Except.ok.inj h
    rfl
  | cons node rest ih =>
    rw [List.mapM_cons] at h ⊢
    obtain ⟨first, hfirst, hothers⟩ := bind_eq_ok.mp h
    obtain ⟨others, hrest, hnodes⟩ := bind_eq_ok.mp hothers
    obtain rfl := Except.ok.inj hnodes
    rw [ih hrest]
    cases hhash : fromhex node.hash with
    | none => simp [Grpc.fromhexField, hhash, Except.map] at hfirst
    | some bytes =>
      simp only [Grpc.fromhexField, hhash, Except.map, Except.ok.injEq] at hfirst
      rw [← hfirst]
      rfl

theorem fromhexField_ok {text : String} {bytes : Bytes} (h : Grpc.fromhexField text = .ok bytes) :
    fromhex text = some bytes := by
  unfold Grpc.fromhexField at h
  split at h
  · rename_i found hfound
    rw [hfound, Except.ok.inj h]
  · cases h

/-- A right row is served by both endpoints, as the same proof. -/
theorem RowOk.same {leaf : Bytes} {row : ProofRow} (h : RowOk env leaf row) :
    ∃ response message, Api.responseOf env (.proof row) = .ok response ∧
      Grpc.messageOf env (.proof row) = .ok message ∧ SameProof response message := by
  obtain ⟨now, hnow⟩ := h.timestamp
  obtain ⟨message, hmessage, -⟩ := h.messageOf
  refine ⟨⟨row.leafHash, row.proofPath, row.root, row.anchorSignature, now - now % 1000⟩, message, ?_, hmessage, ?_⟩
  · simp [Api.responseOf, hnow, env.fromisoformat_isoformat]
  · simp only [Grpc.messageOf, bind_eq_ok] at hmessage
    obtain ⟨moment, -, leafHash, hleaf, root, hroot, signature, hsignature, nodes, hnodes, hmessage⟩ := hmessage
    obtain rfl := Except.ok.inj hmessage
    exact ⟨fromhexField_ok hleaf, fromhexField_ok hroot, fromhexField_ok hsignature, mapM_fromhexField_path hnodes⟩

/-! ## The answers of each endpoint -/

/-- A proof is stored for the first commit of the metric. -/
def ProofStored (env : Env) (state : AppState) (decisionId name : String) : Prop :=
  ∃ first leafHash stored, committedEvent? (state.auditTrail.readRange decisionId 0) name = some first ∧
    first.get? "leaf_hash" = some leafHash ∧ storedProof? env state leafHash = some stored

/-- The part of the stream that the registry replays commits or rejects the metric. -/
def Recorded (log : List PyDict) (name : String) : Prop :=
  ∃ evt ∈ replayed [] log, recordedMetric evt = some name

instance (log : List PyDict) (name : String) : Decidable (Recorded log name) :=
  inferInstanceAs (Decidable (∃ evt ∈ _, _))

section Answers

variable {state : AppState} {name : String}

/-- The commit that the endpoints find in a readable stream carries its leaf hash. -/
theorem Readable.carriesLeaf {log : List PyDict} {first : PyDict} (h : Readable env decisionId log)
    (hfirst : committedEvent? log name = some first) : ∃ leaf, CarriesLeaf first leaf := by
  have hcommits : isCommitOf name first = true := List.find?_some hfirst
  obtain ⟨change, hread⟩ := h.registry first (List.mem_of_find?_eq_some hfirst)
  rw [isCommitOf_eq, hread.commitsMetric] at hcommits
  cases hread with
  | commit _ hrecord _ _ _ => exact ⟨_, (committedRecord_ok hrecord).2.2⟩
  | _ => cases hcommits

/-- The row of a first commit is right. -/
theorem ProofStored.row (h : ProofStored env state decisionId name) (hrows : RowsOk env state.projectionStore)
    (hreadable : Readable env decisionId (state.auditTrail.readRange decisionId 0)) :
    ∃ first leafHash bytes row, committedEvent? (state.auditTrail.readRange decisionId 0) name = some first ∧
      first.get? "leaf_hash" = some leafHash ∧ storedProof? env state leafHash = some (.proof row) ∧
      RowOk env bytes row := by
  obtain ⟨first, leafHash, stored, hfirst, hleaf, hstored⟩ := h
  obtain ⟨leaf, found, hfound, hfield⟩ := hreadable.carriesLeaf hfirst
  obtain rfl := Option.some.inj (hleaf.symm.trans hfound)
  obtain ⟨bytes, row, -, -, rfl, hok⟩ := hrows.served hfield hstored
  exact ⟨first, leafHash, bytes, row, hfirst, hleaf, hstored, hok⟩

/-- Without a stored proof the gRPC method finds nothing. -/
theorem Grpc.getMerkleProof_isNotFound (hreadable : Readable env decisionId (state.auditTrail.readRange decisionId 0))
    (h : ¬ ProofStored env state decisionId name) :
    (Grpc.getMerkleProof env state decisionId name).isNotFound = true := by
  cases hfirst : committedEvent? (state.auditTrail.readRange decisionId 0) name with
  | none =>
    simp only [Grpc.getMerkleProof, hfirst]
    rfl
  | some first =>
    obtain ⟨-, leafHash, hleaf, -⟩ := hreadable.carriesLeaf hfirst
    cases hstored : storedProof? env state leafHash with
    | none =>
      rw [Grpc.getMerkleProof_of_none hfirst hleaf hstored]
      rfl
    | some stored => exact absurd ⟨first, leafHash, stored, hfirst, hleaf, hstored⟩ h

variable {requiredMetricsByDecision : Dict String (List String)} {now : Instant} {board : ScoreboardState}

/-- The REST route after a rebuild that succeeds. -/
theorem Api.getMerkleProof_of_board
    (h : (rebuild env state now decisionId ((requiredMetricsByDecision.get? decisionId).getD [name])).2 = .ok board) :
    (Api.getMerkleProof env requiredMetricsByDecision state now decisionId name).2 =
      if board.metrics.contains name then
        match (committedEvent? (state.auditTrail.readRange decisionId 0) name).bind (·.get? "leaf_hash") with
        | none => .notFound "leaf not yet anchored — batch has not closed"
        | some leafHash =>
          match storedProof? env state leafHash with
          | none => .notFound "leaf committed but not yet anchored — try again shortly"
          | some row => .ofExcept (Api.responseOf env row)
      else .notFound "metric not found or not yet committed" := by
  obtain ⟨htrail, hproofs⟩ := rebuild_state env state now decisionId
    ((requiredMetricsByDecision.get? decisionId).getD [name])
  unfold Api.getMerkleProof
  cases hrebuild : rebuild env state now decisionId ((requiredMetricsByDecision.get? decisionId).getD [name]) with
  | mk next result =>
    simp only [hrebuild] at h htrail hproofs
    subst h
    simp only [hrebuild, htrail, hproofs]
    by_cases hcontains : board.metrics.contains name = true
    · rw [if_pos hcontains, if_pos hcontains]
      cases (committedEvent? (state.auditTrail.readRange decisionId 0) name).bind (·.get? "leaf_hash") with
      | none => rfl
      | some leafHash =>
        dsimp only
        cases storedProof? env state leafHash <;> rfl
    · rw [if_neg hcontains, if_neg hcontains]

theorem Api.getMerkleProof_of_error {error : PyError}
    (h : (rebuild env state now decisionId ((requiredMetricsByDecision.get? decisionId).getD [name])).2 =
      .error error) :
    (Api.getMerkleProof env requiredMetricsByDecision state now decisionId name).2 = .raised error := by
  unfold Api.getMerkleProof
  cases hrebuild : rebuild env state now decisionId ((requiredMetricsByDecision.get? decisionId).getD [name]) with
  | mk next result =>
    rw [hrebuild] at h
    obtain rfl : result = .error error := h
    simp only [hrebuild]

/-- Without a stored proof the REST route finds nothing either, once the rebuild has succeeded. -/
theorem Api.getMerkleProof_isNotFound
    (hboard : (rebuild env state now decisionId ((requiredMetricsByDecision.get? decisionId).getD [name])).2 =
      .ok board) (h : ¬ ProofStored env state decisionId name) :
    (Api.getMerkleProof env requiredMetricsByDecision state now decisionId name).2.isNotFound = true := by
  rw [Api.getMerkleProof_of_board hboard]
  split
  · split
    · rfl
    · rename_i leafHash hleaf
      obtain ⟨first, hfirst, hget⟩ := Option.bind_eq_some_iff.mp hleaf
      split
      · rfl
      · rename_i stored hstored
        exact absurd ⟨first, leafHash, stored, hfirst, hget, hstored⟩ h
  · rfl

/-- The metrics that a board of a readable stream shows. -/
theorem Readable.board_contains {log : List PyDict} {requiredMetrics : List String}
    (h : Readable env decisionId log) (hboard : project env decisionId requiredMetrics now log = .ok board)
    (name : String) : board.metrics.contains name = true ↔ Recorded log name := by
  obtain ⟨changes, hchanges⟩ := h.changes
  obtain ⟨risks, hrisks⟩ := h.riskSignals
  obtain ⟨root, moment, hroot, hmoment⟩ := h.root
  rw [Readable.project_eq requiredMetrics now hchanges hrisks hroot hmoment] at hboard
  obtain ⟨verdict, -, rfl⟩ := map_eq_ok.mp hboard
  change (viewsOf (settle .empty changes)).contains name = true ↔ _
  rw [viewsOf_contains, contains_settle hchanges .nil]
  simp [Recorded]

end Answers

section Runs

variable {maxLeaves : ℤ} {maxSeconds : ℚ} {trace : List (System × Label)} {last : System}

/-- One metric is committed and superseded, another one is committed, and the batch is closed. -/
def supersedeCommitClose : List Label := supersedeThenCommit ++ uninterrupted .forceClose 8

end Runs

end DecisionCore
