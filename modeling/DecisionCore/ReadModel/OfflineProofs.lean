import DecisionCore.ReadModel.ProofAgreement
import DecisionCore.System.Provable

/-!
# Proofs checked offline

What a proof endpoint serves is checked without the service: from the leaf along the path to the root, and the
root under the signature.  Whichever process answers, over either transport, the check succeeds for the leaf of
the commit that the endpoint has found.
-/

namespace DecisionCore

open CommandHandler MerkleAnchorService ScoreboardProjector

variable {env : Env}

/-- The response proves the leaf under a signed root. -/
def Api.Proves (env : Env) (leaf : Bytes) (response : Api.GetMerkleProofResponse) : Prop :=
  response.leafHash = hex leaf ∧ ∃ proof root, decodeProof response.proofPath = some proof ∧
    fromhex response.root = some root ∧ verifyInclusionProof env.sha256 leaf proof root = true ∧
    response.anchorSignature = hex (env.sign root)

/-- The message proves the leaf under a signed root. -/
def Grpc.Proves (env : Env) (leaf : Bytes) (message : Grpc.MerkleProof) : Prop :=
  message.leafHash = leaf ∧ verifyInclusionProof env.sha256 leaf
    (message.proofPath.map fun node ↦ ⟨node.hash, node.position⟩) message.root = true ∧
    message.anchorSignature = env.sign message.root

/-! ## Rows -/

theorem decodeProof_eq {path : List ProofNode} {proof : List ProofStep} {nodes : List (Bytes × ProofPosition)}
    (hproof : decodeProof path = some proof)
    (hnodes : path.mapM (fun node ↦ (fromhex node.hash).map fun hash ↦ (hash, node.position)) = some nodes) :
    proof = nodes.map fun node ↦ ⟨node.1, node.2⟩ := by
  induction path generalizing proof nodes with
  | nil =>
    obtain rfl := Option.some.inj hproof
    obtain rfl := Option.some.inj hnodes
    rfl
  | cons node rest ih =>
    simp only [decodeProof, List.mapM_cons, bind, Option.bind_eq_some_iff] at hproof hnodes ih
    obtain ⟨step, hstep, steps, hsteps, hproof⟩ := hproof
    obtain ⟨pair, hpair, pairs, hpairs, hnodes⟩ := hnodes
    obtain ⟨bytes, hbytes, rfl⟩ := Option.map_eq_some_iff.mp hstep
    obtain ⟨other, hother, rfl⟩ := Option.map_eq_some_iff.mp hpair
    obtain rfl := Option.some.inj (hbytes.symm.trans hother)
    rw [← Option.some.inj hproof, ← Option.some.inj hnodes, ih hsteps hpairs]
    rfl

section Rows

variable {leaf : Bytes} {row : ProofRow}

theorem RowOk.responseOf_proves (h : RowOk env leaf row) {response : Api.GetMerkleProofResponse}
    (hresponse : Api.responseOf env (.proof row) = .ok response) : Api.Proves env leaf response := by
  simp only [Api.responseOf] at hresponse
  split at hresponse
  · cases hresponse
  · obtain rfl := Except.ok.inj hresponse
    exact ⟨h.leafHash, h.verifies⟩

theorem RowOk.messageOf_proves (h : RowOk env leaf row) :
    ∃ message, Grpc.messageOf env (.proof row) = .ok message ∧ Grpc.Proves env leaf message := by
  obtain ⟨response, message, hresponse, hmessage, hsame⟩ := h.same
  obtain ⟨hleaf, proof, root, hproof, hroot, hverify, hsignature⟩ := h.responseOf_proves hresponse
  have hleafHash : message.leafHash = leaf := by
    have hdecoded := hsame.leafHash
    rw [hleaf, fromhex_hex] at hdecoded
    exact (Option.some.inj hdecoded).symm
  have hmessageRoot : message.root = root := Option.some.inj (hsame.root.symm.trans hroot)
  have hmessageSignature : message.anchorSignature = env.sign root := by
    have hdecoded := hsame.anchorSignature
    rw [hsignature, fromhex_hex] at hdecoded
    exact (Option.some.inj hdecoded).symm
  refine ⟨message, hmessage, hleafHash, ?_, ?_⟩
  · rw [decodeProof_eq hproof hsame.proofPath, List.map_map] at hverify
    rw [hmessageRoot]
    exact hverify
  · rw [hmessageSignature, hmessageRoot]

end Rows

/-! ## The commit behind an answer -/

section Answers

variable {state : AppState} {decisionId name : String}

/-- The endpoints find a commit of the metric when no event claims a type that is not its own. -/
theorem committedEvent?_commit {auditTrail : MemoryAuditTrail} (honest : ∀ entry ∈ auditTrail.events, entry.Honest)
    (commits : ∀ entry ∈ auditTrail.events, entry.eventType = "MetricCommitted" →
      ∃ commit : Commit, entry = commit.entry env entry.eventId) {first : PyDict}
    (hfirst : committedEvent? (auditTrail.readRange decisionId 0) name = some first) :
    ∃ commit : Commit, ∃ eventId, commit.decisionId = decisionId ∧ commit.metricName = name ∧
      commit.entry env eventId ∈ auditTrail.events ∧ first = (commit.entry env eventId).record := by
  have hfound : isCommitOf name first = true := List.find?_some hfirst
  obtain ⟨htype, hname⟩ := Bool.and_eq_true_iff.mp hfound
  obtain ⟨entry, hentry, rfl⟩ := List.mem_map.mp (List.mem_of_find?_eq_some hfirst)
  obtain ⟨hmem, hdecision⟩ := MemoryAuditTrail.mem_entriesOf.mp hentry
  rw [(honest entry hmem).hasType, decide_eq_true_eq] at htype
  obtain ⟨commit, hcommit⟩ := commits entry hmem htype
  rw [hcommit] at hmem hdecision hname ⊢
  refine ⟨commit, entry.eventId, Json.str.inj hdecision, ?_, hmem, rfl⟩
  simpa [Entry.record_get?, Commit.entry, committedPayload, Json.isStr] using hname

theorem Commit.record_leafHash (commit : Commit) (eventId : String) :
    (commit.entry env eventId).record.get? "leaf_hash" = some (.str (hex (commit.leafHash env))) := by
  simp [Entry.record_get?, Commit.entry, committedPayload]

/-- The row found for a commit proves its leaf. -/
theorem RowsOk.of_commit (h : RowsOk env state.projectionStore) (commit : Commit) {stored : StoreRow}
    (hstored : storedProof? env state (.str (hex (commit.leafHash env))) = some stored) :
    ∃ row, stored = .proof row ∧ RowOk env (commit.leafHash env) row := by
  obtain ⟨leaf, row, hhex, hrow, hok⟩ := h _ _ hstored
  obtain rfl := hex_injective hhex
  exact ⟨row, hrow, hok⟩

/-- A message of the gRPC method comes from the row of the commit it found. -/
theorem Grpc.getMerkleProof_ok {message : Grpc.MerkleProof}
    (h : Grpc.getMerkleProof env state decisionId name = .ok message) :
    ∃ first leafHash stored, committedEvent? (state.auditTrail.readRange decisionId 0) name = some first ∧
      first.get? "leaf_hash" = some leafHash ∧ storedProof? env state leafHash = some stored ∧
      Grpc.messageOf env stored = .ok message := by
  unfold Grpc.getMerkleProof at h
  split at h
  · cases h
  · rename_i first hfirst
    split at h
    · cases h
    · rename_i leafHash hleaf
      split at h
      · cases h
      · rename_i stored hstored
        refine ⟨first, leafHash, stored, hfirst, hleaf, hstored, ?_⟩
        cases hmessage : Grpc.messageOf env stored with
        | error error => rw [hmessage] at h; cases h
        | ok found =>
          rw [hmessage] at h
          exact congrArg Except.ok (Reply.ok.inj h)

end Answers

/-! ## Every process -/

/-- The call brings a payload of the bus. -/
def Call.isInbound : Call → Bool
  | .inbound _ _ => true
  | _ => false

theorem Call.honest_of_isInbound {call : Call} (h : call.isInbound = false) : call.Honest := by
  cases call <;> trivial

section Runs

variable {trace : List (Deployment × Components.Action (ℤ × ℚ) Label)} {last : Deployment}

/-- The events of the trail are stored by calls of the processes. -/
theorem Deployment.exists_stored (run : Run (Deployment.step env) .initial trace last) {entry : Entry}
    (hentry : entry ∈ last.shared.auditTrail.events) : ∃ part ∈ last.parts, entry ∈ part.own.stored :=
  List.mem_flatMap.mp ((Deployment.stored_perm run).mem_iff.mp hentry)

theorem Deployment.honest (run : Run (Deployment.step env) .initial trace last)
    (hhonest : ∀ part ∈ last.parts, ∀ call ∈ part.own.calls, call.Honest) :
    ∀ entry ∈ last.shared.auditTrail.events, entry.Honest := by
  intro entry hentry
  obtain ⟨part, hpart, hstored⟩ := Deployment.exists_stored run hentry
  obtain ⟨call, hcall, hstores⟩ := (Deployment.processOk run hpart).stored entry hstored
  exact hstores.honest (hhonest part hpart call hcall)

theorem Deployment.committed_entry (run : Run (Deployment.step env) .initial trace last) :
    ∀ entry ∈ last.shared.auditTrail.events, entry.eventType = "MetricCommitted" →
      ∃ commit : Commit, entry = commit.entry env entry.eventId := by
  intro entry hentry htype
  obtain ⟨part, hpart, hstored⟩ := Deployment.exists_stored run hentry
  exact (Deployment.processOk run hpart).committed_entry hstored htype

/-- In every deployment whose events claim no type but their own, and whichever process answers: a proof that is
served over REST or gRPC is checked offline, for the leaf of a commit of the decision and the metric; and once
the commit that the endpoints find is batched, gRPC serves its proof. -/
theorem served_proofs_verify (run : Run (Deployment.step env) .initial trace last)
    (hhonest : ∀ part ∈ last.parts, ∀ call ∈ part.own.calls, call.Honest) (process : Process)
    (decisionId name : String) :
    (∀ requiredMetricsByDecision now response,
      (Api.getMerkleProof env requiredMetricsByDecision (process.system last.shared).state now decisionId name).2 =
          .ok response →
        ∃ commit : Commit, ∃ eventId, commit.decisionId = decisionId ∧ commit.metricName = name ∧
          commit.entry env eventId ∈ last.shared.auditTrail.events ∧ Api.Proves env (commit.leafHash env) response) ∧
      (∀ message, Grpc.getMerkleProof env (process.system last.shared).state decisionId name = .ok message →
        ∃ commit : Commit, ∃ eventId, commit.decisionId = decisionId ∧ commit.metricName = name ∧
          commit.entry env eventId ∈ last.shared.auditTrail.events ∧ Grpc.Proves env (commit.leafHash env) message) ∧
      ∀ commit : Commit, ∀ eventId ∈ last.shared.auditTrail.batched,
        commit.entry env eventId ∈ last.shared.auditTrail.events →
        committedEvent? (last.shared.auditTrail.readRange decisionId 0) name =
            some (commit.entry env eventId).record →
          ∃ message, Grpc.getMerkleProof env (process.system last.shared).state decisionId name = .ok message ∧
            Grpc.Proves env (commit.leafHash env) message := by
  have hrows : RowsOk env (process.system last.shared).state.projectionStore :=
    (Deployment.publishes run).shared.rows
  have hfound {first : PyDict}
      (hfirst : committedEvent? (last.shared.auditTrail.readRange decisionId 0) name = some first) :=
    committedEvent?_commit (Deployment.honest run hhonest) (Deployment.committed_entry run) hfirst
  refine ⟨?_, ?_, ?_⟩
  · intro requiredMetricsByDecision now response hresponse
    obtain ⟨first, leafHash, stored, hfirst, hleaf, hstored, hrow⟩ := Api.getMerkleProof_ok hresponse
    obtain ⟨commit, eventId, hdecision, hname, hmem, rfl⟩ := hfound hfirst
    rw [commit.record_leafHash] at hleaf
    obtain rfl := Option.some.inj hleaf
    obtain ⟨row, rfl, hok⟩ := hrows.of_commit commit hstored
    exact ⟨commit, eventId, hdecision, hname, hmem, hok.responseOf_proves hrow⟩
  · intro message hmessage
    obtain ⟨first, leafHash, stored, hfirst, hleaf, hstored, hrow⟩ := Grpc.getMerkleProof_ok hmessage
    obtain ⟨commit, eventId, hdecision, hname, hmem, rfl⟩ := hfound hfirst
    rw [commit.record_leafHash] at hleaf
    obtain rfl := Option.some.inj hleaf
    obtain ⟨row, rfl, hok⟩ := hrows.of_commit commit hstored
    obtain ⟨found, hfoundMessage, hproves⟩ := hok.messageOf_proves
    obtain rfl := Except.ok.inj (hfoundMessage.symm.trans hrow)
    exact ⟨commit, eventId, hdecision, hname, hmem, hproves⟩
  · intro commit eventId hbatched hmem hfirst
    obtain ⟨row, hrow, hok⟩ := Deployment.batched_row run hbatched hmem
    obtain ⟨message, hmessage, hproves⟩ := hok.messageOf_proves
    refine ⟨message, ?_, hproves⟩
    have hanswer : Grpc.getMerkleProof env (process.system last.shared).state decisionId name =
        .ofExcept (Grpc.messageOf env (.proof row)) :=
      Grpc.getMerkleProof_of_some hfirst (commit.record_leafHash eventId) hrow
    rw [hanswer, hmessage]
    rfl

/-- A process that has just been started serves the proof that another process has stored. -/
theorem fresh_process_serves_proof : ∃ last message,
    follow (Deployment.step .local) .initial secondCloses = some last ∧
      Grpc.getMerkleProof .local ((Process.boot (1000, 5)).system last.shared).state "d1" "cost" = .ok message ∧
      ∃ commit : Commit, commit.metricName = "cost" ∧ Grpc.Proves .local (commit.leafHash .local) message := by
  have hrun : ((follow (Deployment.step .local) .initial secondCloses).bind fun last ↦
      (Grpc.getMerkleProof .local ((Process.boot (1000, 5)).system last.shared).state "d1" "cost").message?.map
        fun _ ↦ decide (∀ call ∈ last.parts.flatMap fun part ↦ part.own.calls, call.isInbound = false)) =
          some true := by decide +kernel
  obtain ⟨last, hlast, hrun⟩ := Option.bind_eq_some_iff.mp hrun
  obtain ⟨message, hmessage, hrun⟩ := Option.map_eq_some_iff.mp hrun
  have hanswer := Reply.eq_ok_of_message? hmessage
  have hhonest : ∀ part ∈ last.parts, ∀ call ∈ part.own.calls, call.Honest := by
    intro part hpart call hcall
    exact Call.honest_of_isInbound (of_decide_eq_true hrun call (List.mem_flatMap.mpr ⟨part, hpart, hcall⟩))
  obtain ⟨commit, -, -, hname, -, hproves⟩ :=
    (served_proofs_verify (Run.of_follow hlast) hhonest (.boot (1000, 5)) "d1" "cost").2.1 message hanswer
  exact ⟨last, message, hlast, hanswer, commit, hname, hproves⟩

end Runs

end DecisionCore
