import DecisionCore.Lib.MerkleTree
import DecisionCore.Domain.JsonText
import DecisionCore.Domain.Models

/-!
# Leaf hashes, Merkle batches and the batch builder

The leaf formula, the tree of a closed batch with its inclusion proofs, the offline verifier, and
the accumulator that knows when an open batch is due.  The tree is an instance of the padded levels
of `MerkleTree`.
-/

namespace DecisionCore

/-- The text whose UTF-8 encoding `compute_leaf_hash` feeds to SHA-256. -/
def leafPreimage (env : Env) (decisionId metricName : String) (value : Json) (timestampIso : String)
    (evidenceRefs : List String) (idempotencyKey : String) : String :=
  "|".intercalate
    [decisionId, metricName, canonicalJson env value, timestampIso,
      ",".intercalate (sortedSet evidenceRefs), idempotencyKey]

def computeLeafHash (env : Env) (decisionId metricName : String) (value : Json) (timestampIso : String)
    (evidenceRefs : List String) (idempotencyKey : String) : Bytes :=
  env.sha256 (encodeUtf8
    (leafPreimage env decisionId metricName value timestampIso evidenceRefs idempotencyKey))

/-- `_hash_pair`. -/
def hashPair (sha256 : Bytes → Bytes) (left right : Bytes) : Bytes := sha256 (left ++ right)

/-- One sibling of an inclusion proof and its position relative to the node. -/
structure ProofStep where
  siblingHash : Bytes
  position : ProofPosition
  deriving DecidableEq, Repr

def ProofPosition.ofSide : MerkleTree.Side → ProofPosition
  | .left => .left
  | .right => .right

def ProofPosition.toSide : ProofPosition → MerkleTree.Side
  | .left => .left
  | .right => .right

@[simp] theorem ProofPosition.toSide_ofSide (side : MerkleTree.Side) :
    (ProofPosition.ofSide side).toSide = side := by cases side <;> rfl

/-! ## Closed batches -/

structure MerkleBatch where
  leaves : List Bytes
  levels : List (List Bytes)
  deriving DecidableEq

namespace MerkleBatch

def ofLeaves (leaves : List Bytes) : MerkleBatch := ⟨leaves, []⟩

/-- `close()`: build the padded levels and answer the root. -/
def close (sha256 : Bytes → Bytes) (batch : MerkleBatch) : Except PyError (MerkleBatch × Bytes) :=
  if batch.leaves.isEmpty then .error .valueError
  else
    let levels := MerkleTree.levels (hashPair sha256) batch.leaves
    match levels.getLast? with
    | some (root :: _) => .ok ({ batch with levels }, root)
    | _ => .error .indexError

/-- `proof_for(leaf_index)`. -/
def proofFor (batch : MerkleBatch) (leafIndex : ℤ) : Except PyError (List ProofStep) :=
  if batch.levels.isEmpty then .error .valueError
  else if 0 ≤ leafIndex ∧ leafIndex < batch.leaves.length then
    match MerkleTree.path batch.levels.dropLast leafIndex.toNat with
    | some steps => .ok (steps.map fun step ↦ ⟨step.2, .ofSide step.1⟩)
    | none => .error .indexError
  else .error .indexError

end MerkleBatch

/-- `verify_inclusion_proof(leaf_hash, proof, expected_root)`. -/
def verifyInclusionProof (sha256 : Bytes → Bytes) (leafHash : Bytes) (proof : List ProofStep)
    (expectedRoot : Bytes) : Bool :=
  decide (proof.foldl (fun current step ↦
    match step.position with
    | .right => hashPair sha256 current step.siblingHash
    | .left => hashPair sha256 step.siblingHash current) leafHash = expectedRoot)

/-! ## The open batch -/

/-- One leaf still waiting in an open batch. -/
structure PendingLeaf where
  leafHash : Bytes
  eventId : String
  decisionId : String
  deriving DecidableEq, Repr

structure MerkleBatchBuilder where
  maxLeaves : ℤ
  maxSeconds : ℚ
  pending : List PendingLeaf
  firstLeafTs : Option ℚ

namespace MerkleBatchBuilder

def new (maxLeaves : ℤ) (maxSeconds : ℚ) : MerkleBatchBuilder := ⟨maxLeaves, maxSeconds, [], none⟩

def addLeaf (builder : MerkleBatchBuilder) (leaf : PendingLeaf) (nowTs : ℚ) : MerkleBatchBuilder :=
  { builder with
    firstLeafTs := some (builder.firstLeafTs.getD nowTs)
    pending := builder.pending ++ [leaf] }

def shouldClose (builder : MerkleBatchBuilder) (nowTs : ℚ) : Bool :=
  if builder.pending.isEmpty then false
  else if builder.maxLeaves ≤ builder.pending.length then true
  else match builder.firstLeafTs with
    | some first => decide (builder.maxSeconds ≤ nowTs - first)
    | none => false

def hasPending (builder : MerkleBatchBuilder) : Bool := !builder.pending.isEmpty

/-- `close_and_reset()`: the builder is reset only after the tree was built. -/
def closeAndReset (sha256 : Bytes → Bytes) (builder : MerkleBatchBuilder) :
    MerkleBatchBuilder × Except PyError (MerkleBatch × Bytes × List PendingLeaf) :=
  match (MerkleBatch.ofLeaves (builder.pending.map (·.leafHash))).close sha256 with
  | .error error => (builder, .error error)
  | .ok (batch, root) =>
    ({ builder with pending := [], firstLeafTs := none }, .ok (batch, root, builder.pending))

end MerkleBatchBuilder

/-! ## Completeness of the proofs of a closed batch -/

namespace MerkleBatch

variable (sha256 : Bytes → Bytes) {leaves : List Bytes}

/-- A non-empty batch closes, and every leaf of it has a proof that the verifier accepts. -/
theorem close_complete (hne : leaves ≠ []) :
    ∃ batch root, (ofLeaves leaves).close sha256 = .ok (batch, root) ∧ batch.leaves = leaves ∧
      ∀ (index : ℕ) (leaf : Bytes), leaves[index]? = some leaf →
        ∃ proof, batch.proofFor index = .ok proof ∧ proof.length = Nat.clog 2 leaves.length ∧
          verifyInclusionProof sha256 leaf proof root = true := by
  have hempty : leaves.isEmpty = false := by simpa using hne
  obtain ⟨first, hfirst⟩ : ∃ first, leaves[0]? = some first :=
    ⟨_, List.getElem?_eq_getElem (List.length_pos_of_ne_nil hne)⟩
  obtain ⟨-, root, -, hlast, -, -⟩ :=
    MerkleTree.levels_complete (hashPair sha256) hfirst
  have hclose : (ofLeaves leaves).close sha256 =
      .ok (⟨leaves, MerkleTree.levels (hashPair sha256) leaves⟩, root) := by
    simp [close, ofLeaves, hempty, hlast]
  refine ⟨_, root, hclose, rfl, ?_⟩
  intro index leaf hleaf
  obtain ⟨steps, top, hpath, htop, hclimb, hlength⟩ :=
    MerkleTree.levels_complete (hashPair sha256) hleaf
  obtain rfl : root = top := by simpa using hlast.symm.trans htop
  have hindex : index < leaves.length := (List.getElem?_eq_some_iff.mp hleaf).1
  have hlevels : (MerkleTree.levels (hashPair sha256) leaves).isEmpty = false := by
    rw [List.isEmpty_eq_false_iff]
    exact MerkleTree.levelsWith_ne_nil _ _ _
  refine ⟨steps.map fun step ↦ ⟨step.2, .ofSide step.1⟩, ?_, by simpa using hlength, ?_⟩
  · simp [proofFor, hlevels, hindex, hpath]
  · rw [verifyInclusionProof, decide_eq_true_iff, List.foldl_map, ← hclimb, MerkleTree.climb]
    congr 1
    funext current step
    obtain ⟨side, sibling⟩ := step
    cases side <;> rfl

end MerkleBatch

end DecisionCore
