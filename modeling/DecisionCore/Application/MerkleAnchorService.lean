import DecisionCore.Application.CommandHandler

/-!
# Merkle Anchor Service

`_close_and_anchor` empties the open batch and then signs, timestamps, stores and publishes.  After
the timestamp its awaits form a straight line: one proof row for each leaf, one publication for the
system and for each covered decision, and the batched mark.  They are kept as a list of operations,
so that a run may stop between any two of them.
-/

namespace DecisionCore.MerkleAnchorService

variable (env : Env)

/-- A closed batch on its way to being anchored. -/
structure AnchorJob where
  batch : MerkleBatch
  root : Bytes
  pending : List PendingLeaf
  batchId : String
  deriving DecidableEq

/-- A job whose root has been signed and timestamped. -/
structure StampedJob where
  job : AnchorJob
  signature : Bytes
  timestampIso : String

/-- The awaits after the timestamp. -/
inductive AnchorOp where
  | setProof (index : ℕ) (leaf : Bytes)
  | publishRoot (decisionId : String)
  | markBatched
  deriving DecidableEq

def proofKey (leafHex : String) : String := "merkle_proof:" ++ leafHex

def proofRow (stamped : StampedJob) (leaf : Bytes) (proof : List ProofStep) : ProofRow where
  leafHash := hex leaf
  proofPath := proof.map fun step ↦ ⟨hex step.siblingHash, step.position⟩
  root := hex stamped.job.root
  anchorSignature := hex stamped.signature
  anchorTimestamp := stamped.timestampIso
  batchId := stamped.job.batchId

def payloadCommon (stamped : StampedJob) : PyDict :=
  ⟨[("batch_id", .str stamped.job.batchId), ("root", .str (hex stamped.job.root)),
    ("leaf_count", .int stamped.job.batch.leaves.length),
    ("anchor_signature", .str (hex stamped.signature)),
    ("anchor_timestamp", .str stamped.timestampIso)]⟩

/-- The decisions a batch covers, in the order of the publications. -/
def coveredDecisions (job : AnchorJob) : List String := sortedSet (job.pending.map (·.decisionId))

def anchorOps (job : AnchorJob) : List AnchorOp :=
  job.batch.leaves.mapIdx .setProof ++ .publishRoot "system" ::
    ((coveredDecisions job).map .publishRoot ++ [.markBatched])

/-- One await of the straight line. -/
def runOp (state : AppState) (stamped : StampedJob) : AnchorOp → AppState × Except PyError Unit
  | .setProof index leaf =>
    match stamped.job.batch.proofFor index with
    | .error error => (state, .error error)
    | .ok proof =>
      let projectionStore := state.projectionStore.set (proofKey (hex leaf))
        (.proof (proofRow stamped leaf proof))
      ({ state with projectionStore }, .ok ())
  | .publishRoot decisionId =>
    discard (state.append env (.str decisionId) "MerkleRootPublished" (payloadCommon stamped) none)
  | .markBatched =>
    ({ state with auditTrail := state.auditTrail.markBatched (stamped.job.pending.map (·.eventId)) },
      .ok ())

def runOps (stamped : StampedJob) : AppState → List AnchorOp → AppState × Except PyError Unit
  | state, [] => (state, .ok ())
  | state, op :: rest =>
    match runOp env state stamped op with
    | (state, .error error) => (state, .error error)
    | (state, .ok ()) => runOps stamped state rest

/-- First segment of `_close_and_anchor`: the builder is emptied and the batch gets its id. -/
def closeEntry (state : AppState) : AppState × Except PyError AnchorJob :=
  match state.merkleBuilder.closeAndReset env.sha256 with
  | (merkleBuilder, .error error) => ({ state with merkleBuilder }, .error error)
  | (merkleBuilder, .ok (batch, root, pending)) =>
    ({ state with merkleBuilder, drawn := state.drawn + 1 },
      .ok ⟨batch, root, pending, env.uuid4 state.drawn⟩)

/-- `_close_and_anchor()` without an interruption; `now` is the moment of the timestamp token. -/
def closeAndAnchor (state : AppState) (now : Instant) : AppState × Except PyError (Option String) :=
  match closeEntry env state with
  | (state, .error error) => (state, .error error)
  | (state, .ok job) =>
    let stamped : StampedJob := ⟨job, env.sign job.root, env.isoformat now⟩
    match runOps env stamped state (anchorOps job) with
    | (state, .error error) => (state, .error error)
    | (state, .ok ()) => (state, .ok (some job.batchId))

def maybeCloseAndAnchor (state : AppState) (now : Instant) : AppState × Except PyError (Option String) :=
  if state.merkleBuilder.shouldClose (timestamp now) then closeAndAnchor env state now
  else (state, .ok none)

def forceClose (state : AppState) (now : Instant) : AppState × Except PyError (Option String) :=
  if state.merkleBuilder.hasPending then closeAndAnchor env state now else (state, .ok none)

end DecisionCore.MerkleAnchorService
