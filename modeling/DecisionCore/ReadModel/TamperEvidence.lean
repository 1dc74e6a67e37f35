import DecisionCore.Application.LeafPreimage
import DecisionCore.Merkle.Roots
import DecisionCore.ReadModel.PublishedRoots
import DecisionCore.System.Provable

/-!
# What a published root says about the past

Whoever holds a published root and its leaf count can be shown a history and recompute the root from it.  A history
that passes is the one the service has committed, commit by commit and in the order of the batch, or a collision of
the hash is found among what was hashed.
-/

namespace DecisionCore

open CommandHandler MerkleAnchorService MerkleTree

variable {env : Env}

/-! ## Roots in the trail -/

/-- What is stored as a root is the common payload of a batch that the process has closed. -/
def Process.RootsClosed (env : Env) (process : Process) : Prop :=
  ∀ entry ∈ process.stored, entry.eventType = "MerkleRootPublished" →
    ∃ stamped, StampOk env stamped ∧ stamped.job ∈ process.history.closed ∧ entry.payload = payloadCommon stamped

section Segments

variable {now : Instant} {state next : AppState} {task : Task} {move : Move}

/-- A root is stored for the batch that the task is anchoring. -/
def RootOf (env : Env) (task : Task) (entry : Entry) : Prop :=
  entry.eventType = "MerkleRootPublished" →
    ∃ stamped, StampOk env stamped ∧ task.job? = some stamped.job ∧ entry.payload = payloadCommon stamped

/-- A closer that has no batch is at its entry. -/
theorem Task.Sound.entry_of_closer (h : task.Sound env) (hcloser : task.call.isCloser = true)
    (hadd : task.addLeaf? = none) (hjob : task.job? = none) : task.pc = .entry := by
  cases hpc : task.pc with
  | entry => rfl
  | reconciledGate payload => simp [h.gate payload hpc, Call.isCloser] at hcloser
  | addLeaf step => simp [Task.addLeaf?, hpc] at hadd
  | storeBoard board => simp [Call.isCloser_of_isRebuild (h.board board hpc)] at hcloser
  | sign job => simp [Task.job?, hpc] at hjob
  | stamp job signature => simp [Task.job?, hpc] at hjob
  | anchoring stamped todo => simp [Task.job?, hpc] at hjob

theorem Ran.rooted {stamped : StampedJob} {op : AnchorOp} {result : Except PyError Unit}
    (h : Ran env state stamped op (next, result)) (hstamp : StampOk env stamped)
    (hjob : task.job? = some stamped.job) :
    ∃ stored : Option Entry, next.auditTrail.events = state.auditTrail.events ++ stored.toList ∧
      ∀ entry ∈ stored, RootOf env task entry := by
  cases h with
  | published happends =>
    refine ⟨_, happends.events, ?_⟩
    rintro entry ⟨⟩ _
    exact ⟨stamped, hstamp, hjob, rfl⟩
  | _ => exact ⟨none, (List.append_nil _).symm, by simp⟩

theorem Resumed.rooted (h : Resumed env now state task next move) (hsound : task.Sound env)
    (hresume : resume env now state task = (next, move)) :
    ∃ stored : Option Entry, next.auditTrail.events = state.auditTrail.events ++ stored.toList ∧
      ∀ entry ∈ stored, RootOf env task entry := by
  cases h with
  | @quiet _ _ stored happends horigin hadd hjob _ =>
    by_cases hcloser : task.call.isCloser = true
    · have hpc := hsound.entry_of_closer hcloser hadd hjob
      have htrail : (resume env now state task).1.auditTrail = state.auditTrail := resume_closer_entry hcloser hpc
      rw [hresume] at htrail
      exact ⟨none, by rw [htrail]; exact (List.append_nil _).symm, by simp⟩
    · refine ⟨stored, happends.events, ?_⟩
      intro entry hentry htype
      cases horigin entry hentry with
      | @inbound kind _ _ _ => exact absurd htype kind.eventType_ne_registry.2.2.2
      | rejected _ => simp at htype
      | superseded _ => simp at htype
      | published hcall _ => exact absurd hcall hcloser
  | committed _ _ _ happends =>
    refine ⟨_, happends.events, ?_⟩
    rintro entry ⟨⟩ htype
    simp [Commit.entry] at htype
  | anchored hpc hran =>
    obtain ⟨-, hstamp, -, -⟩ := hsound.anchoring _ _ hpc
    exact hran.rooted hstamp (by simp [Task.job?, hpc])
  | _ => exact ⟨none, (List.append_nil _).symm, by simp⟩

theorem failedEffect_rooted (hsound : task.Sound env) :
    ∃ stored : Option Entry,
      (failedEffect env state task).auditTrail.events = state.auditTrail.events ++ stored.toList ∧
        ∀ entry ∈ stored, RootOf env task entry := by
  unfold failedEffect
  split
  · rename_i stamped op todo hpc
    obtain ⟨-, hstamp, -, -⟩ := hsound.anchoring _ _ hpc
    exact (runOp_cases env state stamped op).rooted hstamp (by simp [Task.job?, hpc])
  · exact ⟨none, (List.append_nil _).symm, by simp⟩

end Segments

section Steps

variable {shared : Shared} {process : Process} {label : Label} {sys : System}

/-- The event that a step appends is no root, or that of a batch of one of the tasks of the process. -/
theorem Stepped.rooted (h : Stepped env (process.system shared) label sys) :
    ∃ stored : Option Entry, sys.state.auditTrail.events = shared.auditTrail.events ++ stored.toList ∧
      ∀ entry ∈ stored, ∃ task ∈ process.tasks, RootOf env task entry := by
  cases h with
  | started => exact ⟨none, (List.append_nil _).symm, by simp⟩
  | resumed htask hsound hres hresume =>
    obtain ⟨stored, hevents, hrooted⟩ := hres.rooted hsound hresume
    exact ⟨stored, hevents, fun entry hentry ↦ ⟨_, List.mem_of_getElem? htask, hrooted entry hentry⟩⟩
  | @failed index took task htask hsound _ =>
    cases took with
    | false => exact ⟨none, (List.append_nil _).symm, by simp⟩
    | true =>
      obtain ⟨stored, hevents, hrooted⟩ : ∃ stored : Option Entry,
          (failedEffect env (process.system shared).state task).auditTrail.events =
            shared.auditTrail.events ++ stored.toList ∧ ∀ entry ∈ stored, RootOf env task entry :=
        failedEffect_rooted hsound
      exact ⟨stored, hevents, fun entry hentry ↦ ⟨_, List.mem_of_getElem? htask, hrooted entry hentry⟩⟩

theorem Stepped.closed_prefix (h : Stepped env (process.system shared) label sys) :
    process.history.closed <+: (process.after shared sys).history.closed := by
  cases h with
  | resumed => exact List.prefix_append _ _
  | _ => exact List.prefix_rfl

theorem Process.RootsClosed.stepped (h : process.RootsClosed env) (ledger : Ledger env process.ownSystem)
    (hstepped : Stepped env (process.system shared) label sys) : (process.after shared sys).RootsClosed env := by
  obtain ⟨stored, hevents, hrooted⟩ := hstepped.rooted
  intro entry hentry htype
  rw [Stepped.stored_eq hevents, List.mem_append, Option.mem_toList] at hentry
  obtain hold | hnew := hentry
  · obtain ⟨stamped, hstamp, hjob, hpayload⟩ := h entry hold htype
    exact ⟨stamped, hstamp, hstepped.closed_prefix.subset hjob, hpayload⟩
  · obtain ⟨task, htask, hroot⟩ := hrooted entry hnew
    obtain ⟨stamped, hstamp, hjob, hpayload⟩ := hroot htype
    -- A batch that is being anchored has been closed.
    have hheld : stamped.job ∈ process.ownSystem.held := List.mem_filterMap.mpr ⟨task, htask, hjob⟩
    have hclosed : stamped.job ∈ process.history.closed := by
      have hpos := List.count_pos_iff.mpr hheld
      have hcount : process.history.closed.count stamped.job = _ := ledger.jobs stamped.job
      exact List.count_pos_iff.mp (by omega)
    exact ⟨stamped, hstamp, hstepped.closed_prefix.subset hclosed, hpayload⟩

end Steps

theorem Deployment.rootRules (env : Env) : Components.Rules Process.boot (Process.act env)
    (fun shared ↦ TrailOk env shared.state) (fun _ process ↦ ProcessOk env process ∧ process.RootsClosed env)
    (fun shared next ↦ Persists shared.state next.state) where
  boots _ limits _ := ⟨processOk_boot limits, List.forall_mem_nil _⟩
  keeps := by
    intro shared next label process after htrail hprocess hact
    obtain ⟨ok, hroots⟩ := hprocess
    obtain ⟨hnext, hafter, hpersists⟩ := (Deployment.rules env).keeps htrail ok hact
    obtain ⟨sys, hstepped, -, rfl⟩ := Process.act_cases ok.sound hact
    exact ⟨hnext, ⟨hafter, hroots.stepped ok.ledger hstepped⟩, hpersists⟩
  stable _ hprocess := hprocess

theorem Ledger.closed_leaf {sys : System} (h : Ledger env sys) {job : AnchorJob} (hjob : job ∈ sys.history.closed)
    {leaf : PendingLeaf} (hleaf : leaf ∈ job.pending) :
    ∃ entry ∈ sys.state.auditTrail.events, entry.leaf? = some leaf := by
  have hadded : leaf ∈ sys.history.added.map Prod.fst := by
    rw [← h.pending]
    exact List.mem_append_left _ (List.mem_flatMap.mpr ⟨job, hjob, hleaf⟩)
  have hcount := h.leaves leaf
  have hpos := List.count_pos_iff.mpr hadded
  exact List.mem_filterMap.mp (List.count_pos_iff.mp (by omega))

/-! ## The batch of a root -/

/-- The arguments that the leaf of a commit was computed from. -/
def Commit.fields (env : Env) (commit : Commit) : LeafFields :=
  ⟨commit.decisionId, commit.metricName, commit.value, env.isoformat commit.now, commit.evidenceRefs,
    commit.idempotencyKey⟩

theorem Commit.leafHash_fields (env : Env) (commit : Commit) :
    (commit.fields env).leafHash env = commit.leafHash env := rfl

/-- The leaves of different commits of the trail that close with the root. -/
structure BatchOf (env : Env) (auditTrail : MemoryAuditTrail) (root : Bytes) (pending : List PendingLeaf) : Prop where
  commits : ∀ leaf ∈ pending, ∃ commit : Commit,
    commit.entry env leaf.eventId ∈ auditTrail.events ∧ leaf = commit.leaf env leaf.eventId
  distinct : (pending.map (·.eventId)).Nodup
  closes : ∃ batch, (MerkleBatch.ofLeaves (pending.map (·.leafHash))).close env.sha256 = .ok (batch, root)

section Runs

variable {trace : List (Deployment × Components.Action (ℤ × ℚ) Label)} {last : Deployment}

theorem Deployment.rootsClosed (run : Run (Deployment.step env) .initial trace last) {part : Component Process}
    (hpart : part ∈ last.parts) : part.own.RootsClosed env := by
  have hholds : Components.Holds (fun shared ↦ TrailOk env shared.state)
      (fun _ process ↦ ProcessOk env process ∧ process.RootsClosed env) last :=
    Components.holds_of_run (Deployment.rootRules env) (Deployment.trailOk .nil) run
  exact (hholds.own part hpart).2

/-- Behind every root of the trail stands a batch of commits of the trail with this root and as many leaves. -/
theorem Deployment.batchOf_root (run : Run (Deployment.step env) .initial trace last) {entry : Entry}
    (hentry : entry ∈ last.shared.auditTrail.events) (htype : entry.eventType = "MerkleRootPublished") :
    ∃ pending root, BatchOf env last.shared.auditTrail root pending ∧
      entry.payload.get? "root" = some (.str (hex root)) ∧
      entry.payload.get? "leaf_count" = some (.int pending.length) := by
  obtain ⟨part, hpart, hstored⟩ := List.mem_flatMap.mp ((Deployment.stored_perm run).mem_iff.mp hentry)
  obtain ⟨stamped, hstamp, hclosed, hpayload⟩ := Deployment.rootsClosed run hpart entry hstored htype
  have ok := Deployment.processOk run hpart
  obtain ⟨hjob, -⟩ := hstamp
  refine ⟨stamped.job.pending, stamped.job.root, ⟨?_, ?_, stamped.job.batch, hjob.root⟩, ?_, ?_⟩
  · intro leaf hleaf
    obtain ⟨row, hrow, hsome⟩ := ok.ledger.closed_leaf hclosed hleaf
    obtain ⟨commit, hcommit⟩ := ok.committed_entry hrow (Entry.committed_of_leaf? hsome)
    have hid : leaf.eventId = row.eventId := Entry.eventId_of_leaf? hsome
    refine ⟨commit, ?_, ?_⟩
    · rw [hid, ← hcommit]
      exact (Deployment.stored_perm run).mem_iff.mpr (List.mem_flatMap.mpr ⟨part, hpart, hrow⟩)
    · rw [hcommit, Commit.entry_leaf?] at hsome
      rw [hid]
      exact (Option.some.inj hsome).symm
  · have hids : ((part.own.history.added.map Prod.fst).map (·.eventId)).Nodup := by
      have hleaves := (leafIds_sublist part.own.stored).nodup (Deployment.ownIds_nodup run hpart)
      exact (List.nodup_append.mp (ok.ledger.addedIds_perm.nodup_iff.mp hleaves)).2.1
    have hadded : (part.own.history.added.map Prod.fst).map (·.eventId) = _ := ok.ledger.addedIds_eq
    rw [hadded] at hids
    exact (List.nodup_flatMap.mp (List.nodup_append.mp hids).1).1 _ hclosed
  · rw [hpayload]
    rfl
  · rw [hpayload]
    have hlength : stamped.job.batch.leaves.length = stamped.job.pending.length := by
      rw [hjob.leaves, List.length_map]
    rw [← hlength]
    rfl

/-! ## A history that is shown -/

/-- The history tells of the batch, commit by commit: each of its tuples has the preimage of the commit in its place,
and agrees with it in all fields if their boundaries cannot be moved. -/
def Recounts (env : Env) (auditTrail : MemoryAuditTrail) (claimed : List LeafFields) (pending : List PendingLeaf) :
    Prop :=
  List.Forall₂ (fun fields leaf ↦ ∃ commit : Commit, commit.entry env leaf.eventId ∈ auditTrail.events ∧
    leaf = commit.leaf env leaf.eventId ∧ fields.preimage env = (commit.fields env).preimage env ∧
      (fields.Plain env → fields.Agree (commit.fields env))) claimed pending

/-- Two different preimages with one hash, or two different pairs with one, among those that were hashed for the
history and for the batch. -/
def HistoryCollision (env : Env) (auditTrail : MemoryAuditTrail) (claimed : List LeafFields)
    (pending : List PendingLeaf) : Prop :=
  PairCollision env.sha256 (bothPairs env.sha256 (claimed.map (·.leafHash env)) (pending.map (·.leafHash))) ∨
    ∃ fields ∈ claimed, ∃ (commit : Commit) (eventId : String), commit.entry env eventId ∈ auditTrail.events ∧
      fields.preimage env ≠ (commit.fields env).preimage env ∧
        env.sha256 (fields.preimage env) = env.sha256 ((commit.fields env).preimage env)

/-- A history with the leaves of the batch recounts it, or one of its preimages collides. -/
theorem recounts_of_leaves (henv : env.FloatTexts) {auditTrail : MemoryAuditTrail} {claimed : List LeafFields}
    {pending : List PendingLeaf}
    (hcommits : ∀ leaf ∈ pending, ∃ commit : Commit,
      commit.entry env leaf.eventId ∈ auditTrail.events ∧ leaf = commit.leaf env leaf.eventId)
    (h : claimed.map (·.leafHash env) = pending.map (·.leafHash)) :
    Recounts env auditTrail claimed pending ∨ HistoryCollision env auditTrail claimed pending := by
  by_cases hcollision : HistoryCollision env auditTrail claimed pending
  · exact .inr hcollision
  · have hsame : List.Forall₂ (fun fields leaf ↦ fields.leafHash env = leaf.leafHash) claimed pending := by
      have hmaps : List.Forall₂ Eq (claimed.map (·.leafHash env)) (pending.map (·.leafHash)) := by
        rw [List.forall₂_eq_eq_eq, h]
      simpa only [List.forall₂_map_left_iff, List.forall₂_map_right_iff] using hmaps
    rw [List.forall₂_iff_zip] at hsame
    left
    rw [Recounts, List.forall₂_iff_zip]
    refine ⟨hsame.1, ?_⟩
    intro fields leaf hzip
    obtain ⟨hfields, hleaf⟩ := List.of_mem_zip hzip
    obtain ⟨commit, hentry, hcommit⟩ := hcommits leaf hleaf
    have hhash : fields.leafHash env = (commit.fields env).leafHash env := by
      calc fields.leafHash env = leaf.leafHash := hsame.2 hzip
        _ = commit.leafHash env := congrArg PendingLeaf.leafHash hcommit
        _ = (commit.fields env).leafHash env := (commit.leafHash_fields env).symm
    have hpreimage : fields.preimage env = (commit.fields env).preimage env := by
      by_contra hne
      exact hcollision (.inr ⟨fields, hfields, commit, leaf.eventId, hentry, hne, hhash⟩)
    refine ⟨commit, hentry, hcommit, hpreimage, ?_⟩
    intro hplain
    exact hplain.unambiguous henv (commit.fields env) hpreimage

/-- Two commits that are anchored in one batch. -/
def twoAnchored : List (Components.Action (ℤ × ℚ) Label) :=
  .boot (1000, 5) :: (uninterrupted (.updateMetric sampleCommand) 2 ++
    uninterrupted (.updateMetric (sampleCommit "cost" (.int 2) "k2")) 2 ++ uninterrupted .forceClose 8).map (.act 0)

/-- What is shown of them. -/
def shownHistory : List LeafFields :=
  [plainLeaf, ⟨"d1", "cost", .int 2, LocalEnv.epochText, ["e1"], "k2"⟩]

def shownRoot : Except PyError (MerkleBatch × Bytes) :=
  (MerkleBatch.ofLeaves (shownHistory.map (·.leafHash .local))).close Sha256.digest

/-- The entry is a root of so many leaves. -/
def rootOf? (entry : Entry) : Option (ℤ × String) :=
  match entry.payload.get? "leaf_count", entry.payload.get? "root" with
  | some (.int count), some (.str root) => some (count, root)
  | _, _ => none

theorem get?_of_rootOf? {entry : Entry} {count : ℤ} {root : String} (h : rootOf? entry = some (count, root)) :
    entry.payload.get? "leaf_count" = some (.int count) ∧ entry.payload.get? "root" = some (.str root) := by
  unfold rootOf? at h
  split at h
  · rename_i hcount hroot
    obtain ⟨rfl, rfl⟩ := Prod.mk.inj (Option.some.inj h)
    exact ⟨hcount, hroot⟩
  · cases h

end Runs

end DecisionCore
