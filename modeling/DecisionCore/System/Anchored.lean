import DecisionCore.Infrastructure.LocalEnv
import DecisionCore.System.Custody

/-!
# Anchored means provable

The rows of the projection store are inclusion proofs under signed roots whatever was interrupted,
and a batch is marked only after every row of it was written and every publication of it appended.
Rows are overwritten and never removed, and the trail only grows, so both survive to every later
state.
-/

namespace DecisionCore

open CommandHandler MerkleAnchorService ScoreboardProjector

variable {env : Env}

/-! ## Rows -/

/-- The proof path of a row as bytes. -/
def decodeProof (path : List ProofNode) : Option (List ProofStep) :=
  path.mapM fun node ↦ (fromhex node.hash).map fun siblingHash ↦ ⟨siblingHash, node.position⟩

/-- The row proves the leaf under a root it carries the signature of. -/
structure RowOk (env : Env) (leaf : Bytes) (row : ProofRow) : Prop where
  leafHash : row.leafHash = hex leaf
  verifies : ∃ proof root, decodeProof row.proofPath = some proof ∧ fromhex row.root = some root ∧
    verifyInclusionProof env.sha256 leaf proof root = true ∧ row.anchorSignature = hex (env.sign root)
  timestamp : ∃ now, row.anchorTimestamp = env.isoformat now

theorem decodeProof_encode (proof : List ProofStep) :
    decodeProof (proof.map fun step ↦ ⟨hex step.siblingHash, step.position⟩) = some proof := by
  induction proof with
  | nil => rfl
  | cons step rest ih =>
    rw [decodeProof] at ih ⊢
    simp [ih]

/-- The rows of a stamped job are right. -/
theorem StampOk.rowOk {stamped : StampedJob} (h : StampOk env stamped) {index : ℕ} {leaf : Bytes}
    {proof : List ProofStep} (hop : .setProof index leaf ∈ anchorOps stamped.job)
    (hproof : stamped.job.batch.proofFor index = .ok proof) : RowOk env leaf (proofRow stamped leaf proof) := by
  obtain ⟨found, hfound, hverify⟩ := h.job.proofs _ _ (setProof_mem_anchorOps.mp hop)
  obtain rfl : proof = found := Except.ok.inj (hproof.symm.trans hfound)
  refine ⟨rfl, ⟨proof, stamped.job.root, decodeProof_encode proof, fromhex_hex _, hverify, ?_⟩, h.timestamp⟩
  exact congrArg hex h.signature

theorem proofKey_inj {first second : String} : proofKey first = proofKey second ↔ first = second :=
  String.append_right_inj _

theorem scoreboardKey_ne_proofKey (decisionId leafHex : String) :
    scoreboardKey decisionId ≠ proofKey leafHex := by
  intro h
  have hhead := congrArg (fun text : String ↦ text.toList.head?) h
  simp [scoreboardKey, proofKey] at hhead

/-- Rows under the key of a proof prove the leaf the key is about. -/
def RowsOk (env : Env) (store : ProjectionStore) : Prop :=
  ∀ text stored, store.get? (proofKey text) = some stored →
    ∃ leaf row, text = hex leaf ∧ stored = .proof row ∧ RowOk env leaf row

namespace RowsOk

variable {store : ProjectionStore}

theorem board (h : RowsOk env store) (decisionId : String) (board : ScoreboardState) :
    RowsOk env (store.set (scoreboardKey decisionId) (.scoreboard board)) := by
  intro text stored hstored
  rw [Dict.get?_set, if_neg (scoreboardKey_ne_proofKey _ _)] at hstored
  exact h text stored hstored

theorem row (h : RowsOk env store) {leaf : Bytes} {row : ProofRow} (hrow : RowOk env leaf row) :
    RowsOk env (store.set (proofKey (hex leaf)) (.proof row)) := by
  intro other stored hstored
  rw [Dict.get?_set] at hstored
  split at hstored
  · rename_i hkey
    exact ⟨leaf, row, (proofKey_inj.mp hkey).symm, (Option.some.inj hstored).symm, hrow⟩
  · exact h other stored hstored

end RowsOk

theorem Ran.rowsOk {state next : AppState} {stamped : StampedJob} {op : AnchorOp}
    {result : Except PyError Unit} (hran : Ran env state stamped op (next, result))
    (hstamp : StampOk env stamped) (hop : op ∈ anchorOps stamped.job)
    (h : RowsOk env state.projectionStore) : RowsOk env next.projectionStore := by
  cases hran with
  | unproved _ => exact h
  | row hproof => exact h.row (hstamp.rowOk hop hproof)
  | published happends => rwa [happends.store]
  | marked => exact h

/-! ## The straight line of a closer -/

/-- The operation has had its effect. -/
def Took (state : AppState) (stamped : StampedJob) : AnchorOp → Prop
  | .setProof _ leaf => (state.projectionStore.get? (proofKey (hex leaf))).isSome = true
  | .publishRoot decisionId => ∃ eventId,
    ⟨eventId, .str decisionId, "MerkleRootPublished", payloadCommon stamped, none⟩ ∈ state.auditTrail.events
  | .markBatched => True

theorem Took.persists {state next : AppState} {stamped : StampedJob} {op : AnchorOp}
    (h : Took state stamped op) (hpersists : Persists state next) : Took next stamped op := by
  cases op with
  | setProof index leaf => exact hpersists.rows _ h
  | publishRoot decisionId =>
    obtain ⟨eventId, hmem⟩ := h
    exact ⟨eventId, hpersists.events.subset hmem⟩
  | markBatched => trivial

theorem Ran.took {state next : AppState} {stamped : StampedJob} {op : AnchorOp}
    (h : Ran env state stamped op (next, .ok ())) : Took next stamped op := by
  cases h with
  | row _ => simp [Took]
  | published happends => exact ⟨env.uuid4 state.drawn, by rw [happends.events]; simp⟩
  | marked => trivial

/-- The operations before the ones a task still has to run have had their effect. -/
def Task.Progress (state : AppState) (task : Task) : Prop :=
  ∀ stamped todo, task.pc = .anchoring stamped todo →
    ∃ done, anchorOps stamped.job = done ++ todo ∧ ∀ op ∈ done, Took state stamped op

/-- A marked batch was published in full. -/
def PublishedInFull (env : Env) (state : AppState) (job : AnchorJob) : Prop :=
  ∃ stamped : StampedJob, stamped.job = job ∧ StampOk env stamped ∧
    ∀ op ∈ anchorOps job, Took state stamped op

structure Anchored (env : Env) (sys : System) : Prop where
  rows : RowsOk env sys.state.projectionStore
  progress : ∀ task ∈ sys.tasks, task.Progress sys.state
  marked : ∀ job ∈ sys.history.marked, PublishedInFull env sys.state job

theorem Task.Progress.persists {state next : AppState} {task : Task} (h : task.Progress state)
    (hpersists : Persists state next) : task.Progress next := by
  intro stamped todo hpc
  obtain ⟨done, hops, htook⟩ := h stamped todo hpc
  exact ⟨done, hops, fun op hop ↦ (htook op hop).persists hpersists⟩

theorem PublishedInFull.persists {state next : AppState} {job : AnchorJob}
    (h : PublishedInFull env state job) (hpersists : Persists state next) : PublishedInFull env next job := by
  obtain ⟨stamped, hjob, hstamp, htook⟩ := h
  exact ⟨stamped, hjob, hstamp, fun op hop ↦ (htook op hop).persists hpersists⟩

/-- Running the last operation completes the publication. -/
theorem Task.Progress.completed {state next : AppState} {task : Task} {job : AnchorJob}
    (h : task.Progress state) (hsound : task.Sound env) (hmarks : task.marks? = some job)
    (hpersists : Persists state next) : PublishedInFull env next job := by
  unfold Task.marks? at hmarks
  split at hmarks
  · rename_i stamped todo hpc
    obtain rfl := Option.some.inj hmarks
    obtain ⟨-, hstamp, -, hsuffix⟩ := hsound.anchoring _ _ hpc
    obtain rfl := (anchorOps_suffix hsuffix).mp rfl
    obtain ⟨done, hops, htook⟩ := h _ _ hpc
    refine ⟨stamped, rfl, hstamp, ?_⟩
    intro op hop
    rw [hops, List.mem_append, List.mem_singleton] at hop
    rcases hop with hdone | rfl
    · exact (htook op hdone).persists hpersists
    · trivial
  · cases hmarks

theorem Resumed.rowsOk {now : Instant} {state next : AppState} {task : Task} {move : Move}
    (hres : Resumed env now state task next move) (hsound : task.Sound env)
    (h : RowsOk env state.projectionStore) : RowsOk env next.projectionStore := by
  cases hres with
  | quiet happends _ _ _ _ => rwa [happends.store]
  | committed _ _ _ happends => rwa [happends.store]
  | stored _ => exact h.board _ _
  | anchored hpc hran =>
    obtain ⟨-, hstamp, -, hsuffix⟩ := hsound.anchoring _ _ hpc
    exact hran.rowsOk hstamp (hsuffix.subset List.mem_cons_self) h
  | _ => exact h

theorem Resumed.progress {now : Instant} {state next : AppState} {task : Task} {move : Move}
    (hres : Resumed env now state task next move) (h : task.Progress state) :
    ∀ other ∈ task.after move, other.Progress next := by
  have hpersists := hres.changes.persists
  intro other hother
  cases hres with
  | quiet _ _ _ _ hcalm =>
    cases hcalm with
    | gate _ =>
      obtain rfl := List.mem_singleton.mp hother
      exact fun _ _ hpc ↦ by cases hpc
    | board _ =>
      obtain rfl := List.mem_singleton.mp hother
      exact fun _ _ hpc ↦ by cases hpc
    | _ => cases hother
  | committed _ _ _ _ =>
    obtain rfl := List.mem_singleton.mp hother
    exact fun _ _ hpc ↦ by cases hpc
  | closed _ _ _ _ _ =>
    obtain rfl := List.mem_singleton.mp hother
    exact fun _ _ hpc ↦ by cases hpc
  | signed _ =>
    obtain rfl := List.mem_singleton.mp hother
    exact fun _ _ hpc ↦ by cases hpc
  | stamped _ =>
    obtain rfl := List.mem_singleton.mp hother
    rintro stamped todo ⟨⟩
    exact ⟨[], rfl, by simp⟩
  | @anchored stamped op todo _ hpc hran =>
    obtain ⟨done, hops, htook⟩ := h _ _ hpc
    cases todo with
    | nil => cases hother
    | cons op' todo =>
      obtain rfl := List.mem_singleton.mp hother
      rintro stamped todo ⟨⟩
      refine ⟨done ++ [op], by simpa using hops, ?_⟩
      intro done' hdone'
      rcases List.mem_append.mp hdone' with hold | hnew
      · exact (htook done' hold).persists hpersists
      · obtain rfl := List.mem_singleton.mp hnew
        exact hran.took
  | _ => cases hother

theorem Anchored.stepped {sys next : System} {label : Label} (h : Anchored env sys)
    (hstepped : Stepped env sys label next) : Anchored env next := by
  have hpersists := hstepped.changes.persists
  cases hstepped with
  | started =>
    refine ⟨h.rows, ?_, h.marked⟩
    intro task htask
    rcases List.mem_append.mp htask with hold | hnew
    · exact h.progress task hold
    · obtain rfl := List.mem_singleton.mp hnew
      exact fun _ _ hpc ↦ by cases hpc
  | @resumed _ _ task _ _ htask hsound hres =>
    have hprogress := h.progress task (List.mem_of_getElem? htask)
    refine ⟨hres.rowsOk hsound h.rows, System.forall_advance htask
      (fun other hother ↦ (h.progress other hother).persists hpersists) (hres.progress hprogress), ?_⟩
    intro job hjob
    rcases List.mem_append.mp hjob with hold | hnew
    · exact (h.marked job hold).persists hpersists
    · exact hprogress.completed hsound (Option.mem_toList.mp hnew) hpersists
  | @failed _ took task htask hsound _ =>
    have hprogress := h.progress task (List.mem_of_getElem? htask)
    refine ⟨?_, fun other hother ↦ (h.progress other (List.mem_of_mem_eraseIdx hother)).persists hpersists, ?_⟩
    · cases took with
      | false => exact h.rows
      | true =>
        obtain ⟨call, pc⟩ := task
        cases pc with
        | anchoring stamped todo =>
          cases todo with
          | nil => exact h.rows
          | cons op todo =>
            obtain ⟨-, hstamp, -, hsuffix⟩ := hsound.anchoring _ _ rfl
            exact (runOp_cases env sys.state stamped op).rowsOk hstamp (hsuffix.subset List.mem_cons_self) h.rows
        | _ => exact h.rows
    · intro job hjob
      rcases List.mem_append.mp hjob with hold | hnew
      · exact (h.marked job hold).persists hpersists
      · cases took with
        | false => cases hnew
        | true => exact hprogress.completed hsound (Option.mem_toList.mp hnew) hpersists

/-- The leaves of a marked batch are leaves of stored events. -/
theorem Ledger.marked_leaf {sys : System} (h : Ledger env sys) {job : AnchorJob} (hjob : job ∈ sys.history.marked)
    {leaf : PendingLeaf} (hleaf : leaf ∈ job.pending) :
    job ∈ sys.history.closed ∧ ∃ entry ∈ sys.state.auditTrail.events, entry.leaf? = some leaf := by
  have hclosed : job ∈ sys.history.closed := by
    have hcount := h.jobs job
    have hpos := List.count_pos_iff.mpr hjob
    exact List.count_pos_iff.mp (by omega)
  have hadded : leaf ∈ sys.history.added.map Prod.fst := by
    rw [← h.pending]
    exact List.mem_append_left _ (List.mem_flatMap.mpr ⟨job, hclosed, hleaf⟩)
  have hcount := h.leaves leaf
  have hpos := List.count_pos_iff.mpr hadded
  obtain ⟨entry, hentry, hsome⟩ := List.mem_filterMap.mp (List.count_pos_iff.mp
    (by omega : 0 < (sys.state.auditTrail.events.filterMap Entry.leaf?).count leaf))
  exact ⟨hclosed, entry, hentry, hsome⟩

section Runs

variable {maxLeaves : ℤ} {maxSeconds : ℚ} {trace : List (System × Label)} {last : System}

theorem Run.anchored (run : Run (System.step env) (System.initial maxLeaves maxSeconds) trace last) :
    Anchored env last := by
  refine run.always (Anchored env) ⟨?_, ?_, ?_⟩ fun _ hstepped h ↦ h.stepped hstepped
  · simp [RowsOk, System.initial, AppState.initial]
  · simp [System.initial]
  · simp [System.initial]

/-- A marked event is a commit, and its leaf is in a marked batch. -/
theorem Run.marked_leaf (run : Run (System.step env) (System.initial maxLeaves maxSeconds) trace last)
    {eventId : String} (hbatched : eventId ∈ last.state.auditTrail.batched) :
    ∃ job ∈ last.history.marked, job ∈ last.history.closed ∧ ∃ leaf ∈ job.pending, leaf.eventId = eventId ∧
      ∃ entry ∈ last.state.auditTrail.events, entry.leaf? = some leaf := by
  have hledger := run.ledger
  rw [hledger.batched, List.mem_toFinset, eventIdsOf, List.mem_flatMap] at hbatched
  obtain ⟨job, hjob, hid⟩ := hbatched
  obtain ⟨leaf, hleaf, rfl⟩ := List.mem_map.mp hid
  obtain ⟨hclosed, hentry⟩ := hledger.marked_leaf hjob hleaf
  exact ⟨job, hjob, hclosed, leaf, hleaf, rfl, hentry⟩

/-- Two entries of the trail with one identifier are one entry. -/
theorem TrailOk.entry_unique {state : AppState} (h : TrailOk env state) {first second : Entry}
    (hfirst : first ∈ state.auditTrail.events) (hsecond : second ∈ state.auditTrail.events)
    (hid : first.eventId = second.eventId) : first = second :=
  List.inj_on_of_nodup_map h.ids hfirst hsecond hid

/-- A publication is read back from the streams of its decision. -/
theorem Took.published {state : AppState} {stamped : StampedJob} {decisionId : String}
    (h : Took state stamped (.publishRoot decisionId)) :
    ∃ record ∈ state.auditTrail.readRange decisionId 0,
      record.hasType "MerkleRootPublished" = true ∧
        record.get? "batch_id" = some (.str stamped.job.batchId) ∧
        record.get? "root" = some (.str (hex stamped.job.root)) := by
  obtain ⟨eventId, hmem⟩ := h
  refine ⟨_, List.mem_map.mpr ⟨_, MemoryAuditTrail.mem_entriesOf.mpr ⟨hmem, rfl⟩, rfl⟩, ?_, ?_, ?_⟩
  · simp [PyDict.hasType_iff, Entry.record_get?, Entry.envelope, payloadCommon]
  · simp [Entry.record_get?, payloadCommon]
  · simp [Entry.record_get?, payloadCommon]

/-- A leaf of a batch that was published in full has its row. -/
theorem PublishedInFull.row {state : AppState} {job : AnchorJob} (h : PublishedInFull env state job)
    (hrows : RowsOk env state.projectionStore) {leaf : PendingLeaf} (hleaf : leaf ∈ job.pending) :
    ∃ row, state.projectionStore.get? (proofKey (hex leaf.leafHash)) = some (.proof row) ∧
      RowOk env leaf.leafHash row := by
  obtain ⟨stamped, rfl, hstamp, htook⟩ := h
  have hmem : leaf.leafHash ∈ stamped.job.batch.leaves := by
    rw [hstamp.job.leaves]
    exact List.mem_map.mpr ⟨_, hleaf, rfl⟩
  obtain ⟨index, hindex⟩ := List.mem_iff_getElem?.mp hmem
  have hrow := htook (.setProof index leaf.leafHash) (setProof_mem_anchorOps.mpr hindex)
  obtain ⟨stored, hstored⟩ := Option.isSome_iff_exists.mp hrow
  obtain ⟨other, row, hhex, rfl, hok⟩ := hrows _ _ hstored
  exact ⟨row, hstored, hex_injective hhex ▸ hok⟩

/-- A batch that was published in full is published to the system and to the decisions of its leaves. -/
theorem PublishedInFull.published {state : AppState} {job : AnchorJob} (h : PublishedInFull env state job)
    {decisionId : String} (hdecision : decisionId = "system" ∨ decisionId ∈ job.pending.map (·.decisionId)) :
    ∃ record ∈ state.auditTrail.readRange decisionId 0,
      record.hasType "MerkleRootPublished" = true ∧
        record.get? "batch_id" = some (.str job.batchId) ∧
        record.get? "root" = some (.str (hex job.root)) := by
  obtain ⟨stamped, rfl, hstamp, htook⟩ := h
  exact (htook (.publishRoot decisionId) (publishRoot_mem_anchorOps.mpr hdecision)).published

/-- The proof row of a commit and the publication of its batch. -/
theorem Run.provable (run : Run (System.step env) (System.initial maxLeaves maxSeconds) trace last) :
    ∀ eventId ∈ last.state.auditTrail.batched,
      (∃ commit : Commit, commit.entry env eventId ∈ last.state.auditTrail.events) ∧
        ∀ commit : Commit, commit.entry env eventId ∈ last.state.auditTrail.events →
          (∃ row, last.state.projectionStore.get? (proofKey (hex (commit.leafHash env))) = some (.proof row) ∧
            RowOk env (commit.leafHash env) row) ∧
          ∃ job ∈ last.history.closed, commit.leaf env eventId ∈ job.pending ∧
            ∀ decisionId ∈ [commit.decisionId, "system"],
              ∃ record ∈ last.state.auditTrail.readRange decisionId 0,
                record.hasType "MerkleRootPublished" = true ∧
                  record.get? "batch_id" = some (.str job.batchId) ∧
                  record.get? "root" = some (.str (hex job.root)) := by
  intro eventId hbatched
  obtain ⟨job, hmarked, hclosed, leaf, hleaf, hleafId, entry, hentry, hsome⟩ := run.marked_leaf hbatched
  have hid : eventId = entry.eventId := hleafId.symm.trans (Entry.eventId_of_leaf? hsome)
  have hpublished := run.anchored.marked job hmarked
  refine ⟨?_, ?_⟩
  · obtain ⟨commit, hcommit⟩ := run.committed_entry hentry (Entry.committed_of_leaf? hsome)
    exact ⟨commit, by rw [hid, ← hcommit]; exact hentry⟩
  · intro commit hcommit
    -- The identifier belongs to one entry, so the leaf of the batch is the leaf of this commit.
    obtain rfl : commit.entry env eventId = entry := run.trailOk.entry_unique hcommit hentry hid
    obtain rfl : commit.leaf env eventId = leaf := by simpa using hsome
    refine ⟨hpublished.row run.anchored.rows hleaf, job, hclosed, hleaf, ?_⟩
    intro decisionId hdecision
    rcases List.mem_cons.mp hdecision with rfl | hsystem
    · exact hpublished.published (.inr (List.mem_map.mpr ⟨_, hleaf, rfl⟩))
    · exact hpublished.published (.inl (List.mem_singleton.mp hsystem))

/-- Whatever fails or is cancelled: every event that is marked batched is a commit whose leaf has a
row that verifies under a signed root, and the root of its batch is published to its decision and to
the system. -/
theorem anchored_means_provable
    (run : Run (System.step env) (System.initial maxLeaves maxSeconds) trace last) :
    ∀ eventId ∈ last.state.auditTrail.batched,
      (∃ commit : Commit, commit.entry env eventId ∈ last.state.auditTrail.events) ∧
        ∀ commit : Commit, commit.entry env eventId ∈ last.state.auditTrail.events →
          (∃ row, last.state.projectionStore.get? (proofKey (hex (commit.leafHash env))) = some (.proof row) ∧
            row.leafHash = hex (commit.leafHash env) ∧
            ∃ proof root, decodeProof row.proofPath = some proof ∧ fromhex row.root = some root ∧
              verifyInclusionProof env.sha256 (commit.leafHash env) proof root = true ∧
              row.anchorSignature = hex (env.sign root)) ∧
          ∃ job ∈ last.history.closed, commit.leaf env eventId ∈ job.pending ∧
            ∀ decisionId ∈ [commit.decisionId, "system"],
              ∃ record ∈ last.state.auditTrail.readRange decisionId 0,
                record.hasType "MerkleRootPublished" = true ∧
                  record.get? "batch_id" = some (.str job.batchId) ∧
                  record.get? "root" = some (.str (hex job.root)) := by
  intro eventId hbatched
  obtain ⟨hcommitted, hall⟩ := run.provable eventId hbatched
  refine ⟨hcommitted, ?_⟩
  intro commit hcommit
  obtain ⟨⟨row, hrow, hok⟩, hpublished⟩ := hall commit hcommit
  exact ⟨⟨row, hrow, hok.leafHash, hok.verifies⟩, hpublished⟩

/-- After a commit and a forced close the commit is marked, and so the theorem speaks of it. -/
theorem anchored_after_commitAndClose :
    ∃ last, follow (System.step .local) (System.initial 100 60) commitAndClose = some last ∧
      ∃ eventId ∈ last.state.auditTrail.batched, ∃ commit : Commit,
        commit.entry .local eventId ∈ last.state.auditTrail.events ∧
          ∃ row, last.state.projectionStore.get? (proofKey (hex (commit.leafHash .local))) = some (.proof row) ∧
            row.leafHash = hex (commit.leafHash .local) := by
  have hsome : ((follow (System.step .local) (System.initial 100 60) commitAndClose).map
      fun last ↦ decide (LocalEnv.uuid4 0 ∈ last.state.auditTrail.batched)) = some true := by decide +kernel
  obtain ⟨last, hlast, hmem⟩ := Option.map_eq_some_iff.mp hsome
  have hbatched := of_decide_eq_true hmem
  obtain ⟨⟨commit, hcommit⟩, hall⟩ := anchored_means_provable (Run.of_follow hlast) _ hbatched
  obtain ⟨⟨row, hrow, hleaf, -⟩, -⟩ := hall commit hcommit
  exact ⟨last, hlast, _, hbatched, commit, hcommit, row, hrow, hleaf⟩

end Runs

end DecisionCore
