import DecisionCore.System.Anchored
import DecisionCore.System.Ownership

/-!
# Provable over all processes

The proofs and the boards are rows of one store that all processes write to, in any interleaving.  A row of a
proof is right whichever process wrote it last, a row of a board is the board of its decision at some earlier
moment, and what one process has marked is provable to all of them.
-/

namespace DecisionCore

open CommandHandler MerkleAnchorService ScoreboardProjector

variable {env : Env}

/-! ## Boards -/

/-- The board is one of its decision, read from the trail at this or an earlier moment. -/
def BoardOk (env : Env) (auditTrail : MemoryAuditTrail) (board : ScoreboardState) : Prop :=
  ∃ requiredMetrics now log, log <+: auditTrail.readRange board.decisionId 0 ∧
    project env board.decisionId requiredMetrics now log = .ok board

theorem BoardOk.later {first second : MemoryAuditTrail} {board : ScoreboardState} (h : BoardOk env first board)
    (hevents : first.events <+: second.events) : BoardOk env second board := by
  obtain ⟨requiredMetrics, now, log, hlog, hboard⟩ := h
  exact ⟨requiredMetrics, now, log, hlog.trans (MemoryAuditTrail.readRange_prefix hevents _), hboard⟩

theorem project_decisionId {decisionId : String} {requiredMetrics : List String} {now : Instant}
    {log : List PyDict} {board : ScoreboardState} (h : project env decisionId requiredMetrics now log = .ok board) :
    board.decisionId = decisionId := by
  simp only [project, bind_eq_ok] at h
  obtain ⟨_, _, _, _, _, _, _, _, _, _, _, _, hboard⟩ := h
  rw [← Except.ok.inj hboard]

/-- Rows under the key of a board are boards of its decision. -/
def BoardsOk (env : Env) (auditTrail : MemoryAuditTrail) (store : ProjectionStore) : Prop :=
  ∀ decisionId stored, store.get? (scoreboardKey decisionId) = some stored →
    ∃ board, stored = .scoreboard board ∧ board.decisionId = decisionId ∧ BoardOk env auditTrail board

namespace BoardsOk

variable {auditTrail later : MemoryAuditTrail} {store : ProjectionStore}

theorem grown (h : BoardsOk env auditTrail store) (hevents : auditTrail.events <+: later.events) :
    BoardsOk env later store := by
  intro decisionId stored hstored
  obtain ⟨board, hboard, hdecision, hok⟩ := h decisionId stored hstored
  exact ⟨board, hboard, hdecision, hok.later hevents⟩

theorem proof (h : BoardsOk env auditTrail store) (text : String) (row : StoreRow) :
    BoardsOk env auditTrail (store.set (proofKey text) row) := by
  intro decisionId stored hstored
  rw [Dict.get?_set, if_neg (scoreboardKey_ne_proofKey decisionId text).symm] at hstored
  exact h decisionId stored hstored

theorem board (h : BoardsOk env auditTrail store) {board : ScoreboardState} (hboard : BoardOk env auditTrail board) :
    BoardsOk env auditTrail (store.set (scoreboardKey board.decisionId) (.scoreboard board)) := by
  intro decisionId stored hstored
  rw [Dict.get?_set] at hstored
  split at hstored
  · rename_i hkey
    exact ⟨board, (Option.some.inj hstored).symm, String.append_right_inj _ |>.mp hkey, hboard⟩
  · exact h decisionId stored hstored

end BoardsOk

theorem Move.ofProgress_ne_board {progress : Except PyError Progress} {board : ScoreboardState} :
    Move.ofProgress progress ≠ .next (.storeBoard board) := by
  intro h
  rcases progress with error | result | step <;> cases h

theorem Move.ofUnit_ne_board {result : Except PyError Unit} {board : ScoreboardState} :
    Move.ofUnit result ≠ .next (.storeBoard board) := by
  intro h
  rcases result with error | done <;> cases h

theorem closeIf_ne_board {guard : Bool} {state : AppState} {board : ScoreboardState} :
    (closeIf env guard state).2 ≠ .next (.storeBoard board) := by
  intro h
  unfold closeIf at h
  cases guard with
  | false => cases h
  | true =>
    rw [if_pos rfl] at h
    split at h <;> cases h

/-- The board that a segment leaves to be stored was read from the trail by it. -/
theorem boardOk_of_resume {now : Instant} {state next : AppState} {task : Task} {board : ScoreboardState}
    (h : resume env now state task = (next, .next (.storeBoard board))) : BoardOk env next.auditTrail board := by
  obtain ⟨call, pc⟩ := task
  have hmove := congrArg Prod.snd h
  cases pc with
  | entry =>
    cases call with
    | updateMetric cmd => exact absurd hmove Move.ofProgress_ne_board
    | inbound kind payload =>
      cases kind with
      | reconciledDecision =>
        simp only [resume, enter] at hmove
        split at hmove <;> cases hmove
      | _ => exact absurd hmove Move.ofUnit_ne_board
    | supersede args => exact absurd hmove Move.ofUnit_ne_board
    | rebuild decisionId requiredMetrics =>
      simp only [resume, enter] at h
      split at h
      · cases h
      · rename_i found hfound
        obtain ⟨rfl, hnext⟩ := Prod.mk.inj h
        obtain rfl : found = board := Pc.storeBoard.inj (Move.next.inj hnext)
        rw [← project_decisionId hfound] at hfound
        exact ⟨requiredMetrics, now, _, List.prefix_rfl, hfound⟩
    | maybeCloseAndAnchor => exact absurd hmove closeIf_ne_board
    | forceClose => exact absurd hmove closeIf_ne_board
  | reconciledGate payload => exact absurd hmove Move.ofProgress_ne_board
  | addLeaf step => cases hmove
  | storeBoard other => cases hmove
  | sign job => cases hmove
  | stamp job signature => cases hmove
  | anchoring stamped todo =>
    cases todo with
    | nil => cases hmove
    | cons op todo =>
      simp only [resume] at hmove
      split at hmove
      · cases hmove
      · dsimp only at hmove
        split at hmove <;> cases hmove

theorem Ran.boardsOk {state next : AppState} {stamped : StampedJob} {op : AnchorOp}
    {result : Except PyError Unit} (hran : Ran env state stamped op (next, result))
    (h : BoardsOk env state.auditTrail state.projectionStore) :
    BoardsOk env next.auditTrail next.projectionStore := by
  cases hran with
  | unproved _ => exact h
  | row hproof => exact h.proof _ _
  | published happends =>
    rw [happends.store]
    exact h.grown (happends.events ▸ List.prefix_append _ _)
  | marked => exact h

theorem Resumed.boardsOk {now : Instant} {state next : AppState} {task : Task} {move : Move}
    (hres : Resumed env now state task next move)
    (htask : ∀ board, task.pc = .storeBoard board → BoardOk env state.auditTrail board)
    (h : BoardsOk env state.auditTrail state.projectionStore) :
    BoardsOk env next.auditTrail next.projectionStore := by
  cases hres with
  | quiet happends _ _ _ _ =>
    rw [happends.store]
    exact h.grown (happends.events ▸ List.prefix_append _ _)
  | committed _ _ _ happends =>
    rw [happends.store]
    exact h.grown (happends.events ▸ List.prefix_append _ _)
  | stored hpc => exact h.board (htask _ hpc)
  | anchored _ hran => exact hran.boardsOk h
  | _ => exact h

/-! ## Rules of the processes -/

/-- The board that a task is to store is one of its decision. -/
def Task.BoardOk (env : Env) (auditTrail : MemoryAuditTrail) (task : Task) : Prop :=
  ∀ board, task.pc = .storeBoard board → DecisionCore.BoardOk env auditTrail board

/-- What all processes have made of the shared state together. -/
structure SharedOk (env : Env) (shared : Shared) : Prop where
  trail : TrailOk env shared.state
  rows : RowsOk env shared.projectionStore
  boards : BoardsOk env shared.auditTrail shared.projectionStore

/-- The process has published in full what it has marked, and the part that is done of what it is to mark. -/
structure Publishes (env : Env) (shared : Shared) (process : Process) : Prop where
  ok : ProcessOk env process
  anchored : Anchored env (process.system shared)
  boards : ∀ task ∈ process.tasks, task.BoardOk env shared.auditTrail

section Steps

variable {shared next : Shared} {process : Process} {label : Label} {sys : System}

theorem Stepped.boards_tasks (h : Stepped env (process.system shared) label sys)
    (htasks : ∀ task ∈ process.tasks, task.BoardOk env shared.auditTrail) :
    ∀ task ∈ sys.tasks, task.BoardOk env sys.state.auditTrail := by
  have hevents : shared.auditTrail.events <+: sys.state.auditTrail.events := h.changes.persists.events
  have hkept (task : Task) (htask : task ∈ process.tasks) : task.BoardOk env sys.state.auditTrail := by
    intro board hpc
    exact (htasks task htask board hpc).later hevents
  cases h with
  | started =>
    intro task htask
    obtain hold | hnew := List.mem_append.mp htask
    · exact hkept task hold
    · rw [List.mem_singleton.mp hnew]
      intro board hpc
      cases hpc
  | @resumed index now task state move htask hsound hres hresume =>
    apply System.forall_advance htask hkept
    intro other hother board hpc
    cases move with
    | next pc =>
      obtain rfl := List.mem_singleton.mp hother
      obtain rfl : pc = .storeBoard board := hpc
      exact boardOk_of_resume hresume
    | finish answer => cases hother
  | failed htask _ _ => exact fun task hmem ↦ hkept task (List.mem_of_mem_eraseIdx hmem)

theorem Stepped.boardsOk (h : Stepped env (process.system shared) label sys)
    (htasks : ∀ task ∈ process.tasks, task.BoardOk env shared.auditTrail)
    (hboards : BoardsOk env shared.auditTrail shared.projectionStore) :
    BoardsOk env sys.state.auditTrail sys.state.projectionStore := by
  cases h with
  | started => exact hboards
  | resumed htask _ hres _ => exact hres.boardsOk (htasks _ (List.mem_of_getElem? htask)) hboards
  | @failed index took task _ _ _ =>
    cases took with
    | false => exact hboards
    | true =>
      simp only [System.drop, if_true, failedEffect]
      split
      · exact (runOp_cases env _ _ _).boardsOk hboards
      · exact hboards

theorem Publishes.later (h : Publishes env shared process) (hpersists : Persists shared.state next.state)
    (hrows : RowsOk env next.projectionStore) : Publishes env next process where
  ok := h.ok
  anchored := by
    have hnext : Persists (process.system shared).state (process.system next).state :=
      ⟨hpersists.events, hpersists.rows, hpersists.batched⟩
    refine ⟨hrows, ?_, ?_⟩
    · exact fun task htask ↦ (h.anchored.progress task htask).persists hnext
    · exact fun job hjob ↦ (h.anchored.marked job hjob).persists hnext
  boards task htask board hpc := (h.boards task htask board hpc).later hpersists.events

end Steps

/-- What a process has published survives the steps of the others, which write right rows only. -/
theorem Deployment.publicationRules (env : Env) : Components.Rules Process.boot (Process.act env) (SharedOk env)
    (Publishes env) (fun shared next ↦ Persists shared.state next.state ∧ RowsOk env next.projectionStore) where
  boots shared limits hshared := by
    refine ⟨processOk_boot limits, ⟨hshared.rows, ?_, ?_⟩, ?_⟩
    · exact List.forall_mem_nil _
    · exact List.forall_mem_nil _
    · exact List.forall_mem_nil _
  keeps := by
    intro shared next label process after hshared hprocess hact
    obtain ⟨sys, hstepped, rfl, rfl⟩ := Process.act_cases hprocess.ok.sound hact
    obtain ⟨htrail, -, hpersists⟩ := (Deployment.rules env).keeps hshared.trail hprocess.ok hact
    have hanchored := hprocess.anchored.stepped hstepped
    have hboards := hstepped.boardsOk hprocess.boards hshared.boards
    refine ⟨⟨htrail, hanchored.rows, hboards⟩, ⟨hprocess.ok.stepped hstepped, hanchored, ?_⟩, hpersists,
      hanchored.rows⟩
    exact hstepped.boards_tasks hprocess.boards
  stable h hprocess := hprocess.later h.1 h.2

section Runs

variable {trace : List (Deployment × Components.Action (ℤ × ℚ) Label)} {last : Deployment}

theorem Deployment.publishes (run : Run (Deployment.step env) .initial trace last) :
    Components.Holds (SharedOk env) (Publishes env) last := by
  apply Components.holds_of_run (Deployment.publicationRules env) _ run
  refine ⟨(Deployment.trailOk .nil), ?_, ?_⟩
  · intro text stored hstored
    cases hstored
  · intro decisionId stored hstored
    cases hstored

/-- In every deployment: the stored row of a board is the board of a stream that its decision had at this or an
earlier moment, also when rebuilds of several processes overlap. -/
theorem stored_board_is_snapshot (run : Run (Deployment.step env) .initial trace last) {decisionId : String}
    {stored : StoreRow} (hstored : last.shared.projectionStore.get? (scoreboardKey decisionId) = some stored) :
    ∃ board requiredMetrics now log, stored = .scoreboard board ∧
      log <+: last.shared.auditTrail.readRange decisionId 0 ∧
      project env decisionId requiredMetrics now log = .ok board := by
  obtain ⟨board, hboard, rfl, requiredMetrics, now, log, hlog, hproject⟩ :=
    (Deployment.publishes run).shared.boards decisionId stored hstored
  exact ⟨board, requiredMetrics, now, log, hboard, hlog, hproject⟩

/-- A rebuild of one process reads the stream, and stores its board after a commit by another process. -/
def overlappingRebuild : List (Components.Action (ℤ × ℚ) Label) :=
  [.boot (1000, 5), .boot (1000, 5), .act 0 (.start (.rebuild "d1" [])), .act 0 (.resume 0 0),
    .act 1 (.start (.updateMetric sampleCommand)), .act 1 (.resume 0 0), .act 0 (.resume 0 0)]

/-- The stored board is of the stream before the commit. -/
theorem stored_board_of_overlappingRebuild : ∃ last stored,
    follow (Deployment.step .local) .initial overlappingRebuild = some last ∧
      last.shared.projectionStore.get? (scoreboardKey "d1") = some stored ∧
      (last.shared.auditTrail.readRange "d1" 0).length = 1 ∧
      ∃ board requiredMetrics now log, stored = .scoreboard board ∧ board.rebuildSeq = 0 ∧
        log <+: last.shared.auditTrail.readRange "d1" 0 ∧
        project .local "d1" requiredMetrics now log = .ok board := by
  have hrun : ((follow (Deployment.step .local) .initial overlappingRebuild).bind fun last ↦
      (last.shared.projectionStore.get? (scoreboardKey "d1")).map fun stored ↦
        decide ((last.shared.auditTrail.readRange "d1" 0).length = 1) &&
          (match stored with
          | .scoreboard board => decide (board.rebuildSeq = 0)
          | .proof _ => false)) = some true := by decide +kernel
  obtain ⟨last, hlast, hrun⟩ := Option.bind_eq_some_iff.mp hrun
  obtain ⟨stored, hstored, hrun⟩ := Option.map_eq_some_iff.mp hrun
  obtain ⟨hlength, hseq⟩ := Bool.and_eq_true_iff.mp hrun
  obtain ⟨board, requiredMetrics, now, log, rfl, hlog, hproject⟩ :=
    stored_board_is_snapshot (Run.of_follow hlast) hstored
  exact ⟨last, _, hlast, hstored, of_decide_eq_true hlength, board, requiredMetrics, now, log, rfl,
    of_decide_eq_true hseq, hlog, hproject⟩

/-- An event that a process has stored as a commit is one. -/
theorem ProcessOk.committed_entry {process : Process} (ok : ProcessOk env process) {entry : Entry}
    (hentry : entry ∈ process.stored) (htype : entry.eventType = "MetricCommitted") :
    ∃ commit : Commit, entry = commit.entry env entry.eventId := by
  obtain ⟨call, -, horigin | ⟨commit, -, hcommit⟩⟩ := ok.stored entry hentry
  · exact absurd htype horigin.eventType_ne_committed
  · exact ⟨commit, hcommit⟩

/-- The process and the batch that a marked event was marked with. -/
theorem Deployment.marked_commit (run : Run (Deployment.step env) .initial trace last) {eventId : String}
    (hbatched : eventId ∈ last.shared.auditTrail.batched) :
    ∃ part ∈ last.parts, ∃ job ∈ part.own.history.marked, PublishedInFull env last.shared.state job ∧
      (∃ commit : Commit, commit.entry env eventId ∈ last.shared.auditTrail.events) ∧
      ∀ commit : Commit, commit.entry env eventId ∈ last.shared.auditTrail.events →
        commit.leaf env eventId ∈ job.pending := by
  obtain ⟨part, hpart, hmarked⟩ := (Deployment.batched_iff run eventId).mp hbatched
  obtain ⟨job, hjob, hid⟩ := List.mem_flatMap.mp hmarked
  obtain ⟨leaf, hleaf, hleafId⟩ := List.mem_map.mp hid
  have hpublishes := (Deployment.publishes run).own part hpart
  have htrail := Deployment.trailOk run
  -- The leaf is one of an event that the process has stored, which is an event of the trail.
  obtain ⟨-, entry, hstored, hsome⟩ := hpublishes.ok.ledger.marked_leaf hjob hleaf
  have hentry : entry ∈ last.shared.auditTrail.events :=
    (Deployment.stored_perm run).mem_iff.mpr (List.mem_flatMap.mpr ⟨part, hpart, hstored⟩)
  have hentryId : eventId = entry.eventId := hleafId.symm.trans (Entry.eventId_of_leaf? hsome)
  refine ⟨part, hpart, job, hjob, hpublishes.anchored.marked job hjob, ?_, ?_⟩
  · obtain ⟨commit, hcommit⟩ := hpublishes.ok.committed_entry hstored (Entry.committed_of_leaf? hsome)
    exact ⟨commit, by rw [hentryId, ← hcommit]; exact hentry⟩
  · intro commit hcommit
    obtain rfl : commit.entry env eventId = entry := htrail.entry_unique hcommit hentry hentryId
    obtain rfl : commit.leaf env eventId = leaf := by simpa using hsome
    exact hleaf

theorem Deployment.batched_row (run : Run (Deployment.step env) .initial trace last) {eventId : String}
    (hbatched : eventId ∈ last.shared.auditTrail.batched) {commit : Commit}
    (hcommit : commit.entry env eventId ∈ last.shared.auditTrail.events) :
    ∃ row, last.shared.projectionStore.get? (proofKey (hex (commit.leafHash env))) = some (.proof row) ∧
      RowOk env (commit.leafHash env) row := by
  obtain ⟨-, -, job, -, hpublished, -, hleaf⟩ := Deployment.marked_commit run hbatched
  exact hpublished.row (Deployment.publishes run).shared.rows (hleaf commit hcommit)

/-- In every deployment, whatever processes are started, fail or are stopped at whatever moments: every event
that is marked batched is a commit, its row proves its leaf under a root with the signature of the service, and
the batch it was marked with is published to its decision and to the system. -/
theorem anchored_means_provable_over_processes (run : Run (Deployment.step env) .initial trace last) :
    ∀ eventId ∈ last.shared.auditTrail.batched,
      (∃ commit : Commit, commit.entry env eventId ∈ last.shared.auditTrail.events) ∧
        ∀ commit : Commit, commit.entry env eventId ∈ last.shared.auditTrail.events →
          (∃ row, last.shared.projectionStore.get? (proofKey (hex (commit.leafHash env))) = some (.proof row) ∧
            row.leafHash = hex (commit.leafHash env) ∧
            ∃ proof root, decodeProof row.proofPath = some proof ∧ fromhex row.root = some root ∧
              verifyInclusionProof env.sha256 (commit.leafHash env) proof root = true ∧
              row.anchorSignature = hex (env.sign root)) ∧
          ∃ part ∈ last.parts, ∃ job ∈ part.own.history.marked, commit.leaf env eventId ∈ job.pending ∧
            ∀ decisionId ∈ [commit.decisionId, "system"],
              ∃ record ∈ last.shared.auditTrail.readRange decisionId 0,
                record.hasType "MerkleRootPublished" = true ∧
                  record.get? "batch_id" = some (.str job.batchId) ∧
                  record.get? "root" = some (.str (hex job.root)) := by
  intro eventId hbatched
  obtain ⟨part, hpart, job, hjob, hpublished, hcommitted, hleaf⟩ := Deployment.marked_commit run hbatched
  refine ⟨hcommitted, ?_⟩
  intro commit hcommit
  obtain ⟨row, hrow, hok⟩ := Deployment.batched_row run hbatched hcommit
  refine ⟨⟨row, hrow, hok.leafHash, hok.verifies⟩, part, hpart, job, hjob, hleaf commit hcommit, ?_⟩
  intro decisionId hdecision
  obtain rfl | hsystem := List.mem_cons.mp hdecision
  · exact hpublished.published (.inr (List.mem_map.mpr ⟨_, hleaf commit hcommit, rfl⟩))
  · exact hpublished.published (.inl (List.mem_singleton.mp hsystem))

/-- One process commits and is stopped; another one commits and closes its batch. -/
def secondCloses : List (Components.Action (ℤ × ℚ) Label) :=
  stoppedActions ++ (uninterrupted (.updateMetric (sampleCommit "cost" (.int 2) "k2")) 2).map (.act 1) ++
    (uninterrupted .forceClose 7).map (.act 1)

/-- The commit of the second process is marked, and so the theorem speaks of it. -/
theorem provable_after_secondCloses : ∃ last,
    follow (Deployment.step .local) .initial secondCloses = some last ∧
      ∃ eventId ∈ last.shared.auditTrail.batched, ∃ commit : Commit,
        commit.entry .local eventId ∈ last.shared.auditTrail.events ∧
          ∃ row, last.shared.projectionStore.get? (proofKey (hex (commit.leafHash .local))) = some (.proof row) ∧
            row.leafHash = hex (commit.leafHash .local) := by
  have hsome : ((follow (Deployment.step .local) .initial secondCloses).map
      fun last ↦ decide (LocalEnv.uuid4 1 ∈ last.shared.auditTrail.batched)) = some true := by decide +kernel
  obtain ⟨last, hlast, hmem⟩ := Option.map_eq_some_iff.mp hsome
  have hbatched := of_decide_eq_true hmem
  obtain ⟨⟨commit, hcommit⟩, hall⟩ := anchored_means_provable_over_processes (Run.of_follow hlast) _ hbatched
  obtain ⟨⟨row, hrow, hleaf, -⟩, -⟩ := hall commit hcommit
  exact ⟨last, hlast, _, hbatched, commit, hcommit, row, hrow, hleaf⟩

end Runs

end DecisionCore
