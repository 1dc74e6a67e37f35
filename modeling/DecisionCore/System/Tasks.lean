import DecisionCore.Lib.Transition
import DecisionCore.Application.MerkleAnchorService
import DecisionCore.Application.ScoreboardProjector

/-!
# Interleaved calls

The service as a step system.  Any number of calls are in flight; each is suspended before one of
its segments, and a step either starts a call, runs one segment of a call, or lets the await a
closer is at fail.  A failed await may or may not have had its effect.  History fields record what
the steps did and are never read by them.
-/

namespace DecisionCore

open CommandHandler MerkleAnchorService

/-- The entry points of the service. -/
inductive Call where
  | updateMetric (cmd : UpdateMetricCommand)
  | inbound (kind : Inbound) (payload : PyDict)
  | supersede (args : SupersedeArgs)
  | rebuild (decisionId : String) (requiredMetrics : List String)
  | maybeCloseAndAnchor
  | forceClose

/-- The calls of the anchor service. -/
def Call.isCloser : Call → Bool
  | maybeCloseAndAnchor => true
  | forceClose => true
  | _ => false

/-- The segment a suspended call runs next. -/
inductive Pc where
  | entry
  | reconciledGate (payload : PyDict)
  | addLeaf (step : AddLeafStep)
  | storeBoard (board : ScoreboardState)
  | sign (job : AnchorJob)
  | stamp (job : AnchorJob) (signature : Bytes)
  | anchoring (stamped : StampedJob) (todo : List AnchorOp)

structure Task where
  call : Call
  pc : Pc

/-- The result of a call; for a committing call the result of its `_commit`. -/
abbrev Answer := Except PyError (Option UpdateMetricResult)

/-- How a segment ends: at the next await, or with the call. -/
inductive Move where
  | next (pc : Pc)
  | finish (answer : Answer)

variable (env : Env)

def Move.ofProgress : Except PyError Progress → Move
  | .error error => .finish (.error error)
  | .ok (.done result) => .finish (.ok result)
  | .ok (.addLeaf step) => .next (.addLeaf step)

def Move.ofUnit : Except PyError Unit → Move
  | .error error => .finish (.error error)
  | .ok () => .finish (.ok none)

/-- The first segment of a closer behind its guard. -/
def closeIf (guard : Bool) (state : AppState) : AppState × Move :=
  if guard then
    match closeEntry env state with
    | (state, .error error) => (state, .finish (.error error))
    | (state, .ok job) => (state, .next (.sign job))
  else (state, .finish (.ok none))

/-- The first segment of a call. -/
def enter (now : Instant) (state : AppState) : Call → AppState × Move
  | .updateMetric cmd =>
    let (state, progress) := updateMetricEntry env state now cmd
    (state, .ofProgress progress)
  | .inbound .reconciledDecision payload =>
    match reconciledEntry env state payload with
    | (state, .error error) => (state, .finish (.error error))
    | (state, .ok ()) => (state, .next (.reconciledGate payload))
  | .inbound kind payload =>
    let (state, result) := onInbound env state now kind payload
    (state, .ofUnit result)
  | .supersede args =>
    let (state, result) := supersedeMetric env state now args
    (state, .ofUnit result)
  | .rebuild decisionId requiredMetrics =>
    match ScoreboardProjector.project env decisionId requiredMetrics now
      (state.auditTrail.readRange decisionId 0) with
    | .error error => (state, .finish (.error error))
    | .ok board => (state, .next (.storeBoard board))
  | .maybeCloseAndAnchor => closeIf env (state.merkleBuilder.shouldClose (timestamp now)) state
  | .forceClose => closeIf env state.merkleBuilder.hasPending state

/-- One segment of a suspended call. -/
def resume (now : Instant) (state : AppState) (task : Task) : AppState × Move :=
  match task.pc with
  | .entry => enter env now state task.call
  | .reconciledGate payload =>
    let (state, progress) := reconciledGate env state now payload
    (state, .ofProgress progress)
  | .addLeaf step =>
    let (state, result) := commitFinish state step
    (state, .finish (.ok (some result)))
  | .storeBoard board =>
    let projectionStore := state.projectionStore.set (ScoreboardProjector.scoreboardKey board.decisionId)
      (.scoreboard board)
    ({ state with projectionStore }, .finish (.ok none))
  | .sign job => (state, .next (.stamp job (env.sign job.root)))
  | .stamp job signature =>
    (state, .next (.anchoring ⟨job, signature, env.isoformat now⟩ (anchorOps job)))
  | .anchoring _ [] => (state, .finish (.ok none))
  | .anchoring stamped (op :: todo) =>
    match runOp env state stamped op with
    | (state, .error error) => (state, .finish (.error error))
    | (state, .ok ()) =>
      (state, if todo.isEmpty then .finish (.ok none) else .next (.anchoring stamped todo))

/-- The state left behind by an await of a closer that fails after it had its effect. -/
def failedEffect (state : AppState) (task : Task) : AppState :=
  match task.pc with
  | .anchoring stamped (op :: _) => (runOp env state stamped op).1
  | _ => state

/-- What the steps did so far. -/
structure History where
  /-- Leaves in the order of their `add_leaf`, with the moment given there. -/
  added : List (PendingLeaf × ℚ)
  /-- Batches in the order of their `close_and_reset`. -/
  closed : List AnchorJob
  /-- Batches whose mark took effect. -/
  marked : List AnchorJob
  /-- Batches whose anchoring failed before they were marked. -/
  lost : List AnchorJob
  /-- Finished calls with their results. -/
  answers : List (Call × Answer)

structure System where
  state : AppState
  tasks : List Task
  history : History

/-- The batch a task is anchoring; marking it is the last thing such a task does. -/
def Task.job? (task : Task) : Option AnchorJob :=
  match task.pc with
  | .sign job => some job
  | .stamp job _ => some job
  | .anchoring stamped _ => some stamped.job
  | _ => none

/-- The leaf a task has appended to the trail and not yet added to the open batch. -/
def Task.addLeaf? (task : Task) : Option AddLeafStep :=
  match task.pc with
  | .addLeaf step => some step
  | _ => none

/-- The batch a segment has closed. -/
def Move.closed? (task : Task) (move : Move) : Option AnchorJob :=
  match task.pc, move with
  | .entry, .next (.sign job) => some job
  | _, _ => none

inductive Label where
  | start (call : Call)
  | resume (index : ℕ) (now : Instant)
  | fail (index : ℕ) (took : Bool)

/-- The batch a task is about to mark. -/
def Task.marks? (task : Task) : Option AnchorJob :=
  match task.pc with
  | .anchoring stamped (.markBatched :: _) => some stamped.job
  | _ => none

/-- The batch that is marked after all when the await a task is at fails. -/
def Task.markedBy (task : Task) (took : Bool) : Option AnchorJob :=
  if took then task.marks? else none

/-- The batch that is lost when the await a task is at fails. -/
def Task.lostBy (task : Task) (took : Bool) : Option AnchorJob :=
  if (task.markedBy took).isSome then none else task.job?

namespace System

def initial (maxLeaves : ℤ) (maxSeconds : ℚ) : System :=
  ⟨.initial maxLeaves maxSeconds, [], ⟨[], [], [], [], []⟩⟩

/-- The system after a segment of the task at `index`. -/
def advance (sys : System) (index : ℕ) (task : Task) (state : AppState) (move : Move) : System where
  state := state
  tasks := match move with
    | .next pc => sys.tasks.set index { task with pc }
    | .finish _ => sys.tasks.eraseIdx index
  history :=
    { sys.history with
      added := sys.history.added ++ (task.addLeaf?.map fun step ↦ (step.leaf, step.nowTs)).toList
      closed := sys.history.closed ++ (move.closed? task).toList
      marked := sys.history.marked ++ task.marks?.toList
      answers := match move with
        | .next _ => sys.history.answers
        | .finish answer => sys.history.answers ++ [(task.call, answer)] }

/-- The system after the await of the task at `index` failed. -/
def drop (sys : System) (index : ℕ) (task : Task) (took : Bool) (state : AppState) : System where
  state := state
  tasks := sys.tasks.eraseIdx index
  history :=
    { sys.history with
      marked := sys.history.marked ++ (task.markedBy took).toList
      lost := sys.history.lost ++ (task.lostBy took).toList
      answers := sys.history.answers ++ [(task.call, .error .external)] }

def step (sys : System) : Label → Option System
  | .start call => some { sys with tasks := sys.tasks ++ [⟨call, .entry⟩] }
  | .resume index now => do
    let task ← sys.tasks[index]?
    let (state, move) := resume env now sys.state task
    return sys.advance index task state move
  | .fail index took => do
    let task ← sys.tasks[index]?
    if task.call.isCloser then
      return sys.drop index task took (if took then failedEffect env sys.state task else sys.state)
    else none

end System

/-! ## A run to follow -/

def sampleCommit (metricName : String) (value : Json) (key : String) : UpdateMetricCommand :=
  ⟨"d1", metricName, value, key, ["e1"], "agent", .null⟩

def sampleCommand : UpdateMetricCommand := sampleCommit "roi" (.int 1) "k1"

/-- A call that runs its segments at the epoch without an interruption. -/
def uninterrupted (call : Call) (segments : ℕ) : List Label :=
  .start call :: List.replicate segments (.resume 0 0)

/-- One commit, and a forced close that anchors it. -/
def commitAndClose : List Label :=
  uninterrupted (.updateMetric sampleCommand) 2 ++ uninterrupted .forceClose 7

end DecisionCore
