import DecisionCore.Lib.Transition
import Mathlib.Data.Nat.Basic
import Mathlib.Order.Basic

/-!
# The consumer loop of the Kafka bus

One partition, with one consumer that takes its messages in offset order.  A commit without arguments
records the position behind the message taken last, whatever became of the messages before it.
-/

namespace DecisionCore.KafkaEventBus

/-- What becomes of a message: its handler raises, or completes and the commit behind it is recorded or not. -/
inductive Outcome where
  | raised
  | completed (recorded : Bool)
  deriving DecidableEq

/-- What can happen to the partition; a restart also stands for a rebalance.  A value that cannot be deserialized ends
`_loop` outside its `try`: no message is taken after it until a restart. -/
inductive Event (Message : Type) where
  | publish (message : Message)
  | take (outcome : Outcome)
  | restart
  deriving DecidableEq

/-- A partition and its consumer, with the offsets whose handler has completed and those where it has raised. -/
structure Partition (Message : Type) where
  log : List Message
  position : ℕ
  committed : ℕ
  completed : List ℕ
  raised : List ℕ

namespace Partition

variable {Message : Type}

/-- A consumer that starts at the committed offset. -/
def start (log : List Message) (offset : ℕ) : Partition Message := ⟨log, offset, offset, [], []⟩

def restarted (partition : Partition Message) : Partition Message :=
  { partition with position := partition.committed }

/-- One round of `_loop` on the message at the position; exceptions are logged only. -/
def loop (partition : Partition Message) : Outcome → Partition Message
  | .raised =>
    { partition with position := partition.position + 1, raised := partition.position :: partition.raised }
  | .completed recorded =>
    { partition with
      position := partition.position + 1
      completed := partition.position :: partition.completed
      committed := if recorded then partition.position + 1 else partition.committed }

def step (partition : Partition Message) : Event Message → Option (Partition Message)
  | .publish message => some { partition with log := partition.log ++ [message] }
  | .take outcome => if partition.position < partition.log.length then some (partition.loop outcome) else none
  | .restart => some partition.restarted

theorem step_cases {partition next : Partition Message} {event : Event Message}
    (h : partition.step event = some next) :
    (∃ message, event = .publish message ∧ next = { partition with log := partition.log ++ [message] }) ∨
      (∃ outcome, event = .take outcome ∧ next = partition.loop outcome) ∨
      (event = .restart ∧ next = partition.restarted) := by
  cases event with
  | publish message => exact .inl ⟨message, rfl, (Option.some.inj h).symm⟩
  | take outcome =>
    rw [step] at h
    split at h
    · exact .inr (.inl ⟨outcome, rfl, (Option.some.inj h).symm⟩)
    · cases h
  | restart => exact .inr (.inr ⟨rfl, (Option.some.inj h).symm⟩)

/-! ## Where the consumer has been -/

/-- The consumer has taken every message between its first offset and its position. -/
structure Covered (offset : ℕ) (partition : Partition Message) : Prop where
  committed_le : partition.committed ≤ partition.position
  taken : ∀ n, offset ≤ n → n < partition.position → n ∈ partition.completed ∨ n ∈ partition.raised
  raised_ge : ∀ n ∈ partition.raised, offset ≤ n
  offset_le : offset ≤ partition.committed

theorem covered_start (log : List Message) (offset : ℕ) : Covered offset (start log offset) where
  committed_le := le_rfl
  taken n hfrom hto := absurd hto (Nat.not_lt.mpr hfrom)
  raised_ge n h := by cases h
  offset_le := le_rfl

theorem Covered.step {offset : ℕ} {partition next : Partition Message} {event : Event Message}
    (covered : Covered offset partition) (h : partition.step event = some next) : Covered offset next := by
  have hposition : offset ≤ partition.position := covered.offset_le.trans covered.committed_le
  obtain ⟨message, -, rfl⟩ | ⟨outcome, -, rfl⟩ | ⟨-, rfl⟩ := step_cases h
  · exact ⟨covered.committed_le, covered.taken, covered.raised_ge, covered.offset_le⟩
  · cases outcome with
    | raised =>
      refine ⟨covered.committed_le.trans (Nat.le_succ _), ?_, ?_, covered.offset_le⟩
      · intro n hfrom hto
        obtain hbefore | rfl := Nat.lt_succ_iff_lt_or_eq.mp hto
        · exact (covered.taken n hfrom hbefore).imp_right (List.mem_cons_of_mem _)
        · exact .inr List.mem_cons_self
      · exact List.forall_mem_cons.mpr ⟨hposition, covered.raised_ge⟩
    | completed recorded =>
      have hbounds : offset ≤ (partition.loop (.completed recorded)).committed ∧
          (partition.loop (.completed recorded)).committed ≤ partition.position + 1 := by
        have hcommitted := covered.committed_le
        have hoffset := covered.offset_le
        cases recorded <;> simp only [Partition.loop, Bool.false_eq_true, if_true, if_false] <;> omega
      refine ⟨hbounds.2, ?_, covered.raised_ge, hbounds.1⟩
      intro n hfrom hto
      obtain hbefore | rfl := Nat.lt_succ_iff_lt_or_eq.mp hto
      · exact (covered.taken n hfrom hbefore).imp_left (List.mem_cons_of_mem _)
      · exact .inl List.mem_cons_self
  · refine ⟨le_rfl, ?_, covered.raised_ge, covered.offset_le⟩
    intro n hfrom hto
    exact covered.taken n hfrom (hto.trans_le covered.committed_le)

theorem covered_of_run {log : List Message} {offset : ℕ} {trace : List (Partition Message × Event Message)}
    {last : Partition Message} (run : Run step (start log offset) trace last) : Covered offset last :=
  run.invariant along_true (covered_start log offset) fun _ _ _ hstep covered ↦ covered.step hstep

/-! ## Acknowledged messages -/

/-- Every message below the committed offset has been handled, and a restart delivers every other one again on which
the handler has raised. -/
structure Acknowledges (offset : ℕ) (partition : Partition Message) : Prop where
  handled : ∀ n, offset ≤ n → n < partition.committed → n ∈ partition.completed
  redelivered : ∀ n ∈ partition.raised, n ∉ partition.completed → partition.restarted.position ≤ n

/-- A recorded commit leaves no message behind on which the handler has raised and never completed. -/
def OvertakesNone (partition : Partition Message) (event : Event Message) : Prop :=
  event = .take (.completed true) → ∀ n ∈ partition.raised, n < partition.position → n ∈ partition.completed

theorem Covered.acknowledges_iff {offset : ℕ} {partition : Partition Message} (covered : Covered offset partition) :
    Acknowledges offset partition ↔ ∀ n, offset ≤ n → n < partition.committed → n ∈ partition.completed := by
  refine ⟨Acknowledges.handled, fun h ↦ ⟨h, ?_⟩⟩
  intro n hraised hincomplete
  by_contra hbelow
  exact hincomplete (h n (covered.raised_ge n hraised) (Nat.lt_of_not_le hbelow))

theorem acknowledges_start (log : List Message) (offset : ℕ) : Acknowledges offset (start log offset) := by
  rw [(covered_start log offset).acknowledges_iff]
  intro n hfrom hto
  exact absurd hto (Nat.not_lt.mpr hfrom)

/-- One step keeps the promise if and only if it overtakes no failed message. -/
theorem acknowledges_step_iff {offset : ℕ} {partition next : Partition Message} {event : Event Message}
    (covered : Covered offset partition) (h : partition.step event = some next)
    (before : Acknowledges offset partition) : Acknowledges offset next ↔ OvertakesNone partition event := by
  rw [(covered.step h).acknowledges_iff, OvertakesNone]
  obtain ⟨message, rfl, rfl⟩ | ⟨outcome, rfl, rfl⟩ | ⟨rfl, rfl⟩ := step_cases h
  · exact iff_of_true before.handled fun hevent ↦ by cases hevent
  · match outcome with
    | .raised => exact iff_of_true before.handled fun hevent ↦ by cases hevent
    | .completed false =>
      refine iff_of_true (fun n hfrom hto ↦ ?_) fun hevent ↦ by cases hevent
      exact List.mem_cons_of_mem _ (before.handled n hfrom hto)
    | .completed true =>
      constructor
      · intro hhandled _ n hraised hbelow
        have hnext := hhandled n (covered.raised_ge n hraised) (Nat.lt_succ_of_lt hbelow)
        exact (List.mem_cons.mp hnext).resolve_left hbelow.ne
      · intro hovertakes n hfrom hto
        obtain hbelow | rfl := Nat.lt_succ_iff_lt_or_eq.mp hto
        · have hdone := (covered.taken n hfrom hbelow).elim id fun hraised ↦ hovertakes rfl n hraised hbelow
          exact List.mem_cons_of_mem _ hdone
        · exact List.mem_cons_self
  · exact iff_of_true before.handled fun hevent ↦ by cases hevent

/-- Along a run every message below the committed offset has been handled, if and only if no commit overtakes a
message whose handler has raised and has not completed. -/
theorem committed_are_handled_iff {log : List Message} {offset : ℕ} {trace : List (Partition Message × Event Message)}
    {last : Partition Message} (run : Run step (start log offset) trace last) :
    (∀ partition ∈ last :: trace.map Prod.fst, Acknowledges offset partition) ↔ Along OvertakesNone trace := by
  apply run.always_iff along_true (acknowledges_start log offset)
  intro before partition event next hbefore _ _ hstep hacknowledges
  exact acknowledges_step_iff (covered_of_run hbefore) hstep hacknowledges

/-- A message that fails, is delivered again after a restart and completes is not overtaken. -/
def redeliveredEvents : List (Event String) :=
  [.publish "a", .publish "b", .take .raised, .restart, .take (.completed true), .take (.completed true)]

theorem redelivered_are_handled : ∃ trace last, Run step (start ([] : List String) 0) trace last ∧
    last.committed = 2 ∧ ∀ partition ∈ last :: trace.map Prod.fst, Acknowledges 0 partition := by
  have hend : (follow step (start [] 0) redeliveredEvents).any (fun last ↦ decide (last.committed = 2)) = true := by
    decide
  have halong : Along OvertakesNone (traceOf step (start [] 0) redeliveredEvents) := by
    unfold Along OvertakesNone
    decide
  obtain ⟨last, hlast, hcommitted⟩ := exists_follow hend
  have hrun := Run.of_follow hlast
  exact ⟨_, last, hrun, hcommitted, (committed_are_handled_iff hrun).mpr halong⟩

/-- A failure followed by a success. -/
def overtakenEvents : List (Event String) :=
  [.publish "a", .publish "b", .take .raised, .take (.completed true)]

/-- The commit of the second message acknowledges the first one, whose handler has raised. -/
theorem failed_message_acknowledged : ∃ trace last, Run step (start ([] : List String) 0) trace last ∧
    ¬ Acknowledges 0 last := by
  have hend : (follow step (start [] 0) overtakenEvents).any
      (fun last ↦ decide (last.committed = 2 ∧ 0 ∉ last.completed)) = true := by decide
  obtain ⟨last, hlast, hcommitted, hfirst⟩ := exists_follow hend
  refine ⟨_, last, Run.of_follow hlast, fun h ↦ hfirst ?_⟩
  apply h.handled 0 le_rfl
  rw [hcommitted]
  decide

/-! ## Overtaken messages -/

/-- The consumer is past the message for good, and its handler has not completed. -/
structure Lost (n : ℕ) (partition : Partition Message) : Prop where
  acknowledged : n < partition.committed
  passed : partition.committed ≤ partition.position
  incomplete : n ∉ partition.completed

theorem Lost.step {n : ℕ} {partition next : Partition Message} {event : Event Message} (lost : Lost n partition)
    (h : partition.step event = some next) : Lost n next := by
  have hbehind := lost.acknowledged.trans_le lost.passed
  obtain ⟨message, -, rfl⟩ | ⟨outcome, -, rfl⟩ | ⟨-, rfl⟩ := step_cases h
  · exact ⟨lost.acknowledged, lost.passed, lost.incomplete⟩
  · match outcome with
    | .raised => exact ⟨lost.acknowledged, lost.passed.trans (Nat.le_succ _), lost.incomplete⟩
    | .completed false =>
      refine ⟨lost.acknowledged, lost.passed.trans (Nat.le_succ _), ?_⟩
      exact List.not_mem_cons_of_ne_of_not_mem hbehind.ne lost.incomplete
    | .completed true =>
      refine ⟨hbehind.trans (Nat.lt_succ_self _), le_rfl, ?_⟩
      exact List.not_mem_cons_of_ne_of_not_mem hbehind.ne lost.incomplete
  · exact ⟨lost.acknowledged, le_rfl, lost.incomplete⟩

/-- A message that was acknowledged without having been handled is never handled. -/
theorem Lost.of_run {n : ℕ} {partition last : Partition Message} {trace : List (Partition Message × Event Message)}
    (lost : Lost n partition) (run : Run Partition.step partition trace last) : Lost n last :=
  run.invariant along_true lost fun _ _ _ hstep hlost ↦ hlost.step hstep

end Partition

end DecisionCore.KafkaEventBus
