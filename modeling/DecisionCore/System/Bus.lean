import DecisionCore.Infrastructure.KafkaAdapter
import DecisionCore.System.Handled

/-!
# The bus and the processes

Every topic partition is read by one consumer at a time, which awaits the handler call it has started in
some process before it takes the next message.  A process that stops, or a rebalance, leaves the message that
is being handled to be delivered again; the call of a rebalanced message goes on.
-/

namespace DecisionCore

open CommandHandler MerkleAnchorService KafkaEventBus

/-- A message as `_register_event_routes` routes it: the handler of its topic, and the payload. -/
abbrev BusMessage := Inbound × PyDict

/-- A partition, the offset its consumers have started at, and the call that is awaited: a process and a place
among the tasks of it. -/
structure Consumer where
  partition : Partition BusMessage
  offset : ℕ
  awaiting : Option (ℕ × ℕ)

structure Site where
  deployment : Deployment
  consumers : List Consumer

/-- The task that a step ends, when it ends one. -/
def Label.task? : Label → Option ℕ
  | start _ => none
  | resume index _ => some index
  | fail index _ => some index

inductive SiteLabel where
  | boot (limits : ℤ × ℚ)
  | stop (process : ℕ)
  /-- A step of a process; `recorded` says whether a commit behind a handler that it completes is recorded. -/
  | act (process : ℕ) (label : Label) (recorded : Bool)
  /-- A consumer that starts at an offset of the log of its partition. -/
  | subscribe (log : List BusMessage) (offset : ℕ)
  | publish (consumer : ℕ) (message : BusMessage)
  | deliver (consumer process : ℕ)
  | rebalance (consumer : ℕ)

namespace Consumer

def message? (consumer : Consumer) : Option BusMessage :=
  consumer.partition.log[consumer.partition.position]?

/-- The consumer reads again from the committed offset. -/
def restarted (consumer : Consumer) : Consumer :=
  { consumer with partition := consumer.partition.restarted, awaiting := none }

/-- The consumer after the call it awaits has ended. -/
def handled (consumer : Consumer) (outcome : Outcome) : Consumer :=
  { consumer with partition := consumer.partition.loop outcome, awaiting := none }

/-- The consumer after its process has stopped. -/
def released (consumer : Consumer) (process : ℕ) : Consumer :=
  match consumer.awaiting with
  | some (awaited, _) => if awaited = process then consumer.restarted else consumer
  | none => consumer

/-- The consumer after the task at `ended` of a process has ended; the tasks behind it move up. -/
def settled (consumer : Consumer) (process ended : ℕ) (outcome : Outcome) : Consumer :=
  match consumer.awaiting with
  | some (awaited, place) =>
    if awaited = process then
      if place = ended then consumer.handled outcome
      else if ended < place then { consumer with awaiting := some (awaited, place - 1) }
      else consumer
    else consumer
  | none => consumer

end Consumer

/-- What the consumer does on the result its handler ends with. -/
def outcomeOf (recorded : Bool) : Answer → Outcome
  | .error _ => .raised
  | .ok _ => .completed recorded

/-- The task that a step of a process has ended, with its answer. -/
def endedBy (label : Label) (before after : Process) : Option (ℕ × Answer) := do
  let index ← label.task?
  let (_, answer) ← after.history.answers[before.history.answers.length]?
  return (index, answer)

namespace Site

def initial : Site := ⟨.initial, []⟩

def step (env : Env) (site : Site) : SiteLabel → Option Site
  | .boot limits => do
    let deployment ← site.deployment.step env (.boot limits)
    return { site with deployment }
  | .stop process => do
    let deployment ← site.deployment.step env (.stop process)
    return { deployment, consumers := site.consumers.map (·.released process) }
  | .act process label recorded => do
    let deployment ← site.deployment.step env (.act process label)
    let before ← site.deployment.parts[process]?
    let after ← deployment.parts[process]?
    match endedBy label before.own after.own with
    | none => return { site with deployment }
    | some (ended, answer) =>
      return { deployment, consumers := site.consumers.map (·.settled process ended (outcomeOf recorded answer)) }
  | .subscribe log offset =>
    return { site with consumers := site.consumers ++ [⟨.start log offset, offset, none⟩] }
  | .publish index message => do
    let consumer ← site.consumers[index]?
    let partition ← consumer.partition.step (.publish message)
    return { site with consumers := site.consumers.set index { consumer with partition } }
  | .deliver index process => do
    let consumer ← site.consumers[index]?
    let (kind, payload) ← consumer.message?
    let part ← site.deployment.parts[process]?
    if consumer.awaiting.isNone then
      let deployment ← site.deployment.step env (.act process (.start (.inbound kind payload)))
      let awaiting := some (process, part.own.tasks.length)
      return { deployment, consumers := site.consumers.set index { consumer with awaiting } }
    else none
  | .rebalance index => do
    let consumer ← site.consumers[index]?
    return { site with consumers := site.consumers.set index consumer.restarted }

end Site

variable {env : Env}

/-! ## The task a step ends -/

/-- A task stays at its place with its call, until a step ends one. -/
def TasksKept (before after : Process) : Prop :=
  ∀ (place : ℕ) (task : Task), before.tasks[place]? = some task →
    ∃ kept, after.tasks[place]? = some kept ∧ kept.call = task.call

theorem TasksKept.refl (process : Process) : TasksKept process process := fun _ task htask ↦ ⟨task, htask, rfl⟩

/-- A step of a process keeps the places of its tasks, or ends one with an answer. -/
theorem Stepped.ended_cases {shared : Shared} {process : Process} {label : Label} {sys : System}
    (h : Stepped env (process.system shared) label sys) :
    endedBy label process (process.after shared sys) = none ∧ TasksKept process (process.after shared sys) ∨
      ∃ index task answer, endedBy label process (process.after shared sys) = some (index, answer) ∧
        process.tasks[index]? = some task ∧ (process.after shared sys).tasks = process.tasks.eraseIdx index ∧
        (task.call, answer) ∈ (process.after shared sys).history.answers := by
  have hended {index : ℕ} {call : Call} {answer : Answer} (hlabel : label.task? = some index)
      (hanswers : sys.history.answers = process.history.answers ++ [(call, answer)]) :
      endedBy label process (process.after shared sys) = some (index, answer) := by
    have hlast : (process.after shared sys).history.answers[process.history.answers.length]? =
        some (call, answer) := by
      simp only [Process.after, hanswers, List.getElem?_concat_length]
    rw [endedBy, hlabel, Option.bind_eq_bind, Option.bind_some, hlast]
    rfl
  cases h with
  | @started call =>
    refine .inl ⟨rfl, ?_⟩
    intro place task htask
    obtain ⟨hlt, -⟩ := List.getElem?_eq_some_iff.mp htask
    exact ⟨task, (List.getElem?_append_left hlt).trans htask, rfl⟩
  | @resumed index now task state move htask hsound hres hresume =>
    cases move with
    | finish answer =>
      exact .inr ⟨index, task, answer, hended rfl rfl, htask, rfl, List.mem_append_right _ List.mem_cons_self⟩
    | next pc =>
      have hnone : endedBy (.resume index now) process
          (process.after shared ((process.system shared).advance index task state (.next pc))) = none := by
        have hlast : process.history.answers[process.history.answers.length]? = none :=
          List.getElem?_eq_none le_rfl
        simp only [endedBy, Label.task?, Process.after, System.advance, Process.system, hlast]
        rfl
      refine .inl ⟨hnone, ?_⟩
      intro place other hother
      obtain rfl | hne := eq_or_ne index place
      · obtain rfl := Option.some.inj (hother.symm.trans htask)
        obtain ⟨hlt, -⟩ := List.getElem?_eq_some_iff.mp hother
        exact ⟨{ other with pc }, List.getElem?_set_self hlt, rfl⟩
      · exact ⟨other, (List.getElem?_set_ne hne).trans hother, rfl⟩
  | @failed index took task htask _ _ =>
    exact .inr ⟨index, task, .error .external, hended rfl rfl, htask, rfl,
      List.mem_append_right _ List.mem_cons_self⟩

/-! ## Consumers and the calls they await -/

/-- A process has answered the call of the message without an exception. -/
def Answered (deployment : Deployment) (message : BusMessage) : Prop :=
  ∃ part ∈ deployment.parts, ∃ result, (.inbound message.1 message.2, .ok result) ∈ part.own.history.answers

theorem Answered.follows {deployment later : Deployment} {message : BusMessage}
    (h : Answered deployment message)
    (hfollows : Components.Follows (Components.Component.Evolves Process.Grows) deployment later) :
    Answered later message := by
  obtain ⟨part, hpart, result, hanswer⟩ := h
  obtain ⟨index, hindex⟩ := List.mem_iff_getElem?.mp hpart
  obtain ⟨after, hafter, hgrows, -⟩ := hfollows index part hindex
  exact ⟨after, List.mem_of_getElem? hafter, result, hgrows.answers.subset hanswer⟩

/-- The awaited call is the one of the message at the position. -/
def Consumer.Awaits (consumer : Consumer) (parts : List (Component Process)) : Prop :=
  ∀ process place, consumer.awaiting = some (process, place) → ∃ part task message,
    parts[process]? = some part ∧ part.own.tasks[place]? = some task ∧
      consumer.message? = some message ∧ task.call = .inbound message.1 message.2

/-- What is the case for a consumer of the bus. -/
structure Consumer.Ok (deployment : Deployment) (consumer : Consumer) : Prop where
  run : ∃ log trace, Run Partition.step (.start log consumer.offset) trace consumer.partition
  awaits : consumer.Awaits deployment.parts
  completed : ∀ n ∈ consumer.partition.completed,
    ∃ message, consumer.partition.log[n]? = some message ∧ Answered deployment message

theorem Consumer.Awaits.kept {consumer : Consumer} {parts later : List (Component Process)}
    (h : consumer.Awaits parts)
    (kept : ∀ (process : ℕ) (part : Component Process), parts[process]? = some part →
      ∃ after, later[process]? = some after ∧ TasksKept part.own after.own) : consumer.Awaits later := by
  intro process place hawaiting
  obtain ⟨part, task, message, hpart, htask, hmessage, hcall⟩ := h process place hawaiting
  obtain ⟨after, hafter, hkept⟩ := kept process part hpart
  obtain ⟨same, hsame, hsameCall⟩ := hkept place task htask
  exact ⟨after, same, message, hafter, hsame, hmessage, hsameCall.trans hcall⟩

theorem Consumer.Ok.restarted {deployment : Deployment} {consumer : Consumer} (ok : consumer.Ok deployment) :
    consumer.restarted.Ok deployment where
  run := by
    obtain ⟨log, trace, hrun⟩ := ok.run
    have hstep : consumer.partition.step .restart = some consumer.partition.restarted := rfl
    exact ⟨log, _, hrun.snoc hstep⟩
  awaits := by
    intro process place hawaiting
    cases hawaiting
  completed := ok.completed

/-- The consumer after the call it awaits has ended. -/
theorem Consumer.Ok.handled {deployment later : Deployment} {consumer : Consumer} (ok : consumer.Ok deployment)
    (hfollows : Components.Follows (Components.Component.Evolves Process.Grows) deployment later)
    {message : BusMessage} (hmessage : consumer.message? = some message) {answer : Answer} (recorded : Bool)
    (hanswer : ∀ result, answer = .ok result → Answered later message) :
    (consumer.handled (outcomeOf recorded answer)).Ok later where
  run := by
    obtain ⟨log, trace, hrun⟩ := ok.run
    obtain ⟨hlt, -⟩ := List.getElem?_eq_some_iff.mp hmessage
    have hstep : consumer.partition.step (.take (outcomeOf recorded answer)) =
        some (consumer.partition.loop (outcomeOf recorded answer)) := if_pos hlt
    exact ⟨log, _, hrun.snoc hstep⟩
  awaits := by
    intro process place hawaiting
    cases hawaiting
  completed := by
    have hbefore : ∀ n ∈ consumer.partition.completed,
        ∃ found, consumer.partition.log[n]? = some found ∧ Answered later found := by
      intro n hn
      obtain ⟨found, hfound, hanswered⟩ := ok.completed n hn
      exact ⟨found, hfound, hanswered.follows hfollows⟩
    cases answer with
    | error error => exact hbefore
    | ok result => exact List.forall_mem_cons.mpr ⟨⟨message, hmessage, hanswer result rfl⟩, hbefore⟩

/-- A task behind the one that ends moves up. -/
theorem getElem?_eraseIdx_behind {tasks : List Task} {place ended : ℕ} (h : ended < place) :
    (tasks.eraseIdx ended)[place - 1]? = tasks[place]? := by
  rw [List.getElem?_eraseIdx_of_ge (Nat.le_sub_one_of_lt h), Nat.sub_add_cancel (Nat.zero_lt_of_lt h)]

theorem Consumer.Ok.settled {deployment later : Deployment} {consumer : Consumer} (ok : consumer.Ok deployment)
    (hfollows : Components.Follows (Components.Component.Evolves Process.Grows) deployment later)
    {process ended : ℕ} {before after : Component Process} {task : Task} {answer : Answer}
    (hbefore : deployment.parts[process]? = some before) (hlater : later.parts = deployment.parts.set process after)
    (htask : before.own.tasks[ended]? = some task) (htasks : after.own.tasks = before.own.tasks.eraseIdx ended)
    (hanswer : (task.call, answer) ∈ after.own.history.answers) (recorded : Bool) :
    (consumer.settled process ended (outcomeOf recorded answer)).Ok later := by
  obtain ⟨hlt, -⟩ := List.getElem?_eq_some_iff.mp hbefore
  have hafter : later.parts[process]? = some after := hlater ▸ List.getElem?_set_self hlt
  have hcompleted : ∀ n ∈ consumer.partition.completed,
      ∃ message, consumer.partition.log[n]? = some message ∧ Answered later message := by
    intro n hn
    obtain ⟨message, hmessage, hanswered⟩ := ok.completed n hn
    exact ⟨message, hmessage, hanswered.follows hfollows⟩
  cases hawaiting : consumer.awaiting with
  | none =>
    have hsame : consumer.settled process ended (outcomeOf recorded answer) = consumer := by
      simp only [Consumer.settled, hawaiting]
    rw [hsame]
    refine ⟨ok.run, ?_, hcompleted⟩
    intro awaited place hsome
    rw [hawaiting] at hsome
    cases hsome
  | some pair =>
    obtain ⟨awaited, place⟩ := pair
    obtain ⟨part, running, message, hpart, hrunning, hmessage, hcall⟩ := ok.awaits awaited place hawaiting
    by_cases hprocess : awaited = process
    · subst hprocess
      obtain rfl := Option.some.inj (hpart.symm.trans hbefore)
      obtain hless | rfl | hmore := Nat.lt_trichotomy place ended
      · have hsame : consumer.settled awaited ended (outcomeOf recorded answer) = consumer := by
          simp only [Consumer.settled, hawaiting, if_true, if_neg hless.ne, if_neg hless.not_gt]
        rw [hsame]
        refine ⟨ok.run, ?_, hcompleted⟩
        intro other spot hsome
        obtain ⟨rfl, rfl⟩ := Prod.mk.inj (Option.some.inj (hawaiting.symm.trans hsome))
        refine ⟨after, running, message, hafter, ?_, hmessage, hcall⟩
        rw [htasks, List.getElem?_eraseIdx_of_lt hless]
        exact hrunning
      · have hends : consumer.settled awaited place (outcomeOf recorded answer) =
            consumer.handled (outcomeOf recorded answer) := by
          simp only [Consumer.settled, hawaiting, if_true]
        rw [hends]
        obtain rfl := Option.some.inj (hrunning.symm.trans htask)
        apply ok.handled hfollows hmessage recorded
        rintro result rfl
        exact ⟨after, List.mem_of_getElem? hafter, result, hcall ▸ hanswer⟩
      · have hmoves : consumer.settled awaited ended (outcomeOf recorded answer) =
            { consumer with awaiting := some (awaited, place - 1) } := by
          simp only [Consumer.settled, hawaiting, if_true, if_neg hmore.ne', if_pos hmore]
        rw [hmoves]
        refine ⟨ok.run, ?_, hcompleted⟩
        intro other spot hsome
        obtain ⟨rfl, rfl⟩ := Prod.mk.inj (Option.some.inj hsome)
        refine ⟨after, running, message, hafter, ?_, hmessage, hcall⟩
        rw [htasks, getElem?_eraseIdx_behind hmore]
        exact hrunning
    · have hsame : consumer.settled process ended (outcomeOf recorded answer) = consumer := by
        simp only [Consumer.settled, hawaiting, if_neg hprocess]
      rw [hsame]
      refine ⟨ok.run, ?_, hcompleted⟩
      intro other spot hsome
      obtain ⟨rfl, rfl⟩ := Prod.mk.inj (Option.some.inj (hawaiting.symm.trans hsome))
      have hother : later.parts[awaited]? = some part := by
        rw [hlater, List.getElem?_set_ne (Ne.symm hprocess)]
        exact hpart
      exact ⟨part, running, message, hother, hrunning, hmessage, hcall⟩

/-! ## Runs of a site -/

/-- The processes take the steps of a deployment, and every consumer waits for the call it has started. -/
structure SiteOk (env : Env) (site : Site) : Prop where
  reached : ∃ trace, Run (Deployment.step env) .initial trace site.deployment
  consumers : ∀ consumer ∈ site.consumers, consumer.Ok site.deployment

theorem SiteOk.extended {site : Site} (ok : SiteOk env site) {deployment : Deployment}
    {action : Components.Action (ℤ × ℚ) Label} (hstep : site.deployment.step env action = some deployment) :
    (∃ trace, Run (Deployment.step env) .initial trace deployment) ∧
      Components.Follows (Components.Component.Evolves Process.Grows) site.deployment deployment := by
  obtain ⟨trace, hrun⟩ := ok.reached
  exact ⟨⟨_, hrun.snoc hstep⟩, Deployment.follows (.snoc .nil hstep)⟩

/-- A consumer is as it was where the places of all tasks are kept. -/
theorem Consumer.Ok.kept {deployment later : Deployment} {consumer : Consumer} (ok : consumer.Ok deployment)
    (hfollows : Components.Follows (Components.Component.Evolves Process.Grows) deployment later)
    (kept : ∀ (process : ℕ) (part : Component Process), deployment.parts[process]? = some part →
      ∃ after, later.parts[process]? = some after ∧ TasksKept part.own after.own) : consumer.Ok later where
  run := ok.run
  awaits := ok.awaits.kept kept
  completed n hn := by
    obtain ⟨message, hmessage, hanswered⟩ := ok.completed n hn
    exact ⟨message, hmessage, hanswered.follows hfollows⟩

theorem kept_set {parts : List (Component Process)} {index : ℕ} {before after : Component Process}
    (hbefore : parts[index]? = some before) (hkept : TasksKept before.own after.own) (process : ℕ)
    (part : Component Process) (hpart : parts[process]? = some part) :
    ∃ later, (parts.set index after)[process]? = some later ∧ TasksKept part.own later.own := by
  obtain rfl | hne := eq_or_ne index process
  · obtain rfl := Option.some.inj (hpart.symm.trans hbefore)
    obtain ⟨hlt, -⟩ := List.getElem?_eq_some_iff.mp hpart
    exact ⟨after, List.getElem?_set_self hlt, hkept⟩
  · exact ⟨part, (List.getElem?_set_ne hne).trans hpart, .refl _⟩

theorem Consumer.Ok.released {deployment later : Deployment} {consumer : Consumer} (ok : consumer.Ok deployment)
    (hfollows : Components.Follows (Components.Component.Evolves Process.Grows) deployment later)
    (kept : ∀ (process : ℕ) (part : Component Process), deployment.parts[process]? = some part →
      ∃ after, later.parts[process]? = some after ∧ TasksKept part.own after.own) (process : ℕ) :
    (consumer.released process).Ok later := by
  have hlater := ok.kept hfollows kept
  unfold Consumer.released
  split
  · split
    · exact hlater.restarted
    · exact hlater
  · exact hlater

theorem forall_mem_set {α : Type} {p : α → Prop} {items : List α} {index : ℕ} {item : α}
    (hall : ∀ other ∈ items, p other) (hitem : p item) : ∀ other ∈ items.set index item, p other := by
  intro other hother
  obtain hold | rfl := List.mem_or_eq_of_mem_set hother
  · exact hall other hold
  · exact hitem

theorem SiteOk.stepped {site next : Site} {label : SiteLabel} (ok : SiteOk env site)
    (h : site.step env label = some next) : SiteOk env next := by
  cases label with
  | boot limits =>
    rw [Site.step] at h
    obtain ⟨deployment, hstep, hsome⟩ := Option.bind_eq_some_iff.mp h
    obtain rfl := Option.some.inj hsome
    obtain ⟨hreached, hfollows⟩ := ok.extended hstep
    refine ⟨hreached, fun consumer hconsumer ↦ (ok.consumers consumer hconsumer).kept hfollows ?_⟩
    cases Components.stepped hstep with
    | booted _ =>
      intro process part hpart
      obtain ⟨hlt, -⟩ := List.getElem?_eq_some_iff.mp hpart
      exact ⟨part, (List.getElem?_append_left hlt).trans hpart, .refl _⟩
  | stop process =>
    obtain ⟨deployment, hstep, hsome⟩ := Option.bind_eq_some_iff.mp h
    obtain rfl := Option.some.inj hsome
    obtain ⟨hreached, hfollows⟩ := ok.extended hstep
    refine ⟨hreached, List.forall_mem_map.mpr fun consumer hconsumer ↦
      (ok.consumers consumer hconsumer).released hfollows ?_ process⟩
    cases Components.stepped hstep with
    | stopped hpart => exact kept_set hpart (.refl _)
  | act process label recorded =>
    obtain ⟨deployment, hstep, hrest⟩ := Option.bind_eq_some_iff.mp h
    obtain ⟨before, hbefore, hrest⟩ := Option.bind_eq_some_iff.mp hrest
    obtain ⟨after, hafter, hsome⟩ := Option.bind_eq_some_iff.mp hrest
    obtain ⟨hreached, hfollows⟩ := ok.extended hstep
    obtain ⟨trace, hrun⟩ := ok.reached
    cases Components.stepped hstep with
    | @acted _ _ own own' shared hpart hact =>
      obtain rfl := Option.some.inj (hbefore.symm.trans hpart)
      obtain ⟨hlt, -⟩ := List.getElem?_eq_some_iff.mp hpart
      obtain rfl := Option.some.inj (hafter.symm.trans (List.getElem?_set_self hlt))
      obtain ⟨sys, hstepped, rfl, rfl⟩ :=
        Process.act_cases (Deployment.processOk hrun (List.mem_of_getElem? hpart)).sound hact
      obtain ⟨hnone, hkept⟩ | ⟨ended, task, answer, hended, htask, htasks, hanswer⟩ := hstepped.ended_cases
      · rw [hnone] at hsome
        obtain rfl := Option.some.inj hsome
        exact ⟨hreached, fun consumer hconsumer ↦
          (ok.consumers consumer hconsumer).kept hfollows (kept_set hpart hkept)⟩
      · rw [hended] at hsome
        obtain rfl := Option.some.inj hsome
        exact ⟨hreached, List.forall_mem_map.mpr fun consumer hconsumer ↦
          (ok.consumers consumer hconsumer).settled hfollows hpart rfl htask htasks hanswer recorded⟩
  | subscribe log offset =>
    obtain rfl := Option.some.inj h
    refine ⟨ok.reached, List.forall_mem_append.mpr ⟨ok.consumers, List.forall_mem_singleton.mpr ?_⟩⟩
    refine ⟨⟨log, [], .nil⟩, ?_, List.forall_mem_nil _⟩
    intro process place hawaiting
    cases hawaiting
  | publish index message =>
    obtain ⟨consumer, hconsumer, hrest⟩ := Option.bind_eq_some_iff.mp h
    obtain ⟨partition, hpartition, hsome⟩ := Option.bind_eq_some_iff.mp hrest
    obtain rfl := Option.some.inj hsome
    have hbefore := ok.consumers consumer (List.mem_of_getElem? hconsumer)
    refine ⟨ok.reached, forall_mem_set ok.consumers ?_⟩
    obtain ⟨log, trace, hrun⟩ := hbefore.run
    obtain rfl := Option.some.inj hpartition
    have hlog {n : ℕ} {found : BusMessage} (hfound : consumer.partition.log[n]? = some found) :
        (consumer.partition.log ++ [message])[n]? = some found := by
      obtain ⟨hlt, -⟩ := List.getElem?_eq_some_iff.mp hfound
      exact (List.getElem?_append_left hlt).trans hfound
    refine ⟨⟨log, _, hrun.snoc hpartition⟩, ?_, ?_⟩
    · intro process place hawaiting
      obtain ⟨part, task, found, hpart, htask, hfound, hcall⟩ := hbefore.awaits process place hawaiting
      exact ⟨part, task, found, hpart, htask, hlog hfound, hcall⟩
    · intro n hn
      obtain ⟨found, hfound, hanswered⟩ := hbefore.completed n hn
      exact ⟨found, hlog hfound, hanswered⟩
  | deliver index process =>
    obtain ⟨consumer, hconsumer, hrest⟩ := Option.bind_eq_some_iff.mp h
    obtain ⟨⟨kind, payload⟩, hmessage, hrest⟩ := Option.bind_eq_some_iff.mp hrest
    obtain ⟨part, hpart, hrest⟩ := Option.bind_eq_some_iff.mp hrest
    split at hrest
    · obtain ⟨deployment, hstep, hsome⟩ := Option.bind_eq_some_iff.mp hrest
      obtain rfl := Option.some.inj hsome
      obtain ⟨hreached, hfollows⟩ := ok.extended hstep
      cases Components.stepped hstep with
      | @acted _ _ own own' shared hrunning hact =>
        obtain rfl := Option.some.inj (hpart.symm.trans hrunning)
        obtain ⟨hlt, -⟩ := List.getElem?_eq_some_iff.mp hpart
        obtain ⟨sys, hsys, hpair⟩ := Option.map_eq_some_iff.mp hact
        obtain rfl := Option.some.inj hsys
        obtain ⟨rfl, rfl⟩ := Prod.mk.inj hpair
        have hkept : TasksKept own (own.after site.deployment.shared { own.system site.deployment.shared with
            tasks := own.tasks ++ [⟨.inbound kind payload, .entry⟩] }) := by
          intro place task htask
          obtain ⟨hplace, -⟩ := List.getElem?_eq_some_iff.mp htask
          exact ⟨task, (List.getElem?_append_left hplace).trans htask, rfl⟩
        have hothers : ∀ other ∈ site.consumers, other.Ok _ := fun other hother ↦
          (ok.consumers other hother).kept hfollows (kept_set hrunning hkept)
        have hbefore := hothers consumer (List.mem_of_getElem? hconsumer)
        refine ⟨hreached, forall_mem_set hothers ⟨hbefore.run, ?_, hbefore.completed⟩⟩
        intro awaited place hawaiting
        obtain ⟨rfl, rfl⟩ := Prod.mk.inj (Option.some.inj hawaiting)
        exact ⟨_, ⟨.inbound kind payload, .entry⟩, (kind, payload), List.getElem?_set_self hlt,
          List.getElem?_concat_length, hmessage, rfl⟩
    · cases hrest
  | rebalance index =>
    obtain ⟨consumer, hconsumer, hsome⟩ := Option.bind_eq_some_iff.mp h
    obtain rfl := Option.some.inj hsome
    exact ⟨ok.reached, forall_mem_set ok.consumers
      (ok.consumers consumer (List.mem_of_getElem? hconsumer)).restarted⟩

/-- A step of a site is a step of its deployment, or leaves that alone. -/
theorem Site.step_deployment {site next : Site} {label : SiteLabel} (h : site.step env label = some next) :
    next.deployment = site.deployment ∨ ∃ action, site.deployment.step env action = some next.deployment := by
  cases label with
  | boot limits =>
    rw [Site.step] at h
    obtain ⟨deployment, hstep, hsome⟩ := Option.bind_eq_some_iff.mp h
    obtain rfl := Option.some.inj hsome
    exact .inr ⟨_, hstep⟩
  | stop process =>
    obtain ⟨deployment, hstep, hsome⟩ := Option.bind_eq_some_iff.mp h
    obtain rfl := Option.some.inj hsome
    exact .inr ⟨_, hstep⟩
  | act process label recorded =>
    obtain ⟨deployment, hstep, hrest⟩ := Option.bind_eq_some_iff.mp h
    obtain ⟨before, -, hrest⟩ := Option.bind_eq_some_iff.mp hrest
    obtain ⟨after, -, hsome⟩ := Option.bind_eq_some_iff.mp hrest
    apply Or.inr
    refine ⟨_, hstep.trans ?_⟩
    split at hsome <;> exact congrArg (Option.map Site.deployment) hsome
  | subscribe log offset =>
    obtain rfl := Option.some.inj h
    exact .inl rfl
  | publish index message =>
    obtain ⟨consumer, -, hrest⟩ := Option.bind_eq_some_iff.mp h
    obtain ⟨partition, -, hsome⟩ := Option.bind_eq_some_iff.mp hrest
    obtain rfl := Option.some.inj hsome
    exact .inl rfl
  | deliver index process =>
    obtain ⟨consumer, -, hrest⟩ := Option.bind_eq_some_iff.mp h
    obtain ⟨⟨kind, payload⟩, -, hrest⟩ := Option.bind_eq_some_iff.mp hrest
    obtain ⟨part, -, hrest⟩ := Option.bind_eq_some_iff.mp hrest
    split at hrest
    · obtain ⟨deployment, hstep, hsome⟩ := Option.bind_eq_some_iff.mp hrest
      obtain rfl := Option.some.inj hsome
      exact .inr ⟨_, hstep⟩
    · cases hrest
  | rebalance index =>
    obtain ⟨consumer, -, hsome⟩ := Option.bind_eq_some_iff.mp h
    obtain rfl := Option.some.inj hsome
    exact .inl rfl

section Runs

variable {trace rest : List (Site × SiteLabel)} {last later : Site}

theorem Site.ok_of_run (run : Run (Site.step env) .initial trace last) : SiteOk env last := by
  apply run.invariant along_true
  · exact ⟨⟨[], .nil⟩, List.forall_mem_nil _⟩
  · exact fun _ _ _ hstep ok ↦ ok.stepped hstep

theorem Site.deployment_run (run : Run (Site.step env) last rest later) :
    ∃ steps, Run (Deployment.step env) last.deployment steps later.deployment := by
  induction run with
  | nil => exact ⟨[], .nil⟩
  | snoc _ hstep ih =>
    obtain ⟨steps, hrun⟩ := ih
    obtain hsame | ⟨action, haction⟩ := Site.step_deployment hstep
    · exact ⟨steps, hsame ▸ hrun⟩
    · exact ⟨_, hrun.snoc haction⟩

/-- The message is in the trail as an event of its kind, and a commit it asks for is there once: one event has
its key, and one leaf at most of all batches of all processes stems from it. -/
def LoggedOnce (deployment : Deployment) (message : BusMessage) : Prop :=
  Logged deployment.shared.state message.1 message.2 ∧
    ∀ commit, (Call.inbound message.1 message.2).Commits commit →
      (entriesUnder deployment.shared.auditTrail.events commit.idempotencyKey).length = 1 ∧
        ((deployment.parts.flatMap fun part ↦ part.own.leaves).filter
          (stemsFrom deployment.shared.auditTrail.events commit.idempotencyKey)).length ≤ 1

end Runs

/-- A decision of the bus that asks for a commit. -/
def busDecision : PyDict :=
  ⟨[("decision_id", .str "d1"), ("metric_name", .str "roi"), ("final_value", .int 1),
    ("evidence_refs", .ofStrs ["e1"]), ("idempotency_key", .str "k1"), ("proposed_by", .str "agent")]⟩

/-- The process stops between the commit and its leaf, and another one is given the message again. -/
def stoppedDelivery : List SiteLabel :=
  [.subscribe [] 0, .publish 0 (.reconciledDecision, busDecision), .boot (1000, 5), .deliver 0 0,
    .act 0 (.resume 0 0) true, .act 0 (.resume 0 0) true, .stop 0, .boot (1000, 5), .deliver 0 1,
    .act 1 (.resume 0 0) true, .act 1 (.resume 0 0) true]

end DecisionCore
