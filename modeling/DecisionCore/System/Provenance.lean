import DecisionCore.System.Runs

/-!
# Provenance of stored events

Every event of the trail was stored by a call that was started, and has the shape that call gives
it.  A condition on the started calls therefore becomes a condition on the whole trail.
-/

namespace DecisionCore

open CommandHandler MerkleAnchorService

variable {env : Env}

/-- The call can have stored the entry. -/
def Call.Stores (env : Env) (call : Call) (entry : Entry) : Prop :=
  Origin env call entry ∨ ∃ commit, call.Commits commit ∧ entry = commit.entry env entry.eventId

/-- The calls a step starts meet the condition. -/
def Label.Starts (good : Call → Prop) : Label → Prop
  | .start call => good call
  | _ => True

/-- Every event of the state stems from a call that meets the condition. -/
def StoredBy (env : Env) (good : Call → Prop) (state : AppState) : Prop :=
  ∀ entry ∈ state.auditTrail.events, ∃ call, good call ∧ call.Stores env entry

theorem Ran.stores {state next : AppState} {stamped : StampedJob} {op : AnchorOp} {call : Call}
    {result : Except PyError Unit} (h : Ran env state stamped op (next, result))
    (hcloser : call.isCloser = true) (hstamp : StampOk env stamped) :
    ∃ stored : Option Entry, next.auditTrail.events = state.auditTrail.events ++ stored.toList ∧
      ∀ entry ∈ stored, call.Stores env entry := by
  cases h with
  | unproved _ => exact ⟨none, by simp, by simp⟩
  | row _ => exact ⟨none, by simp, by simp⟩
  | published happends =>
    obtain ⟨now, hnow⟩ := hstamp.timestamp
    refine ⟨_, happends.events, ?_⟩
    rintro entry ⟨⟩
    exact .inl (.published hcloser hnow)
  | marked => exact ⟨none, by simp [MemoryAuditTrail.markBatched], by simp⟩

theorem Resumed.stores {now : Instant} {state next : AppState} {task : Task} {move : Move}
    (h : Resumed env now state task next move) (hsound : task.Sound env) :
    ∃ stored : Option Entry, next.auditTrail.events = state.auditTrail.events ++ stored.toList ∧
      ∀ entry ∈ stored, task.call.Stores env entry := by
  cases h with
  | quiet happends horigin _ _ _ => exact ⟨_, happends.events, fun entry h ↦ .inl (horigin entry h)⟩
  | @committed _ commit hcommits _ _ happends =>
    refine ⟨_, happends.events, ?_⟩
    rintro entry ⟨⟩
    exact .inr ⟨commit, hcommits, rfl⟩
  | anchored hpc hran =>
    obtain ⟨hcloser, hstamp, -, -⟩ := hsound.anchoring _ _ hpc
    exact hran.stores hcloser hstamp
  | _ => exact ⟨none, by simp [commitFinish], by simp⟩

theorem failedEffect_stores {state : AppState} {task : Task} (hsound : task.Sound env) :
    ∃ stored : Option Entry,
      (failedEffect env state task).auditTrail.events = state.auditTrail.events ++ stored.toList ∧
      ∀ entry ∈ stored, task.call.Stores env entry := by
  unfold failedEffect
  split
  · rename_i stamped op todo hpc
    obtain ⟨hcloser, hstamp, -, -⟩ := hsound.anchoring _ _ hpc
    exact (runOp_cases env state stamped op).stores hcloser hstamp
  · exact ⟨none, by simp, by simp⟩

theorem StoredBy.extended {good : Call → Prop} {state next : AppState} {call : Call}
    (h : StoredBy env good state) (hgood : good call)
    (hstores : ∃ stored : Option Entry,
      next.auditTrail.events = state.auditTrail.events ++ stored.toList ∧
        ∀ entry ∈ stored, call.Stores env entry) : StoredBy env good next := by
  obtain ⟨stored, hevents, hstored⟩ := hstores
  intro entry hentry
  rw [hevents, List.mem_append, Option.mem_toList] at hentry
  rcases hentry with hold | hnew
  · exact h entry hold
  · exact ⟨call, hgood, hstored entry hnew⟩

/-- The own `event_type` of a bus payload, if it has one, is the one of its handler. -/
def Call.Honest : Call → Prop
  | .inbound kind payload =>
    ∀ value, payload.get? "event_type" = some value → value = .str kind.eventType
  | _ => True

/-- Honest calls store honest entries. -/
theorem Call.Stores.honest {call : Call} {entry : Entry} (h : call.Stores env entry)
    (hcall : call.Honest) : entry.Honest := by
  rcases h with horigin | ⟨commit, -, hcommit⟩
  · cases horigin with
    | inbound hinbound =>
      subst hinbound
      exact hcall
    | rejected _ => simp [Entry.Honest, rejectedPayload]
    | superseded _ => simp [Entry.Honest, supersededPayload]
    | published _ _ => simp [Entry.Honest, payloadCommon]
  · rw [hcommit]
    simp [Entry.Honest, Commit.entry, committedPayload]

section Runs

variable {good : Call → Prop} {maxLeaves : ℤ} {maxSeconds : ℚ} {trace : List (System × Label)}
  {last : System}

/-- Calls in flight meet the condition, and so do the calls behind the stored events. -/
theorem Run.storedBy (run : Run (System.step env) (System.initial maxLeaves maxSeconds) trace last)
    (along : Along (fun _ label ↦ label.Starts good) trace) :
    (∀ task ∈ last.tasks, good task.call) ∧ StoredBy env good last.state := by
  refine run.keeps (fun sys ↦ (∀ task ∈ sys.tasks, good task.call) ∧ StoredBy env good sys.state)
    along ⟨by simp [System.initial], by simp [System.initial, AppState.initial, MemoryAuditTrail.empty,
      StoredBy]⟩ ?_
  rintro before sys label next - - hallowed hstepped ⟨htasks, hstored⟩
  cases hstepped with
  | started =>
    refine ⟨?_, hstored⟩
    intro task htask
    rcases List.mem_append.mp htask with hold | hnew
    · exact htasks task hold
    · obtain rfl := List.mem_singleton.mp hnew
      exact hallowed
  | @resumed _ _ task _ move htask hsound hres =>
    have hgood := htasks task (List.mem_of_getElem? htask)
    refine ⟨System.forall_advance htask htasks ?_, hstored.extended hgood (hres.stores hsound)⟩
    intro other hother
    cases move with
    | next pc =>
      obtain rfl := List.mem_singleton.mp hother
      exact hgood
    | finish answer => cases hother
  | @failed _ took task htask hsound _ =>
    have hgood := htasks task (List.mem_of_getElem? htask)
    refine ⟨fun other hother ↦ htasks other (List.mem_of_mem_eraseIdx hother), ?_⟩
    cases took with
    | false => exact hstored
    | true => exact hstored.extended hgood (failedEffect_stores hsound)

/-- Every run starts calls that meet no condition. -/
theorem along_starts_true : Along (fun _ label ↦ label.Starts fun _ ↦ True) trace := by
  rintro ⟨sys, label⟩ -
  cases label <;> trivial

/-- An event appended as a commit is one. -/
theorem Run.committed_entry
    (run : Run (System.step env) (System.initial maxLeaves maxSeconds) trace last)
    {entry : Entry} (hentry : entry ∈ last.state.auditTrail.events)
    (htype : entry.eventType = "MetricCommitted") :
    ∃ commit : Commit, entry = commit.entry env entry.eventId := by
  have hstored := (run.storedBy along_starts_true).2
  obtain ⟨call, -, horigin | ⟨commit, -, hcommit⟩⟩ := hstored entry hentry
  · exact absurd htype horigin.eventType_ne_committed
  · exact ⟨commit, hcommit⟩

/-- An event appended as a supersession is one. -/
theorem Run.superseded_entry
    (run : Run (System.step env) (System.initial maxLeaves maxSeconds) trace last)
    {entry : Entry} (hentry : entry ∈ last.state.auditTrail.events)
    (htype : entry.eventType = "MetricSuperseded") :
    ∃ args now, entry = ⟨entry.eventId, .str args.decisionId, "MetricSuperseded",
      supersededPayload env now args, some args.supersedingIdempotencyKey⟩ := by
  obtain ⟨call, -, horigin | ⟨commit, -, hcommit⟩⟩ := (run.storedBy along_starts_true).2 entry hentry
  · cases horigin with
    | @inbound kind _ _ _ => cases kind <;> exact absurd htype (by simp [Inbound.eventType])
    | rejected _ => exact absurd htype (by simp)
    | @superseded args now _ _ => exact ⟨args, now, rfl⟩
    | published _ _ => exact absurd htype (by simp)
  · rw [hcommit] at htype
    exact absurd htype (by simp [Commit.entry])

end Runs

end DecisionCore
