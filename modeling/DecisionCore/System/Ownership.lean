import DecisionCore.System.Deployment

/-!
# Whose commits are anchored

The shared trail keeps a key to one commit over all processes.  The leaf of a commit is with the process
that has appended it and with no other, so it is anchored by that process or never.
-/

namespace DecisionCore

open CommandHandler MerkleAnchorService

variable {env : Env}

/-! ## Invariants of a deployment -/

/-- The shared state as a process sees it that has just been started. -/
def Shared.state (shared : Shared) : AppState :=
  ⟨shared.auditTrail, .new 0 0, .empty, shared.projectionStore, shared.drawn⟩

theorem TrailOk.of_shared {state : AppState} (h : TrailOk env state) : TrailOk env state.shared.state :=
  ⟨h.drawn, h.ids, h.keys, h.indexed⟩

theorem TrailOk.system {shared : Shared} (h : TrailOk env shared.state) (process : Process) :
    TrailOk env (process.system shared).state :=
  ⟨h.drawn, h.ids, h.keys, h.indexed⟩

/-- What is the case for one process, whatever the others do. -/
structure ProcessOk (env : Env) (process : Process) : Prop where
  sound : ∀ task ∈ process.tasks, task.Sound env
  ledger : Ledger env process.ownSystem
  stored : ∀ entry ∈ process.stored, ∃ call ∈ process.calls, call.Stores env entry
  closers : process.history.closed ≠ [] → ∃ call ∈ process.calls, call.isCloser = true
  answers : ∀ pair ∈ process.history.answers, pair.1.committing = true → AnswerOk pair.1 pair.2

theorem processOk_boot (limits : ℤ × ℚ) : ProcessOk env (.boot limits) := by
  refine ⟨List.forall_mem_nil _, ?_, List.forall_mem_nil _, fun h ↦ absurd rfl h, List.forall_mem_nil _⟩
  have hinitial : Ledger env (System.initial limits.1 limits.2) := .initial limits.1 limits.2
  exact ⟨hinitial.leaves, hinitial.keys, hinitial.jobs, hinitial.pending, hinitial.batched⟩

section Steps

variable {shared next : Shared} {process after : Process} {label : Label}

/-- The step that closes a batch belongs to a closer. -/
theorem Stepped.closers {sys : System} (h : Stepped env (process.system shared) label sys)
    (hclosers : process.history.closed ≠ [] → ∃ call ∈ process.calls, call.isCloser = true) :
    (process.after shared sys).history.closed ≠ [] →
      ∃ call ∈ (process.after shared sys).calls, call.isCloser = true := by
  intro hclosed
  have hsubset := h.calls_subset
  by_cases hbefore : process.history.closed = []
  · cases h with
    | started => exact absurd hbefore hclosed
    | @resumed index now task state move htask hsound hres _ =>
      have hcall : task.call ∈ process.calls :=
        List.mem_append_left _ (List.mem_map.mpr ⟨task, List.mem_of_getElem? htask, rfl⟩)
      have hsome : move.closed? task ≠ none := by
        intro hnone
        apply hclosed
        have hhistory : (process.after shared ((process.system shared).advance index task state move)).history.closed =
            process.history.closed ++ (move.closed? task).toList := rfl
        rw [hhistory, hbefore, hnone]
        rfl
      obtain ⟨job, hjob⟩ := Option.ne_none_iff_exists'.mp hsome
      refine ⟨task.call, hsubset _ hcall, ?_⟩
      have hmove : move = .next (.sign job) := by
        unfold Move.closed? at hjob
        split at hjob
        · rw [Option.some.inj hjob]
        · cases hjob
      subst hmove
      exact ((hres.sound hsound) _ List.mem_cons_self |>.sign job rfl).1
    | failed _ _ _ => exact absurd hbefore hclosed
  · obtain ⟨call, hcall, hcloser⟩ := hclosers hbefore
    exact ⟨call, hsubset call hcall, hcloser⟩

theorem Stepped.answersOk {sys : System} (h : Stepped env (process.system shared) label sys)
    (hanswers : ∀ pair ∈ process.history.answers, pair.1.committing = true → AnswerOk pair.1 pair.2) :
    ∀ pair ∈ sys.history.answers, pair.1.committing = true → AnswerOk pair.1 pair.2 := by
  cases h with
  | started => exact hanswers
  | @resumed index now task state move htask hsound hres _ =>
    cases move with
    | next pc => exact hanswers
    | finish answer =>
      intro pair hpair hcommitting
      obtain hold | hnew := List.mem_append.mp hpair
      · exact hanswers pair hold hcommitting
      · rw [List.mem_singleton.mp hnew]
        exact hres.answerOk hsound
  | @failed index took task htask _ hcloser =>
    intro pair hpair hcommitting
    obtain hold | hnew := List.mem_append.mp hpair
    · exact hanswers pair hold hcommitting
    · rw [List.mem_singleton.mp hnew, Call.committing_of_isCloser hcloser] at hcommitting
      cases hcommitting

theorem ProcessOk.stepped (ok : ProcessOk env process) {sys : System}
    (h : Stepped env (process.system shared) label sys) : ProcessOk env (process.after shared sys) where
  sound := h.sound ok.sound
  ledger := h.ledger_own ok.ledger
  stored := by
    obtain ⟨stored, hevents, hstores⟩ := h.stores
    intro entry hentry
    rw [Stepped.stored_eq hevents, List.mem_append, Option.mem_toList] at hentry
    have hcall : ∃ call ∈ process.calls, call.Stores env entry :=
      hentry.elim (ok.stored entry) (hstores entry)
    obtain ⟨call, hmem, hcalled⟩ := hcall
    exact ⟨call, h.calls_subset call hmem, hcalled⟩
  closers := h.closers ok.closers
  answers := h.answersOk ok.answers

end Steps

/-- The rules every process follows. -/
theorem Deployment.rules (env : Env) : Components.Rules Process.boot (Process.act env)
    (fun shared ↦ TrailOk env shared.state) (fun _ process ↦ ProcessOk env process)
    (fun shared next ↦ Persists shared.state next.state) where
  boots _ limits _ := processOk_boot limits
  keeps := by
    intro shared next label process after htrail ok hact
    obtain ⟨sys, hstepped, rfl, rfl⟩ := Process.act_cases ok.sound hact
    have hchanges := hstepped.changes
    have hpersists := hchanges.persists
    refine ⟨((htrail.system process).changed hchanges).of_shared, ok.stepped hstepped, ?_⟩
    exact ⟨hpersists.events, hpersists.rows, hpersists.batched⟩
  stable _ ok := ok

section Runs

variable {trace : List (Deployment × Components.Action (ℤ × ℚ) Label)} {last : Deployment}

theorem Deployment.holds (run : Run (Deployment.step env) .initial trace last) :
    Components.Holds (fun shared ↦ TrailOk env shared.state) (fun _ process ↦ ProcessOk env process) last := by
  apply Components.holds_of_run (Deployment.rules env) _ run
  exact ⟨List.forall_mem_nil _, List.nodup_nil, List.nodup_nil, fun key ↦ by simp [Shared.state,
    MemoryAuditTrail.empty]⟩

theorem Deployment.processOk (run : Run (Deployment.step env) .initial trace last) {part : Component Process}
    (hpart : part ∈ last.parts) : ProcessOk env part.own :=
  (Deployment.holds run).own part hpart

theorem Deployment.trailOk (run : Run (Deployment.step env) .initial trace last) :
    TrailOk env last.shared.state :=
  (Deployment.holds run).shared

/-- The trail holds the events of all processes and no others. -/
theorem Deployment.stored_perm (run : Run (Deployment.step env) .initial trace last) :
    last.shared.auditTrail.events.Perm (last.parts.flatMap fun part ↦ part.own.stored) := by
  have hadds {before : List (Deployment × Components.Action (ℤ × ℚ) Label)} {sys : Deployment} {index : ℕ}
      {label : Label} {part after : Process} {shared : Shared}
      (hrun : Run (Deployment.step env) .initial before sys) (hpart : sys.parts[index]? = some ⟨part, true⟩)
      (hact : Process.act env sys.shared part label = some (shared, after)) :
      ∃ new, shared.auditTrail.events.Perm (sys.shared.auditTrail.events ++ new) ∧
        after.stored.Perm (part.stored ++ new) := by
    obtain ⟨sys', hstepped, rfl, rfl⟩ :=
      Process.act_cases (Deployment.processOk hrun (List.mem_of_getElem? hpart)).sound hact
    obtain ⟨stored, hevents, -⟩ := hstepped.stores
    exact ⟨stored.toList, List.Perm.of_eq hevents, List.Perm.of_eq (Stepped.stored_eq hevents)⟩
  let total : Shared → List Entry := fun shared ↦ shared.auditTrail.events
  have htotal : (total last.shared).Perm (last.parts.flatMap fun part ↦ part.own.stored) :=
    Components.total_perm_of_run rfl (fun _ ↦ rfl) hadds run
  exact htotal

theorem Stepped.marks {shared : Shared} {process : Process} {label : Label} {sys : System}
    (h : Stepped env (process.system shared) label sys) :
    ∃ marked, sys.history.marked = process.history.marked ++ marked ∧
      sys.state.auditTrail.batched = shared.auditTrail.batched ∪ (eventIdsOf marked).toFinset := by
  cases h with
  | started => exact ⟨[], (List.append_nil _).symm, (Finset.union_empty _).symm⟩
  | @resumed index now task state move _ hsound hres _ =>
    obtain ⟨stored, hbooked⟩ := hres.booked hsound
    exact ⟨task.marks?.toList, rfl, hbooked.batched⟩
  | @failed index took task _ hsound hcloser =>
    obtain ⟨stored, hspoiled⟩ := Spoiled.of_fail (process.system shared).state hsound hcloser took
    exact ⟨(task.markedBy took).toList, rfl, hspoiled.batched⟩

/-- What is batched has been marked by a process. -/
theorem Deployment.batched_iff (run : Run (Deployment.step env) .initial trace last) (eventId : String) :
    eventId ∈ last.shared.auditTrail.batched ↔
      ∃ part ∈ last.parts, eventId ∈ eventIdsOf part.own.history.marked := by
  have hadds {before : List (Deployment × Components.Action (ℤ × ℚ) Label)} {sys : Deployment} {index : ℕ}
      {label : Label} {part after : Process} {shared : Shared}
      (hrun : Run (Deployment.step env) .initial before sys) (hpart : sys.parts[index]? = some ⟨part, true⟩)
      (hact : Process.act env sys.shared part label = some (shared, after)) :
      ∃ new : Prop, (eventId ∈ shared.auditTrail.batched ↔ eventId ∈ sys.shared.auditTrail.batched ∨ new) ∧
        (eventId ∈ eventIdsOf after.history.marked ↔ eventId ∈ eventIdsOf part.history.marked ∨ new) := by
    obtain ⟨sys', hstepped, rfl, rfl⟩ :=
      Process.act_cases (Deployment.processOk hrun (List.mem_of_getElem? hpart)).sound hact
    obtain ⟨marked, hmarked, hbatched⟩ := hstepped.marks
    refine ⟨eventId ∈ eventIdsOf marked, ?_, ?_⟩
    · simp only [AppState.shared, hbatched, Finset.mem_union, List.mem_toFinset]
    · simp only [Process.after, hmarked, eventIdsOf_append, List.mem_append]
  let total : Shared → Prop := fun shared ↦ eventId ∈ shared.auditTrail.batched
  let held : Process → Prop := fun process ↦ eventId ∈ eventIdsOf process.history.marked
  have hinitial : ¬ total Deployment.initial.shared := Finset.notMem_empty _
  have hboots (limits : ℤ × ℚ) : ¬ held (.boot limits) := List.not_mem_nil
  have htotal : total last.shared ↔ ∃ part ∈ last.parts, held part.own :=
    Components.total_iff_of_run hinitial hboots hadds run
  exact htotal

/-! ## One owner -/

/-- No event is stored by two steps, of one process or of two. -/
theorem Deployment.storedIds_nodup (run : Run (Deployment.step env) .initial trace last) :
    (last.parts.flatMap fun part ↦ part.own.stored.map (·.eventId)).Nodup := by
  rw [← List.map_flatMap]
  exact (((Deployment.stored_perm run).map _).nodup_iff).mp (Deployment.trailOk run).ids

theorem Deployment.owner_unique (run : Run (Deployment.step env) .initial trace last) {first second : ℕ}
    {part other : Component Process} (hpart : last.parts[first]? = some part)
    (hother : last.parts[second]? = some other) {eventId : String}
    (hmem : eventId ∈ part.own.stored.map (·.eventId)) (hshared : eventId ∈ other.own.stored.map (·.eventId)) :
    first = second := by
  have hpairwise := List.pairwise_iff_getElem.mp (List.nodup_flatMap.mp (Deployment.storedIds_nodup run)).2
  obtain ⟨hfirst, rfl⟩ := List.getElem?_eq_some_iff.mp hpart
  obtain ⟨hsecond, rfl⟩ := List.getElem?_eq_some_iff.mp hother
  obtain hlt | heq | hgt := Nat.lt_trichotomy first second
  · exact absurd hshared (hpairwise first second hfirst hsecond hlt hmem)
  · exact heq
  · exact absurd hmem (hpairwise second first hsecond hfirst hgt hshared)

/-- What is added to a batch, closed with it, marked or lost was stored before. -/
theorem Ledger.stored_of_closed {sys : System} (h : Ledger env sys) {eventId : String}
    (hmem : eventId ∈ eventIdsOf sys.history.closed ++ sys.state.merkleBuilder.pending.map (·.eventId)) :
    eventId ∈ sys.state.auditTrail.events.map (·.eventId) := by
  rw [← h.addedIds_eq] at hmem
  exact (leafIds_sublist _).subset (h.addedIds_perm.mem_iff.mpr (List.mem_append_right _ hmem))

end Runs

/-- The process has taken the commit of the event on and has not marked it: its leaf is to be added, waits in
the open batch, is in a batch that is being anchored, or was in one whose anchoring failed. -/
def Process.Keeps (process : Process) (eventId : String) : Prop :=
  eventId ∈ (process.ownSystem.adding.map (·.eventId)) ++ process.merkleBuilder.pending.map (·.eventId) ++
    eventIdsOf process.ownSystem.held ++ eventIdsOf process.history.lost

theorem Process.Keeps.stored {process : Process} (ok : ProcessOk env process) {eventId : String}
    (h : process.Keeps eventId) : eventId ∈ process.stored.map (·.eventId) := by
  have hclosed := ok.ledger.closedIds_perm.mem_iff (a := eventId)
  simp only [Process.Keeps, List.mem_append] at h
  obtain ((hadding | hpending) | hheld) | hlost := h
  · exact (leafIds_sublist _).subset (ok.ledger.addedIds_perm.mem_iff.mpr (List.mem_append_left _ hadding))
  · exact ok.ledger.stored_of_closed (List.mem_append_right _ hpending)
  · exact ok.ledger.stored_of_closed (List.mem_append_left _ (hclosed.mpr
      (List.mem_append_left _ (List.mem_append_left _ hheld))))
  · exact ok.ledger.stored_of_closed (List.mem_append_left _ (hclosed.mpr (List.mem_append_right _ hlost)))

theorem ProcessOk.stored_of_marked {process : Process} (ok : ProcessOk env process) {eventId : String}
    (h : eventId ∈ eventIdsOf process.history.marked) : eventId ∈ process.stored.map (·.eventId) := by
  apply ok.ledger.stored_of_closed
  apply List.mem_append_left
  rw [ok.ledger.closedIds_perm.mem_iff, List.mem_append, List.mem_append]
  exact .inl (.inr h)

/-- A commit that the process has stored is marked by it or kept. -/
theorem ProcessOk.marked_iff {process : Process} (ok : ProcessOk env process)
    (hids : (process.stored.map (·.eventId)).Nodup) {entry : Entry} (hentry : entry ∈ process.stored)
    (htype : entry.eventType = "MetricCommitted") :
    entry.eventId ∈ eventIdsOf process.history.marked ↔ ¬ process.Keeps entry.eventId := by
  obtain ⟨call, -, horigin | ⟨commit, -, hcommit⟩⟩ := ok.stored entry hentry
  · exact absurd htype horigin.eventType_ne_committed
  · have hleaf : entry.leaf? = some (commit.leaf env entry.eventId) := by
      rw [hcommit, Commit.entry_leaf?]
      rfl
    have hone : (process.ownSystem.adding.map (·.eventId)).count entry.eventId +
        (process.merkleBuilder.pending.map (·.eventId)).count entry.eventId +
        (eventIdsOf process.ownSystem.held).count entry.eventId +
        (eventIdsOf process.history.marked).count entry.eventId +
        (eventIdsOf process.history.lost).count entry.eventId = 1 := ok.ledger.whereabouts hids hentry hleaf
    rw [Process.Keeps, ← List.count_pos_iff, ← List.count_pos_iff]
    simp only [List.count_append]
    omega

section Runs

variable {trace rest : List (Deployment × Components.Action (ℤ × ℚ) Label)} {last later : Deployment}

theorem Deployment.ownIds_nodup (run : Run (Deployment.step env) .initial trace last) {part : Component Process}
    (hpart : part ∈ last.parts) : (part.own.stored.map (·.eventId)).Nodup :=
  (List.nodup_flatMap.mp (Deployment.storedIds_nodup run)).1 part hpart

/-- A commit is batched when the process that has stored it has marked it. -/
theorem Deployment.batched_iff_marked (run : Run (Deployment.step env) .initial trace last) {index : ℕ}
    {part : Component Process} (hpart : last.parts[index]? = some part) {entry : Entry}
    (hentry : entry ∈ part.own.stored) :
    entry.eventId ∈ last.shared.auditTrail.batched ↔ entry.eventId ∈ eventIdsOf part.own.history.marked := by
  rw [Deployment.batched_iff run]
  constructor
  · rintro ⟨other, hmem, hmarked⟩
    obtain ⟨place, hother⟩ := List.mem_iff_getElem?.mp hmem
    have hstored := (Deployment.processOk run hmem).stored_of_marked hmarked
    have hplace := Deployment.owner_unique run hpart hother (List.mem_map.mpr ⟨entry, hentry, rfl⟩) hstored
    rw [← hplace, hpart] at hother
    rwa [Option.some.inj hother]
  · exact fun hmarked ↦ ⟨part, List.mem_of_getElem? hpart, hmarked⟩

/-- In later states a process has at least the events and the answers it had, and one that has stopped is as it
was. -/
theorem Deployment.follows (after : Run (Deployment.step env) last rest later) :
    Components.Follows (Components.Component.Evolves Process.Grows) last later :=
  Components.follows_of_run Process.Grows.refl Process.Grows.trans Process.Grows.of_act after

/-- What is in the shared state stays there. -/
theorem Deployment.persists (run : Run (Deployment.step env) .initial trace last)
    (after : Run (Deployment.step env) last rest later) : Persists last.shared.state later.shared.state := by
  induction after with
  | nil => exact .refl _
  | snoc hafter hstep ih =>
    apply ih.trans
    have hholds := Deployment.holds (run.append hafter)
    cases Components.stepped hstep with
    | booted limits => exact .refl _
    | acted hpart hact =>
      exact ((Deployment.rules env).keeps hholds.shared (hholds.own _ (List.mem_of_getElem? hpart)) hact).2.2
    | stopped _ => exact .refl _

/-- In every deployment, whatever processes are started and stopped at whatever moments: the leaf of a commit
is with the process that has stored it, which has marked it or keeps it, and never with another one; the
commit is batched exactly when that process has marked it; and what a process keeps when it stops is not
batched in any later state. -/
theorem anchored_by_own_process_or_never (run : Run (Deployment.step env) .initial trace last)
    (after : Run (Deployment.step env) last rest later) {index : ℕ} {part : Component Process}
    (hpart : last.parts[index]? = some part) {entry : Entry} (hentry : entry ∈ part.own.stored)
    (htype : entry.eventType = "MetricCommitted") :
    (entry.eventId ∈ last.shared.auditTrail.batched ↔ ¬ part.own.Keeps entry.eventId) ∧
      (∀ place other, later.parts[place]? = some other →
        other.own.Keeps entry.eventId ∨ entry.eventId ∈ eventIdsOf other.own.history.marked → place = index) ∧
      (part.running = false →
        (entry.eventId ∈ later.shared.auditTrail.batched ↔ ¬ part.own.Keeps entry.eventId)) := by
  have hrun := run.append after
  have hids := Deployment.ownIds_nodup run (List.mem_of_getElem? hpart)
  have hmarked := (Deployment.processOk run (List.mem_of_getElem? hpart)).marked_iff hids hentry htype
  obtain ⟨same, hsame, hgrown, hstays⟩ := Deployment.follows after index part hpart
  have hlater : entry ∈ same.own.stored := hgrown.stored.subset hentry
  refine ⟨(Deployment.batched_iff_marked run hpart hentry).trans hmarked, ?_, ?_⟩
  · intro place other hother hhas
    have hok := Deployment.processOk hrun (List.mem_of_getElem? hother)
    have hstored : entry.eventId ∈ other.own.stored.map (·.eventId) :=
      hhas.elim (fun hkeeps ↦ hkeeps.stored hok) hok.stored_of_marked
    exact Deployment.owner_unique hrun hother hsame hstored (List.mem_map.mpr ⟨entry, hlater, rfl⟩)
  · intro hstopped
    obtain rfl := hstays hstopped
    exact (Deployment.batched_iff_marked hrun hsame hlater).trans hmarked

/-- A process commits and stops before its batch is closed; another one goes on and closes what it has. -/
def stoppedActions : List (Components.Action (ℤ × ℚ) Label) :=
  [.boot (1000, 5), .boot (1000, 5), .act 0 (.start (.updateMetric sampleCommand)), .act 0 (.resume 0 0),
    .act 0 (.resume 0 0), .stop 0]

def closingActions : List (Components.Action (ℤ × ℚ) Label) :=
  [.act 1 (.start .forceClose), .act 1 (.resume 0 0)]

/-- The first process keeps its commit, and the forced close of the second does not reach it. -/
theorem stopped_process_keeps_commit : ∃ last later part entry,
    follow (Deployment.step .local) .initial stoppedActions = some last ∧
      follow (Deployment.step .local) last closingActions = some later ∧ last.parts[0]? = some part ∧
      entry ∈ part.own.stored ∧ part.own.Keeps entry.eventId ∧
      entry.eventId ∉ later.shared.auditTrail.batched := by
  have hrun : ((follow (Deployment.step .local) .initial stoppedActions).bind fun last ↦
      (follow (Deployment.step .local) last closingActions).bind fun _ ↦
        last.parts[0]?.bind fun part ↦ part.own.stored.head?.map fun entry ↦
          decide (part.running = false ∧ entry.eventType = "MetricCommitted" ∧
            entry.eventId ∈ part.own.merkleBuilder.pending.map (·.eventId))) = some true := by decide +kernel
  obtain ⟨last, hlast, hrun⟩ := Option.bind_eq_some_iff.mp hrun
  obtain ⟨later, hlater, hrun⟩ := Option.bind_eq_some_iff.mp hrun
  obtain ⟨part, hpart, hrun⟩ := Option.bind_eq_some_iff.mp hrun
  obtain ⟨entry, hentry, hrun⟩ := Option.map_eq_some_iff.mp hrun
  obtain ⟨hstopped, htype, hpending⟩ := of_decide_eq_true hrun
  have hmem := List.mem_of_head? hentry
  have hkeeps : part.own.Keeps entry.eventId := by
    simp only [Process.Keeps, List.mem_append]
    exact .inl (.inl (.inr hpending))
  have hnever := anchored_by_own_process_or_never (Run.of_follow hlast) (Run.of_follow hlater) hpart hmem htype
  exact ⟨last, later, part, entry, hlast, hlater, hpart, hmem, hkeeps,
    fun hbatched ↦ (hnever.2.2 hstopped).mp hbatched hkeeps⟩

/-! ## A process without a closer -/

/-- The calls of the gRPC servicer, whose process runs neither a closer nor a consumer of the bus. -/
def Call.ofServicer : Call → Bool
  | updateMetric _ => true
  | rebuild _ _ => true
  | _ => false

theorem Call.isCloser_of_ofServicer {call : Call} (h : call.ofServicer = true) : call.isCloser = false := by
  cases call <;> first | rfl | cases h

/-- What is committed through a process that serves gRPC calls only is never batched, by it or by any other
process: its leaf is to be added or stays in the open batch of the process. -/
theorem servicer_commits_never_anchored (run : Run (Deployment.step env) .initial trace last) {index : ℕ}
    {part : Component Process} (hpart : last.parts[index]? = some part)
    (hcalls : ∀ call ∈ part.own.calls, call.ofServicer = true) {entry : Entry}
    (hentry : entry ∈ part.own.stored) (htype : entry.eventType = "MetricCommitted") :
    entry.eventId ∉ last.shared.auditTrail.batched ∧
      (entry.eventId ∈ part.own.ownSystem.adding.map (·.eventId) ∨
        entry.eventId ∈ part.own.merkleBuilder.pending.map (·.eventId)) := by
  have hok := Deployment.processOk run (List.mem_of_getElem? hpart)
  have hclosed : part.own.history.closed = [] := by
    by_contra hsome
    obtain ⟨call, hcall, hcloser⟩ := hok.closers hsome
    rw [Call.isCloser_of_ofServicer (hcalls call hcall)] at hcloser
    cases hcloser
  have hnone := hok.ledger.closedIds_perm
  have hempty : eventIdsOf part.own.ownSystem.history.closed = [] := congrArg eventIdsOf hclosed
  rw [hempty] at hnone
  obtain ⟨⟨hheld, hmarked⟩, hlost⟩ : (eventIdsOf part.own.ownSystem.held = [] ∧
      eventIdsOf part.own.history.marked = []) ∧ eventIdsOf part.own.history.lost = [] := by
    have hnil := List.perm_nil.mp hnone.symm
    rwa [List.append_eq_nil_iff, List.append_eq_nil_iff] at hnil
  have hunmarked : entry.eventId ∉ eventIdsOf part.own.history.marked := by
    rw [hmarked]
    exact List.not_mem_nil
  have hids := Deployment.ownIds_nodup run (List.mem_of_getElem? hpart)
  have hkeeps := not_not.mp (mt (hok.marked_iff hids hentry htype).mpr hunmarked)
  refine ⟨mt (Deployment.batched_iff_marked run hpart hentry).mp hunmarked, ?_⟩
  simpa only [Process.Keeps, hheld, hlost, List.append_nil, List.mem_append] using hkeeps

/-- The REST and the gRPC process side by side: the first closes its batches, the second has the commit. -/
def servicerActions : List (Components.Action (ℤ × ℚ) Label) :=
  [.boot (1000, 5), .boot (1000, 5), .act 1 (.start (.updateMetric sampleCommand)), .act 1 (.resume 0 0),
    .act 1 (.resume 0 0), .act 0 (.start .forceClose), .act 0 (.resume 0 0)]

theorem servicer_commit_stays_pending : ∃ last part entry,
    follow (Deployment.step .local) .initial servicerActions = some last ∧ last.parts[1]? = some part ∧
      entry ∈ part.own.stored ∧ entry.eventId ∉ last.shared.auditTrail.batched := by
  have hrun : ((follow (Deployment.step .local) .initial servicerActions).bind fun last ↦
      last.parts[1]?.bind fun part ↦ part.own.stored.head?.map fun entry ↦
        decide (entry.eventType = "MetricCommitted") && part.own.calls.all Call.ofServicer) = some true := by
    decide +kernel
  obtain ⟨last, hlast, hrun⟩ := Option.bind_eq_some_iff.mp hrun
  obtain ⟨part, hpart, hrun⟩ := Option.bind_eq_some_iff.mp hrun
  obtain ⟨entry, hentry, hrun⟩ := Option.map_eq_some_iff.mp hrun
  obtain ⟨htype, hcalls⟩ := (Bool.and_eq_true _ _).mp hrun
  have hmem := List.mem_of_head? hentry
  have hnever := servicer_commits_never_anchored (Run.of_follow hlast) hpart (List.all_eq_true.mp hcalls) hmem
    (of_decide_eq_true htype)
  exact ⟨last, part, entry, hlast, hpart, hmem, hnever.1⟩

/-! ## One commit over all processes -/

/-- The leaves of a process, batch by batch. -/
def Process.leaves (process : Process) : List PendingLeaf :=
  process.history.closed.flatMap (·.pending) ++ process.merkleBuilder.pending

theorem ProcessOk.count_accepted_le {process : Process} (ok : ProcessOk env process) (key : String) :
    (process.history.answers.filterMap acceptedKey?).count key ≤
      (process.stored.filterMap (·.idempotencyKey)).count key := by
  have hcommits : (process.stored.filterMap Entry.commitKey?).count key ≤
      (process.stored.filterMap (·.idempotencyKey)).count key := by
    rw [count_filterMap_eq_length, count_filterMap_eq_length]
    refine List.Sublist.length_le (List.monotone_filter_right _ fun entry h ↦ ?_)
    rw [decide_eq_true_iff] at h ⊢
    unfold Entry.commitKey? at h
    split at h
    · exact h
    · cases h
  calc (process.history.answers.filterMap acceptedKey?).count key
      ≤ (process.tasks.filterMap Task.addingKey?).count key +
        (process.history.answers.filterMap acceptedKey?).count key := Nat.le_add_left _ _
    _ = (process.stored.filterMap Entry.commitKey?).count key := (ok.ledger.keys key).symm
    _ ≤ (process.stored.filterMap (·.idempotencyKey)).count key := hcommits

theorem ProcessOk.count_leaves_le {process : Process} (ok : ProcessOk env process) (eventId : String) :
    (process.leaves.map (·.eventId)).count eventId ≤ (process.stored.map (·.eventId)).count eventId := by
  have hleaves : process.leaves = process.history.added.map Prod.fst := ok.ledger.pending
  calc (process.leaves.map (·.eventId)).count eventId
      = ((process.history.added.map Prod.fst).map (·.eventId)).count eventId := by rw [hleaves]
    _ ≤ ((process.stored.filterMap Entry.leaf?).map (·.eventId)).count eventId := by
        have hcount := ok.ledger.addedIds_perm.count_eq eventId
        rw [List.count_append] at hcount
        exact (Nat.le_add_left _ _).trans hcount.ge
    _ ≤ (process.stored.map (·.eventId)).count eventId := (leafIds_sublist _).count_le _

/-- Over all processes one leaf at most stems from a key. -/
theorem Deployment.leaves_once (run : Run (Deployment.step env) .initial trace last) (key : String) :
    ((last.parts.flatMap fun part ↦ part.own.leaves).filter
      (stemsFrom last.shared.auditTrail.events key)).length ≤ 1 := by
  apply (Deployment.trailOk run).stemsFrom_length key
  rw [List.map_flatMap, List.nodup_iff_count_le_one]
  intro eventId
  rw [List.count_flatMap]
  calc (last.parts.map (List.count eventId ∘ fun part ↦ part.own.leaves.map (·.eventId))).sum
      ≤ (last.parts.map (List.count eventId ∘ fun part ↦ part.own.stored.map (·.eventId))).sum :=
        List.sum_le_sum fun part hpart ↦ (Deployment.processOk run hpart).count_leaves_le eventId
    _ = (last.parts.flatMap fun part ↦ part.own.stored.map (·.eventId)).count eventId :=
        List.count_flatMap.symm
    _ ≤ 1 := List.nodup_iff_count_le_one.mp (Deployment.storedIds_nodup run) eventId

/-- Over all processes, those that have stopped included: one event at most is stored under a key, one call
with it at most is accepted and every other completed committing call with it is told that it is a duplicate,
one leaf at most of all batches stems from it, and what a reader of a decision has seen stays in its place. -/
theorem exactly_once_over_processes (run : Run (Deployment.step env) .initial trace last) (key : String) :
    (entriesUnder last.shared.auditTrail.events key).length ≤ 1 ∧
      (acceptedUnder (last.parts.flatMap fun part ↦ part.own.history.answers) key).length ≤ 1 ∧
      (∀ part ∈ last.parts, ∀ call result, (call, .ok result) ∈ part.own.history.answers →
        call.committing = true → call.key? = some key →
        (call, .ok result) ∉ acceptedUnder part.own.history.answers key →
        result = some ⟨.duplicateIgnored, none⟩) ∧
      ((last.parts.flatMap fun part ↦ part.own.leaves).filter
        (stemsFrom last.shared.auditTrail.events key)).length ≤ 1 ∧
      ∀ rest later, Run (Deployment.step env) last rest later → ∀ decisionId,
        last.shared.auditTrail.readRange decisionId 0 <+: later.shared.auditTrail.readRange decisionId 0 := by
  have htrail := Deployment.trailOk run
  refine ⟨htrail.entriesUnder_length key, ?_, ?_, ?_, ?_⟩
  · rw [acceptedUnder, ← count_filterMap_eq_length, List.filterMap_flatMap, List.count_flatMap]
    calc (last.parts.map (List.count key ∘ fun part ↦ part.own.history.answers.filterMap acceptedKey?)).sum
        ≤ (last.parts.map (List.count key ∘ fun part ↦ part.own.stored.filterMap (·.idempotencyKey))).sum :=
          List.sum_le_sum fun part hpart ↦ (Deployment.processOk run hpart).count_accepted_le key
      _ = (last.shared.auditTrail.events.filterMap (·.idempotencyKey)).count key := by
          rw [← List.count_flatMap, ← List.filterMap_flatMap]
          exact (((Deployment.stored_perm run).filterMap _).count_eq key).symm
      _ ≤ 1 := List.nodup_iff_count_le_one.mp htrail.keys key
  · intro part hpart call result hanswer hcommitting hkey hother
    have hanswerOk := (Deployment.processOk run hpart).answers _ hanswer hcommitting
    obtain ⟨leafHash, rfl⟩ | hduplicate := hanswerOk.committing hcommitting result rfl
    · exact absurd (List.mem_filter.mpr ⟨hanswer, decide_eq_true hkey⟩) hother
    · exact hduplicate
  · exact Deployment.leaves_once run key
  · intro rest later hafter decisionId
    exact MemoryAuditTrail.readRange_prefix (Deployment.persists run hafter).events decisionId

/-- Two processes with one key, the second call between the append and the leaf of the first. -/
def racingProcesses : List (Components.Action (ℤ × ℚ) Label) :=
  [.boot (1000, 5), .boot (1000, 5), .act 0 (.start (.updateMetric sampleCommand)),
    .act 1 (.start (.updateMetric sampleCommand)), .act 0 (.resume 0 0), .act 1 (.resume 0 0), .act 0 (.resume 0 0)]

theorem exactly_once_racingProcesses : ∃ last, follow (Deployment.step .local) .initial racingProcesses = some last ∧
    (last.parts.flatMap fun part ↦ part.own.history.answers).length = 2 ∧
    (acceptedUnder (last.parts.flatMap fun part ↦ part.own.history.answers) "k1").length = 1 ∧
    (entriesUnder last.shared.auditTrail.events "k1").length ≤ 1 ∧
    ((last.parts.flatMap fun part ↦ part.own.leaves).filter
      (stemsFrom last.shared.auditTrail.events "k1")).length ≤ 1 := by
  have hsome : ((follow (Deployment.step .local) .initial racingProcesses).map fun last ↦
      decide ((last.parts.flatMap fun part ↦ part.own.history.answers).length = 2 ∧
        (acceptedUnder (last.parts.flatMap fun part ↦ part.own.history.answers) "k1").length = 1)) = some true := by
    decide +kernel
  obtain ⟨last, hlast, hfacts⟩ := Option.map_eq_some_iff.mp hsome
  obtain ⟨hanswers, haccepted⟩ := of_decide_eq_true hfacts
  obtain ⟨hentries, -, -, hleaves, -⟩ := exactly_once_over_processes (Run.of_follow hlast) "k1"
  exact ⟨last, hlast, hanswers, haccepted, hentries, hleaves⟩

end Runs

end DecisionCore
