import DecisionCore.System.Custody

/-!
# Batches in time

At every tick the closer asks whether the open batch is full or old.  Its age counts from the moment that was given with
the first leaf in it, which is not behind the one at which the leaf was added.  So a leaf waits in the open batch until
the first tick that comes the limit of seconds after it was added, and no longer.
-/

namespace DecisionCore

open CommandHandler MerkleAnchorService

variable {env : Env}

/-! ## Moments -/

def Label.moment? : Label → Option Instant
  | resume _ now => some now
  | _ => none

/-- The step is not made behind the limit. -/
def Label.Until (limit : Instant) (label : Label) : Prop := ∀ now ∈ label.moment?, now ≤ limit

instance (limit : Instant) (label : Label) : Decidable (label.Until limit) :=
  inferInstanceAs (Decidable (∀ now ∈ label.moment?, now ≤ limit))

theorem timestamp_le {first second : Instant} (h : first ≤ second) : timestamp first ≤ timestamp second := by
  have hcast : (first : ℚ) ≤ second := Int.cast_le.mpr h
  exact div_le_div_of_nonneg_right hcast (by norm_num)

section Moments

variable {now : Instant} {state next : AppState} {step : AddLeafStep}

/-- The moment that is given with a leaf is the one of its commit. -/
theorem nowTs_of_commitAppend {decisionId metricName value evidenceRefs idempotencyKey proposedBy : Json}
    (h : commitAppend env state now decisionId metricName value evidenceRefs idempotencyKey proposedBy =
      (next, .ok (.addLeaf step))) : step.nowTs = timestamp now := by
  unfold commitAppend at h
  split at h
  · dsimp only at h
    split at h
    · cases h
    · split at h
      · cases h
      · cases h
        rfl
  · cases h

theorem Move.ofProgress_addLeaf {progress : Except PyError Progress}
    (h : Move.ofProgress progress = .next (.addLeaf step)) : progress = .ok (.addLeaf step) := by
  rcases progress with error | result | found
  · cases h
  · cases h
  · cases h
    rfl

theorem nowTs_of_gate {payload : PyDict} (h : reconciledGate env state now payload = (next, .ok (.addLeaf step))) :
    step.nowTs = timestamp now := by
  unfold reconciledGate at h
  dsimp only at h
  split at h
  · split at h
    · exact nowTs_of_commitAppend h
    · cases h
    · cases h
    · cases h
    · cases h
  · split at h
    · split at h <;> cases h
    · cases h
    · cases h
    · cases h

theorem nowTs_of_update {cmd : UpdateMetricCommand}
    (h : updateMetricEntry env state now cmd = (next, .ok (.addLeaf step))) : step.nowTs = timestamp now := by
  unfold updateMetricEntry at h
  split at h
  · split at h <;> cases h
  · exact nowTs_of_commitAppend h

theorem nowTs_of_resume {task : Task} (h : resume env now state task = (next, .next (.addLeaf step))) :
    step.nowTs = timestamp now := by
  obtain ⟨call, pc⟩ := task
  have hmove := congrArg Prod.snd h
  cases pc with
  | entry =>
    cases call with
    | updateMetric cmd =>
      have hprogress : (updateMetricEntry env state now cmd).2 = .ok (.addLeaf step) := Move.ofProgress_addLeaf hmove
      exact nowTs_of_update (Prod.ext rfl hprogress)
    | inbound kind payload =>
      cases kind with
      | reconciledDecision =>
        simp only [resume, enter] at hmove
        split at hmove <;> cases hmove
      | _ =>
        simp only [resume, enter] at hmove
        unfold Move.ofUnit at hmove
        split at hmove <;> cases hmove
    | supersede args =>
      simp only [resume, enter] at hmove
      unfold Move.ofUnit at hmove
      split at hmove <;> cases hmove
    | rebuild decisionId requiredMetrics =>
      simp only [resume, enter] at hmove
      split at hmove <;> cases hmove
    | maybeCloseAndAnchor =>
      simp only [resume, enter, closeIf] at hmove
      split at hmove
      · split at hmove <;> cases hmove
      · cases hmove
    | forceClose =>
      simp only [resume, enter, closeIf] at hmove
      split at hmove
      · split at hmove <;> cases hmove
      · cases hmove
  | reconciledGate payload =>
    have hprogress : (CommandHandler.reconciledGate env state now payload).2 = .ok (.addLeaf step) :=
      Move.ofProgress_addLeaf hmove
    exact nowTs_of_gate (Prod.ext rfl hprogress)
  | addLeaf other => cases hmove
  | storeBoard other => cases hmove
  | sign job => cases hmove
  | stamp job signature => cases hmove
  | anchoring stamped todo =>
    cases todo with
    | nil => cases hmove
    | cons op todo =>
      simp only [resume] at hmove
      split at hmove
      · cases hmove
      · dsimp only at hmove
        split at hmove <;> cases hmove

end Moments

/-! ## Leaves added by a moment -/

/-- No moment that was given with a leaf is behind the limit. -/
structure Timed (limit : Instant) (sys : System) : Prop where
  added : ∀ pair ∈ sys.history.added, pair.2 ≤ timestamp limit
  adding : ∀ task ∈ sys.tasks, ∀ step ∈ task.addLeaf?, step.nowTs ≤ timestamp limit

theorem Timed.advanced {limit now : Instant} {sys : System} {index : ℕ} {task : Task} {state : AppState} {move : Move}
    (h : Timed limit sys) (htask : sys.tasks[index]? = some task) (hnow : now ≤ limit)
    (hresume : resume env now sys.state task = (state, move)) : Timed limit (sys.advance index task state move) where
  added := by
    intro pair hpair
    rcases List.mem_append.mp hpair with hold | hnew
    · exact h.added pair hold
    · obtain ⟨step, hstep, rfl⟩ := Option.map_eq_some_iff.mp (Option.mem_toList.mp hnew)
      exact h.adding task (List.mem_of_getElem? htask) step hstep
  adding := by
    apply System.forall_advance htask h.adding
    intro other hother step hstep
    cases move with
    | finish answer => cases hother
    | next pc =>
      obtain rfl := List.mem_singleton.mp hother
      cases pc with
      | addLeaf found =>
        obtain rfl : found = step := Option.some.inj hstep
        rw [nowTs_of_resume hresume]
        exact timestamp_le hnow
      | _ => cases hstep

section Runs

variable {maxLeaves : ℤ} {maxSeconds : ℚ} {trace : List (System × Label)} {last : System}

theorem Run.timed {limit : Instant} (run : Run (System.step env) (System.initial maxLeaves maxSeconds) trace last)
    (clock : Along (fun _ label ↦ label.Until limit) trace) : Timed limit last := by
  apply run.keeps (Timed limit) clock
  · exact ⟨by simp [System.initial], by simp [System.initial]⟩
  · intro before sys label next _ _ hallowed hstepped h
    cases hstepped with
    | started =>
      refine ⟨h.added, ?_⟩
      intro task htask
      rcases List.mem_append.mp htask with hold | hnew
      · exact h.adding task hold
      · obtain rfl := List.mem_singleton.mp hnew
        simp [Task.addLeaf?]
    | @resumed _ now _ _ _ htask _ _ hresume => exact h.advanced htask (hallowed now rfl) hresume
    | failed _ _ _ => exact ⟨h.added, fun task htask ↦ h.adding task (List.mem_of_mem_eraseIdx htask)⟩

theorem Changes.limits {state next : AppState} (h : Changes env state next) :
    next.merkleBuilder.maxLeaves = state.merkleBuilder.maxLeaves ∧
      next.merkleBuilder.maxSeconds = state.merkleBuilder.maxSeconds := by
  cases h with
  | appended happends => rw [happends.builder]; exact ⟨rfl, rfl⟩
  | _ => exact ⟨rfl, rfl⟩

/-- The limits of the builder are those the service was started with. -/
theorem Run.limits (run : Run (System.step env) (System.initial maxLeaves maxSeconds) trace last) :
    last.state.merkleBuilder.maxLeaves = maxLeaves ∧ last.state.merkleBuilder.maxSeconds = maxSeconds := by
  apply run.always
    (fun sys ↦ sys.state.merkleBuilder.maxLeaves = maxLeaves ∧ sys.state.merkleBuilder.maxSeconds = maxSeconds)
  · exact ⟨rfl, rfl⟩
  · intro before sys label next _ hstepped h
    exact ⟨hstepped.changes.limits.1.trans h.1, hstepped.changes.limits.2.trans h.2⟩

/-! ## The history grows -/

/-- Leaves and batches of an earlier state are those of a later one, in the same places. -/
structure System.Grows (first second : System) : Prop where
  added : first.history.added <+: second.history.added
  closed : first.history.closed <+: second.history.closed

theorem System.Grows.refl (sys : System) : sys.Grows sys := ⟨List.prefix_rfl, List.prefix_rfl⟩

theorem System.Grows.trans {first second third : System} (h₁ : first.Grows second) (h₂ : second.Grows third) :
    first.Grows third :=
  ⟨h₁.added.trans h₂.added, h₁.closed.trans h₂.closed⟩

theorem Stepped.grows {sys next : System} {label : Label} (h : Stepped env sys label next) : sys.Grows next := by
  cases h with
  | resumed _ _ _ _ => exact ⟨List.prefix_append _ _, List.prefix_append _ _⟩
  | _ => exact ⟨List.prefix_rfl, List.prefix_rfl⟩

theorem Run.grows {rest : List (System × Label)} {later : System}
    (run : Run (System.step env) (System.initial maxLeaves maxSeconds) trace last)
    (after : Run (System.step env) last rest later) : last.Grows later := by
  induction after with
  | nil => exact .refl last
  | snoc hafter hstep ih => exact ih.trans (stepped (run.append hafter).sound hstep).grows

section Closed

variable {rest : List (System × Label)} {later : System}

/-- As soon as as many leaves are in closed batches as there were, the leaves of then stand in front of the others. -/
theorem Run.front_of_closed (run : Run (System.step env) (System.initial maxLeaves maxSeconds) trace last)
    (after : Run (System.step env) last rest later)
    (hlength : last.history.added.length ≤ (later.history.closed.flatMap (·.pending)).length) :
    last.history.added.map Prod.fst <+: later.history.closed.flatMap (·.pending) := by
  have hadded : last.history.added.map Prod.fst <+: later.history.added.map Prod.fst := (run.grows after).added.map _
  have hclosed : later.history.closed.flatMap (·.pending) <+: later.history.added.map Prod.fst :=
    ⟨_, (run.append after).ledger.pending⟩
  exact List.prefix_of_prefix_length_le hadded hclosed (by rwa [List.length_map])

/-- The commits of then are out of the open batch: a closer has them, or they are batched, or lost with a batch. -/
theorem Run.holder_of_closed (run : Run (System.step env) (System.initial maxLeaves maxSeconds) trace last)
    (after : Run (System.step env) last rest later)
    (hlength : last.history.added.length ≤ (later.history.closed.flatMap (·.pending)).length) {entry : Entry}
    (hentry : entry ∈ last.state.auditTrail.events) (htype : entry.eventType = "MetricCommitted")
    (hadding : entry.eventId ∉ last.adding.map (·.eventId)) :
    entry.eventId ∉ later.state.merkleBuilder.pending.map (·.eventId) ∧
      (entry.eventId ∈ eventIdsOf later.held ∨ entry.eventId ∈ later.state.auditTrail.batched ∨
        entry.eventId ∈ eventIdsOf later.history.lost) := by
  have hlater := run.append after
  have hledger := hlater.ledger
  obtain ⟨leaf, hleaf⟩ := run.committed_leaf? hentry htype
  have hmem : leaf ∈ last.history.added.map Prod.fst := by
    have hcount := run.ledger.leaves leaf
    have hstored : leaf ∈ last.state.auditTrail.events.filterMap Entry.leaf? :=
      List.mem_filterMap.mpr ⟨entry, hentry, hleaf⟩
    have hnone : leaf ∉ last.adding := by
      intro h
      rw [← Entry.eventId_of_leaf? hleaf] at hadding
      exact hadding (List.mem_map_of_mem h)
    rw [List.count_eq_zero_of_not_mem hnone, zero_add] at hcount
    exact List.count_pos_iff.mp (hcount ▸ List.count_pos_iff.mpr hstored)
  have hid : entry.eventId ∈ eventIdsOf later.history.closed := by
    rw [← Entry.eventId_of_leaf? hleaf, eventIdsOf, ← List.map_flatMap]
    exact List.mem_map_of_mem ((run.front_of_closed after hlength).subset hmem)
  have hone := hlater.whereabouts ((run.persists after).events.subset hentry) htype
  have hholders := hledger.closedIds_perm.count_eq entry.eventId
  rw [List.count_append, List.count_append] at hholders
  have hpos := List.count_pos_iff.mpr hid
  constructor
  · intro hpending
    have := List.count_pos_iff.mpr hpending
    omega
  · rw [hledger.mem_batched, ← List.count_pos_iff, ← List.count_pos_iff]
    omega

end Closed

end Runs

/-! ## The tick of the closer -/

/-- A tick empties the open batch when it is due, and leaves it alone otherwise. -/
theorem closeIf_builder {guard : Bool} {state : AppState} (hguard : guard = true → state.merkleBuilder.pending ≠ []) :
    (closeIf env guard state).1.merkleBuilder =
      if guard then { state.merkleBuilder with pending := [], firstLeafTs := none } else state.merkleBuilder := by
  cases guard with
  | false => rfl
  | true =>
    obtain ⟨job, -, -, -, hclose⟩ := closeEntry_cases env (hguard rfl)
    simp only [closeIf, hclose, if_true]

theorem System.tick_builder {sys next : System} {index : ℕ} {now : Instant}
    (htask : sys.tasks[index]? = some ⟨.maybeCloseAndAnchor, .entry⟩)
    (h : sys.step env (.resume index now) = some next) :
    next.state.merkleBuilder =
      if sys.state.merkleBuilder.shouldClose (timestamp now) then
        { sys.state.merkleBuilder with pending := [], firstLeafTs := none }
      else sys.state.merkleBuilder := by
  obtain ⟨task, hfound, hnext⟩ := Option.bind_eq_some_iff.mp h
  obtain rfl := Option.some.inj (htask.symm.trans hfound)
  obtain rfl := Option.some.inj hnext
  exact closeIf_builder shouldClose_pending

/-- An open batch that is not due is neither full nor old. -/
theorem MerkleBatchBuilder.not_due {builder : MerkleBatchBuilder} {nowTs : ℚ} (h : builder.shouldClose nowTs = false)
    (hne : builder.pending ≠ []) :
    (builder.pending.length : ℤ) < builder.maxLeaves ∧
      ∀ first ∈ builder.firstLeafTs, nowTs - first < builder.maxSeconds := by
  have hempty : builder.pending.isEmpty = false := by simpa using hne
  simp only [shouldClose, hempty, Bool.false_eq_true, if_false] at h
  split at h
  · cases h
  · rename_i hfull
    refine ⟨not_le.mp hfull, ?_⟩
    intro first hfirst
    rw [hfirst] at h
    exact not_le.mp (of_decide_eq_false h)

section Ticks

variable {maxLeaves : ℤ} {maxSeconds : ℚ} {before between : List (System × Label)} {sys waiting ticked : System}
  {index : ℕ} {moment asked : Instant}

/-- A tick the limit of seconds after a moment finds no leaf of that moment in the open batch, or closes the batch. -/
theorem Run.due (run : Run (System.step env) (System.initial maxLeaves maxSeconds) before sys)
    (clock : Along (fun _ label ↦ label.Until moment) before) (meanwhile : Run (System.step env) sys between waiting)
    (hdue : timestamp moment + maxSeconds ≤ timestamp asked)
    (hopen : (waiting.history.closed.flatMap (·.pending)).length < sys.history.added.length) :
    waiting.state.merkleBuilder.shouldClose (timestamp asked) = true := by
  have hrun := run.append meanwhile
  obtain ⟨later, hadded⟩ := (run.grows meanwhile).added
  -- The first leaf of the open batch is one of those that were added by the moment.
  obtain ⟨⟨leaf, first⟩, hhead⟩ : ∃ pair, sys.history.added[(waiting.history.closed.flatMap (·.pending)).length]? =
      some pair := ⟨_, List.getElem?_eq_getElem hopen⟩
  have hfirst : waiting.state.merkleBuilder.firstLeafTs = some first := by
    have hkept : FirstLeaf waiting := hrun.firstLeaf
    rw [hkept, List.head?_drop, ← hadded, List.getElem?_append_left hopen, hhead]
    rfl
  have hmoment : first ≤ timestamp moment := (run.timed clock).added _ (List.mem_of_getElem? hhead)
  have hne : waiting.state.merkleBuilder.pending ≠ [] := by
    have hpending := congrArg List.length hrun.ledger.pending
    rw [← hadded, List.length_append, List.length_map, List.length_append] at hpending
    apply List.ne_nil_of_length_pos
    omega
  by_contra hclose
  have hyoung := (MerkleBatchBuilder.not_due (Bool.eq_false_of_not_eq_true hclose) hne).2 first hfirst
  rw [hrun.limits.2, sub_lt_iff_lt_add'] at hyoung
  exact absurd (hdue.trans_lt hyoung) (not_lt.mpr (add_le_add_left hmoment _))

/-- After the tick the leaves that were added by the moment are the first leaves of the closed batches. -/
theorem Run.closed_of_tick (run : Run (System.step env) (System.initial maxLeaves maxSeconds) before sys)
    (clock : Along (fun _ label ↦ label.Until moment) before) (meanwhile : Run (System.step env) sys between waiting)
    (closer : waiting.tasks[index]? = some ⟨.maybeCloseAndAnchor, .entry⟩)
    (hdue : timestamp moment + maxSeconds ≤ timestamp asked)
    (htick : waiting.step env (.resume index asked) = some ticked) :
    sys.history.added.length ≤ (ticked.history.closed.flatMap (·.pending)).length := by
  have hrun := run.append meanwhile
  have hticked := hrun.snoc htick
  by_cases hopen : (waiting.history.closed.flatMap (·.pending)).length < sys.history.added.length
  · have hbuilder := System.tick_builder closer htick
    rw [if_pos (run.due clock meanwhile hdue hopen)] at hbuilder
    have hpending := congrArg List.length hticked.ledger.pending
    have hadded := ((run.grows meanwhile).trans (stepped hrun.sound htick).grows).added.length_le
    rw [hbuilder, List.append_nil, List.length_map] at hpending
    omega
  · obtain ⟨jobs, hjobs⟩ := (stepped hrun.sound htick).grows.closed
    rw [← hjobs, List.flatMap_append, List.length_append]
    omega

variable {after : List (System × Label)} {last : System}

/-- In every interleaving of calls, ticks and failures: once the closer has asked the limit of seconds after a moment,
the leaves that were added by that moment stand, in the order in which they were added, in front of all others in the
closed batches, and none of them is in the open batch again; each is with a closer, batched, or lost with its batch.
Whatever such a tick leaves in the open batch is neither full nor old. -/
theorem tick_closes_old_leaves (run : Run (System.step env) (System.initial maxLeaves maxSeconds) before sys)
    (clock : Along (fun _ label ↦ label.Until moment) before) (meanwhile : Run (System.step env) sys between waiting)
    (closer : waiting.tasks[index]? = some ⟨.maybeCloseAndAnchor, .entry⟩)
    (hdue : timestamp moment + maxSeconds ≤ timestamp asked)
    (htick : waiting.step env (.resume index asked) = some ticked) (later : Run (System.step env) ticked after last) :
    sys.history.added.map Prod.fst <+: last.history.closed.flatMap (·.pending) ∧
      (∀ entry ∈ sys.state.auditTrail.events, entry.eventType = "MetricCommitted" →
        entry.eventId ∉ sys.adding.map (·.eventId) →
        entry.eventId ∉ last.state.merkleBuilder.pending.map (·.eventId) ∧
          (entry.eventId ∈ eventIdsOf last.held ∨ entry.eventId ∈ last.state.auditTrail.batched ∨
            entry.eventId ∈ eventIdsOf last.history.lost)) ∧
      (ticked.state.merkleBuilder.pending ≠ [] →
        (ticked.state.merkleBuilder.pending.length : ℤ) < maxLeaves ∧
          ∀ first ∈ ticked.state.merkleBuilder.firstLeafTs, timestamp asked - first < maxSeconds) := by
  have hrun := run.append meanwhile
  have hsince : Run (System.step env) sys (between ++ [(waiting, .resume index asked)] ++ after) last :=
    (meanwhile.snoc htick).append later
  have hlength : sys.history.added.length ≤ (last.history.closed.flatMap (·.pending)).length := by
    obtain ⟨jobs, hjobs⟩ := ((hrun.snoc htick).grows later).closed
    rw [← hjobs, List.flatMap_append, List.length_append]
    exact Nat.le_add_right_of_le (run.closed_of_tick clock meanwhile closer hdue htick)
  refine ⟨run.front_of_closed hsince hlength, ?_, ?_⟩
  · intro entry hentry htype hadding
    exact run.holder_of_closed hsince hlength hentry htype hadding
  · intro hne
    have hbuilder := System.tick_builder closer htick
    split at hbuilder
    · exact absurd (congrArg MerkleBatchBuilder.pending hbuilder) hne
    · rename_i hyoung
      rw [hbuilder] at hne ⊢
      have hdue := MerkleBatchBuilder.not_due (Bool.eq_false_of_not_eq_true hyoung) hne
      rwa [hrun.limits.1, hrun.limits.2] at hdue

end Ticks

/-- A commit at the epoch, another one 59 seconds later and a tick after a minute, which closes both. -/
theorem tick_closes_sampleCommand : ∃ sys idle ticked,
    follow (System.step .local) (System.initial 100 60) (uninterrupted (.updateMetric sampleCommand) 2) = some sys ∧
      follow (System.step .local) sys [.start (.updateMetric (sampleCommit "cost" (.int 2) "k2")),
        .resume 0 59000000, .resume 0 59000000] = some idle ∧
      System.step .local { idle with tasks := idle.tasks ++ [⟨.maybeCloseAndAnchor, .entry⟩] }
        (.resume 0 60000000) = some ticked ∧
      sys.history.added.map Prod.fst <+: ticked.history.closed.flatMap (·.pending) ∧
      ∀ entry ∈ sys.state.auditTrail.events, entry.eventId ∉ ticked.state.merkleBuilder.pending.map (·.eventId) := by
  have hsome : ((follow (System.step .local) (System.initial 100 60)
      (uninterrupted (.updateMetric sampleCommand) 2)).any fun sys ↦ decide (sys.adding = [] ∧
        ∀ entry ∈ sys.state.auditTrail.events, entry.eventType = "MetricCommitted") &&
          (follow (System.step .local) sys [.start (.updateMetric (sampleCommit "cost" (.int 2) "k2")),
            .resume 0 59000000, .resume 0 59000000]).any fun idle ↦ idle.tasks.isEmpty) = true := by decide +kernel
  obtain ⟨sys, hsys, hfound⟩ := (Option.any_eq_true _ _).mp hsome
  obtain ⟨hfacts, hrest⟩ := (Bool.and_eq_true_iff).mp hfound
  obtain ⟨hadding, hevents⟩ := of_decide_eq_true hfacts
  obtain ⟨idle, hidle, hempty⟩ := (Option.any_eq_true _ _).mp hrest
  have hcloser : (idle.tasks ++ [⟨.maybeCloseAndAnchor, .entry⟩] : List Task)[0]? =
      some ⟨.maybeCloseAndAnchor, .entry⟩ := by
    rw [List.isEmpty_iff.mp hempty]
    rfl
  have hdue : timestamp 0 + 60 ≤ timestamp 60000000 := by norm_num [timestamp]
  obtain ⟨ticked, hticked⟩ : ∃ ticked, System.step .local
      { idle with tasks := idle.tasks ++ [⟨.maybeCloseAndAnchor, .entry⟩] } (.resume 0 60000000) = some ticked :=
    ⟨_, Option.bind_eq_some_iff.mpr ⟨_, hcloser, rfl⟩⟩
  have hstart : idle.step .local (.start .maybeCloseAndAnchor) =
      some { idle with tasks := idle.tasks ++ [⟨.maybeCloseAndAnchor, .entry⟩] } := rfl
  have hclosed := tick_closes_old_leaves (Run.of_follow hsys)
    (along_traceOf (by simp only [uninterrupted, List.forall_mem_cons]; decide))
    ((Run.of_follow hidle).snoc hstart) hcloser hdue hticked .nil
  refine ⟨sys, idle, ticked, hsys, hidle, hticked, hclosed.1, ?_⟩
  intro entry hentry
  exact (hclosed.2.1 entry hentry (hevents entry hentry) (by simp [hadding])).1

end DecisionCore
