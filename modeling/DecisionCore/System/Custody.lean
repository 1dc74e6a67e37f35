import DecisionCore.Infrastructure.LocalEnv
import DecisionCore.System.Ledger
import DecisionCore.System.Provenance

/-!
# Custody of committed leaves

Consequences of the ledger for the events of the trail: every commit is in one place, keys commit at
most once, the pending leaves are what `read_unbatched` answers, and the commits that no one holds
any more are those of the lost batches.
-/

namespace DecisionCore

open CommandHandler MerkleAnchorService

variable {env : Env} {maxLeaves : ℤ} {maxSeconds : ℚ} {trace : List (System × Label)} {last : System}

/-! ## Every commit is in one place -/

theorem Entry.eventId_of_leaf? {entry : Entry} {leaf : PendingLeaf} (h : entry.leaf? = some leaf) :
    leaf.eventId = entry.eventId := by
  unfold Entry.leaf? at h
  split at h
  · obtain ⟨leafHash, -, h⟩ := Option.bind_eq_some_iff.mp h
    obtain ⟨decisionId, -, h⟩ := Option.bind_eq_some_iff.mp h
    rw [← Option.some.inj h]
  · cases h

/-- The identifiers of the committed leaves, in the order of the trail. -/
theorem leafIds_sublist (events : List Entry) :
    ((events.filterMap Entry.leaf?).map (·.eventId)).Sublist (events.map (·.eventId)) := by
  induction events with
  | nil => simp
  | cons entry rest ih =>
    cases hleaf : entry.leaf? with
    | none => simpa [hleaf] using ih.cons _
    | some leaf => simpa [hleaf, Entry.eventId_of_leaf? hleaf] using ih

theorem Run.committed_leaf? (run : Run (System.step env) (System.initial maxLeaves maxSeconds) trace last)
    {entry : Entry} (hentry : entry ∈ last.state.auditTrail.events)
    (htype : entry.eventType = "MetricCommitted") : ∃ leaf, entry.leaf? = some leaf := by
  obtain ⟨commit, hcommit⟩ := run.committed_entry hentry htype
  exact ⟨_, by rw [hcommit, Commit.entry_leaf?]⟩

theorem Ledger.addedIds_perm (h : Ledger env last) :
    ((last.state.auditTrail.events.filterMap Entry.leaf?).map (·.eventId)).Perm
      (last.adding.map (·.eventId) ++ (last.history.added.map Prod.fst).map (·.eventId)) := by
  rw [← List.map_append]
  refine List.Perm.map _ (List.perm_iff_count.mpr fun leaf ↦ ?_)
  rw [List.count_append, h.leaves leaf]

theorem Ledger.closedIds_perm (h : Ledger env last) :
    (eventIdsOf last.history.closed).Perm
      (eventIdsOf last.held ++ eventIdsOf last.history.marked ++ eventIdsOf last.history.lost) := by
  rw [← eventIdsOf_append, ← eventIdsOf_append]
  refine List.Perm.flatMap_right _ (List.perm_iff_count.mpr fun job ↦ ?_)
  rw [List.count_append, List.count_append, h.jobs job]

theorem Ledger.addedIds_eq (h : Ledger env last) :
    (last.history.added.map Prod.fst).map (·.eventId) =
      eventIdsOf last.history.closed ++ last.state.merkleBuilder.pending.map (·.eventId) := by
  rw [← h.pending, List.map_append, List.map_flatMap, eventIdsOf]

/-- No event is added to a batch twice. -/
theorem Run.addedIds_nodup (run : Run (System.step env) (System.initial maxLeaves maxSeconds) trace last) :
    ((last.history.added.map Prod.fst).map (·.eventId)).Nodup := by
  have hleaves := (leafIds_sublist last.state.auditTrail.events).nodup run.trailOk.ids
  exact (List.nodup_append.mp (run.ledger.addedIds_perm.nodup_iff.mp hleaves)).2.1

theorem Entry.committed_of_leaf? {entry : Entry} {leaf : PendingLeaf} (h : entry.leaf? = some leaf) :
    entry.eventType = "MetricCommitted" := by
  unfold Entry.leaf? at h
  split at h
  · assumption
  · cases h

/-- Whatever was added to a batch is a commit of the trail. -/
theorem Run.committed_of_added
    (run : Run (System.step env) (System.initial maxLeaves maxSeconds) trace last) {eventId : String}
    (h : eventId ∈ (last.history.added.map Prod.fst).map (·.eventId)) :
    ∃ entry ∈ last.state.auditTrail.events, entry.eventType = "MetricCommitted" ∧
      entry.eventId = eventId := by
  have hmem := run.ledger.addedIds_perm.mem_iff.mpr (List.mem_append_right _ h)
  obtain ⟨leaf, hleaf, rfl⟩ := List.mem_map.mp hmem
  obtain ⟨entry, hentry, hsome⟩ := List.mem_filterMap.mp hleaf
  exact ⟨entry, hentry, Entry.committed_of_leaf? hsome, (Entry.eventId_of_leaf? hsome).symm⟩

/-- Counted over all holders, a leaf of the ledger occurs once, where no event is stored twice. -/
theorem Ledger.whereabouts (h : Ledger env last) (hids : (last.state.auditTrail.events.map (·.eventId)).Nodup)
    {entry : Entry} (hentry : entry ∈ last.state.auditTrail.events) {leaf : PendingLeaf}
    (hleaf : entry.leaf? = some leaf) :
    (last.adding.map (·.eventId)).count entry.eventId +
        (last.state.merkleBuilder.pending.map (·.eventId)).count entry.eventId +
        (eventIdsOf last.held).count entry.eventId +
        (eventIdsOf last.history.marked).count entry.eventId +
        (eventIdsOf last.history.lost).count entry.eventId = 1 := by
  have hmem : entry.eventId ∈ (last.state.auditTrail.events.filterMap Entry.leaf?).map (·.eventId) :=
    List.mem_map.mpr ⟨leaf, List.mem_filterMap.mpr ⟨entry, hentry, hleaf⟩, Entry.eventId_of_leaf? hleaf⟩
  have hone := List.count_eq_one_of_mem ((leafIds_sublist _).nodup hids) hmem
  have hadded := h.addedIds_perm.count_eq entry.eventId
  have hclosed := h.closedIds_perm.count_eq entry.eventId
  rw [h.addedIds_eq] at hadded
  simp only [List.count_append] at hadded hclosed
  omega

/-- Counted over all holders, a stored commit occurs once. -/
theorem Run.whereabouts (run : Run (System.step env) (System.initial maxLeaves maxSeconds) trace last)
    {entry : Entry} (hentry : entry ∈ last.state.auditTrail.events)
    (htype : entry.eventType = "MetricCommitted") :
    (last.adding.map (·.eventId)).count entry.eventId +
        (last.state.merkleBuilder.pending.map (·.eventId)).count entry.eventId +
        (eventIdsOf last.held).count entry.eventId +
        (eventIdsOf last.history.marked).count entry.eventId +
        (eventIdsOf last.history.lost).count entry.eventId = 1 := by
  obtain ⟨leaf, hleaf⟩ := run.committed_leaf? hentry htype
  exact run.ledger.whereabouts run.trailOk.ids hentry hleaf

theorem Ledger.mem_batched (h : Ledger env last) (eventId : String) :
    eventId ∈ last.state.auditTrail.batched ↔ 0 < (eventIdsOf last.history.marked).count eventId := by
  rw [h.batched, List.mem_toFinset, List.count_pos_iff]

/-! ## Closed batches -/

theorem Task.Sound.jobOk {task : Task} (h : task.Sound env) {job : AnchorJob} (hjob : task.job? = some job) :
    JobOk env job := by
  unfold Task.job? at hjob
  split at hjob
  · rename_i hpc
    exact Option.some.inj hjob ▸ (h.sign _ hpc).2
  · rename_i hpc
    exact Option.some.inj hjob ▸ (h.stamp _ _ hpc).2.1
  · rename_i hpc
    exact Option.some.inj hjob ▸ (h.anchoring _ _ hpc).2.1.job
  · cases hjob

/-- Every closed batch is well formed; in particular none is empty. -/
theorem Run.closed_ok (run : Run (System.step env) (System.initial maxLeaves maxSeconds) trace last) :
    ∀ job ∈ last.history.closed, JobOk env job := by
  refine run.always (fun sys ↦ ∀ job ∈ sys.history.closed, JobOk env job)
    (by simp [System.initial]) ?_
  intro before sys label next hrun hstepped hclosed
  cases hstepped with
  | started => exact hclosed
  | resumed htask hsound hres =>
    intro job hjob
    rcases List.mem_append.mp hjob with hold | hnew
    · exact hclosed job hold
    · obtain ⟨stored, hbooked⟩ := hres.booked hsound
      have hmem := hbooked.jobs ▸ List.mem_append_right _ hnew
      rcases List.mem_append.mp hmem with hafter | hmarks
      · obtain ⟨task, hmember, htaskJob⟩ := List.mem_filterMap.mp hafter
        exact (hres.sound hsound task hmember).jobOk htaskJob
      · exact hsound.jobOk (Task.job?_of_marks? (Option.mem_toList.mp hmarks))
  | failed _ _ _ => exact hclosed

theorem Run.lost_ok (run : Run (System.step env) (System.initial maxLeaves maxSeconds) trace last) :
    ∀ job ∈ last.history.lost, JobOk env job := by
  intro job hjob
  have hcount := run.ledger.jobs job
  have hpos := List.count_pos_iff.mpr hjob
  exact run.closed_ok job (List.count_pos_iff.mp (by omega))

/-- The moment kept by the builder is the one given with its first pending leaf. -/
def FirstLeaf (sys : System) : Prop :=
  sys.state.merkleBuilder.firstLeafTs =
    ((sys.history.added.drop (sys.history.closed.flatMap (·.pending)).length).head?).map Prod.snd

/-- A step that neither adds a leaf nor closes a batch leaves the moment alone. -/
theorem FirstLeaf.frame {sys next : System} (h : FirstLeaf sys)
    (hbuilder : next.state.merkleBuilder = sys.state.merkleBuilder)
    (hadded : next.history.added = sys.history.added)
    (hclosed : next.history.closed = sys.history.closed) : FirstLeaf next := by
  unfold FirstLeaf at h ⊢
  rw [hbuilder, hadded, hclosed, h]

theorem Ran.builder {state next : AppState} {stamped : StampedJob} {op : AnchorOp}
    {result : Except PyError Unit} (h : Ran env state stamped op (next, result)) :
    next.merkleBuilder = state.merkleBuilder := by
  cases h with
  | published happends => exact happends.builder
  | _ => rfl

theorem FirstLeaf.advanced {sys : System} {index : ℕ} {now : Instant} {task : Task} {state : AppState}
    {move : Move} (h : FirstLeaf sys) (hledger : Ledger env sys)
    (hres : Resumed env now sys.state task state move) :
    FirstLeaf (sys.advance index task state move) := by
  obtain ⟨call, pc⟩ := task
  cases hres with
  | quiet happends _ hadd _ hcalm =>
    refine h.frame happends.builder (by simp [System.advance, hadd]) ?_
    cases hcalm <;> simp [System.advance, Move.closed?]
  | committed _ hadd _ happends =>
    exact h.frame happends.builder (by simp [System.advance, hadd])
      (by simp [System.advance, Move.closed?])
  | @added step hpc =>
    obtain rfl : pc = .addLeaf step := hpc
    have hlength := congrArg List.length hledger.pending
    rw [List.length_append, List.length_map] at hlength
    unfold FirstLeaf at h ⊢
    simp only [System.advance, Move.closed?, Task.addLeaf?, commitFinish, MerkleBatchBuilder.addLeaf,
      Option.map_some, Option.toList_some, Option.toList_none, List.append_nil]
    rw [List.drop_append_of_le_length (by omega), List.head?_append, h]
    cases ((sys.history.added.drop (sys.history.closed.flatMap (·.pending)).length).head?) <;> rfl
  | @closed job hpc _ _ hpending _ =>
    obtain rfl : pc = .entry := hpc
    have hlength := congrArg List.length hledger.pending
    rw [List.length_append, List.length_map] at hlength
    unfold FirstLeaf
    simp only [System.advance, Move.closed?, Task.addLeaf?, Option.map_none, Option.toList_none,
      Option.toList_some, List.append_nil, List.flatMap_append, List.flatMap_singleton, hpending]
    rw [List.drop_of_length_le (by rw [List.length_append]; omega)]
    rfl
  | stored hpc =>
    obtain rfl : pc = _ := hpc
    exact h.frame rfl (by simp [System.advance, Task.addLeaf?]) (by simp [System.advance, Move.closed?])
  | signed hpc =>
    obtain rfl : pc = _ := hpc
    exact h.frame rfl (by simp [System.advance, Task.addLeaf?]) (by simp [System.advance, Move.closed?])
  | stamped hpc =>
    obtain rfl : pc = _ := hpc
    exact h.frame rfl (by simp [System.advance, Task.addLeaf?]) (by simp [System.advance, Move.closed?])
  | anchored hpc hran =>
    obtain rfl : pc = _ := hpc
    exact h.frame hran.builder (by simp [System.advance, Task.addLeaf?])
      (by simp [System.advance, Move.closed?])

theorem Run.firstLeaf (run : Run (System.step env) (System.initial maxLeaves maxSeconds) trace last) :
    FirstLeaf last := by
  refine run.always FirstLeaf (by rfl) ?_
  intro before sys label next hrun hstepped h
  cases hstepped with
  | started => exact h
  | resumed _ _ hres => exact h.advanced hrun.ledger hres
  | @failed _ took task _ hsound hcloser =>
    obtain ⟨stored, hspoiled⟩ := Spoiled.of_fail sys.state hsound hcloser took
    exact h.frame hspoiled.pending rfl rfl

/-! ## Answers -/

/-- The answers of a call that is not interrupted by a failure. -/
structure AnswerOk (call : Call) (answer : Answer) : Prop where
  closer : call.isCloser = true → answer = .ok none
  committing : call.committing = true → ∀ result, answer = .ok result →
    (∃ leafHash, result = some ⟨.accepted, some leafHash⟩) ∨ result = some ⟨.duplicateIgnored, none⟩

theorem Resumed.answerOk {now : Instant} {state next : AppState} {task : Task} {answer : Answer}
    (h : Resumed env now state task next (.finish answer)) (hsound : task.Sound env) :
    AnswerOk task.call answer := by
  have hnone (hcommitting : task.call.committing = false) : AnswerOk task.call (.ok none) :=
    ⟨fun _ ↦ rfl, fun hcommits ↦ by simp [hcommitting] at hcommits⟩
  generalize hmove : Move.finish answer = move at h
  cases h with
  | quiet _ _ _ _ hcalm =>
    cases hcalm with
    | raised hcloser =>
      obtain rfl := Move.finish.inj hmove
      exact ⟨fun h ↦ by simp [hcloser] at h, fun _ _ h ↦ by cases h⟩
    | duplicate hcloser =>
      obtain rfl := Move.finish.inj hmove
      exact ⟨fun h ↦ by simp [hcloser] at h, fun _ _ h ↦ .inr (Except.ok.inj h).symm⟩
    | rejected hcloser hcommitting =>
      obtain rfl := Move.finish.inj hmove
      exact ⟨fun h ↦ by simp [hcloser] at h, fun h ↦ by simp [hcommitting] at h⟩
    | silent hcommitting =>
      obtain rfl := Move.finish.inj hmove
      exact hnone hcommitting
    | _ => cases hmove
  | added hpc =>
    obtain rfl := Move.finish.inj hmove
    obtain ⟨commit, -, hcommits, -⟩ := hsound.adding _ hpc
    refine ⟨?_, fun _ _ h ↦ .inl ⟨_, (Except.ok.inj h).symm⟩⟩
    intro hcloser
    have hcommitting := hcommits.committing
    rw [Call.committing_of_isCloser hcloser] at hcommitting
    cases hcommitting
  | stored hpc =>
    obtain rfl := Move.finish.inj hmove
    exact hnone (Call.committing_of_isRebuild (hsound.board _ hpc))
  | @anchored _ _ todo _ hpc _ =>
    cases todo with
    | nil =>
      obtain rfl := Move.finish.inj hmove
      exact hnone (Call.committing_of_isCloser (hsound.anchoring _ _ hpc).1)
    | cons op todo => cases hmove
  | _ => cases hmove

/-- No dependency fails in this step. -/
def Label.Succeeds : Label → Prop
  | .fail _ _ => False
  | _ => True

/-- An answer is one of an uninterrupted call, or that of a closer some allowed step failed. -/
theorem Run.answerOk {allowed : System → Label → Prop}
    (run : Run (System.step env) (System.initial maxLeaves maxSeconds) trace last)
    (along : Along allowed trace) :
    ∀ pair ∈ last.history.answers, AnswerOk pair.1 pair.2 ∨
      pair.1.isCloser = true ∧ pair.2 = .error .external ∧ ∃ sys index took, allowed sys (.fail index took) := by
  refine run.keeps (fun sys ↦ ∀ pair ∈ sys.history.answers, AnswerOk pair.1 pair.2 ∨
    pair.1.isCloser = true ∧ pair.2 = .error .external ∧
      ∃ sys index took, allowed sys (.fail index took)) along (by simp [System.initial]) ?_
  intro before sys label next _ _ hallowed hstepped hold
  cases hstepped with
  | started => exact hold
  | @resumed _ _ task _ move htask hsound hres =>
    cases move with
    | next pc => exact hold
    | finish answer =>
      intro pair hpair
      rcases List.mem_append.mp hpair with hbefore | hnew
      · exact hold pair hbefore
      · obtain rfl := List.mem_singleton.mp hnew
        exact .inl (hres.answerOk hsound)
  | @failed index took task htask _ hcloser =>
    intro pair hpair
    rcases List.mem_append.mp hpair with hbefore | hnew
    · exact hold pair hbefore
    · obtain rfl := List.mem_singleton.mp hnew
      exact .inr ⟨hcloser, rfl, sys, index, took, hallowed⟩

/-! ## What `read_unbatched` answers -/

/-- The own `event_id` of a bus payload, if it has one, can be looked up in a set. -/
def Call.Traceable : Call → Prop
  | .inbound _ payload => ∀ value, payload.get? "event_id" = some value → value.hashable = true
  | _ => True

/-- Commits keep the identifier of their envelope, and no stored identifier raises. -/
theorem Call.Stores.eventId {call : Call} {entry : Entry} (h : call.Stores env entry)
    (hcall : call.Traceable) :
    ∃ value, entry.record.get? "event_id" = some value ∧ value.hashable = true ∧
      (entry.eventType = "MetricCommitted" → value = .str entry.eventId) := by
  have hown (hpayload : entry.payload.get? "event_id" = none) :
      ∃ value, entry.record.get? "event_id" = some value ∧ value.hashable = true ∧
        (entry.eventType = "MetricCommitted" → value = .str entry.eventId) :=
    ⟨.str entry.eventId, by simp [Entry.record_get?, hpayload, Entry.envelope], rfl, fun _ ↦ rfl⟩
  rcases h with horigin | ⟨commit, -, hcommit⟩
  · cases horigin with
    | @inbound kind payload eventId hinbound =>
      subst hinbound
      cases hpayload : payload.get? "event_id" with
      | none => exact hown hpayload
      | some value =>
        exact ⟨value, by simp [Entry.record_get?, hpayload], hcall value hpayload,
          fun htype ↦ absurd htype kind.eventType_ne_committed⟩
    | rejected _ => exact hown (by simp [rejectedPayload])
    | superseded _ => exact hown (by simp [supersededPayload])
    | published _ _ => exact hown (by simp [payloadCommon])
  · exact hown (by rw [hcommit]; simp [Commit.entry, committedPayload])

/-- The filter keeps the commits without a mark. -/
theorem Call.Stores.isUnbatched {call : Call} {entry : Entry} (h : call.Stores env entry)
    (honest : call.Honest) (traceable : call.Traceable) (batched : Finset String) :
    MemoryAuditTrail.isUnbatched batched entry.record = .ok (entry.isOpen batched) := by
  obtain ⟨value, hvalue, hash, hid⟩ := h.eventId traceable
  have htype := (h.honest honest).hasType "MetricCommitted"
  unfold MemoryAuditTrail.isUnbatched
  rw [hvalue, htype]
  by_cases hcommitted : entry.eventType = "MetricCommitted"
  · rw [hid hcommitted]
    simp [Entry.isOpen, hcommitted]
  · cases value <;> simp_all [Entry.isOpen]

/-- With no call in between, the entries without a mark are those of the pending leaves. -/
theorem Run.openIds_perm
    (run : Run (System.step env) (System.initial maxLeaves maxSeconds) trace last)
    (hadding : last.adding = []) (hheld : last.held = []) (hlost : last.history.lost = []) :
    ((last.state.auditTrail.events.filter (Entry.isOpen last.state.auditTrail.batched)).map (·.eventId)).Perm
      (last.state.merkleBuilder.pending.map (·.eventId)) := by
  have hledger := run.ledger
  have hadded := run.addedIds_nodup
  rw [hledger.addedIds_eq] at hadded
  refine (List.perm_ext_iff_of_nodup ((List.filter_sublist.map _).nodup run.trailOk.ids)
    (List.nodup_append.mp hadded).2.1).mpr fun eventId ↦ ⟨?_, ?_⟩
  · intro hmem
    obtain ⟨entry, hentry, rfl⟩ := List.mem_map.mp hmem
    obtain ⟨hstored, htype, hopen⟩ := Entry.mem_open.mp hentry
    have hone := run.whereabouts hstored htype
    rw [hledger.mem_batched] at hopen
    simp only [hadding, hheld, hlost, eventIdsOf, List.map_nil, List.flatMap_nil, List.count_nil] at hone hopen
    exact List.count_pos_iff.mp (by omega)
  · intro hmem
    obtain ⟨entry, hstored, htype, rfl⟩ := run.committed_of_added
      (hledger.addedIds_eq ▸ List.mem_append_right _ hmem)
    have hone := run.whereabouts hstored htype
    have hpending := List.count_pos_iff.mpr hmem
    refine List.mem_map.mpr ⟨entry, Entry.mem_open.mpr ⟨hstored, htype, ?_⟩, rfl⟩
    rw [hledger.mem_batched]
    omega

/-- With no call in between, the unbatched commits are the pending ones. -/
theorem Run.readUnbatched
    (run : Run (System.step env) (System.initial maxLeaves maxSeconds) trace last)
    (calls : Along (fun _ label ↦ label.Starts fun call ↦ call.Honest ∧ call.Traceable) trace)
    (hadding : last.adding = []) (hheld : last.held = []) (hlost : last.history.lost = [])
    {limit : ℤ} (hlimit : last.state.auditTrail.events.length ≤ limit) :
    ∃ records, last.state.auditTrail.readUnbatched limit = .ok records ∧
      (records.map (·.get? "event_id")).Perm
        (last.state.merkleBuilder.pending.map fun leaf ↦ some (.str leaf.eventId)) := by
  have hstored := (run.storedBy calls).2
  let kept := last.state.auditTrail.events.filter (Entry.isOpen last.state.auditTrail.batched)
  have hcollect := MemoryAuditTrail.collectUnbatched_eq (fun entry hentry ↦ by
    obtain ⟨call, ⟨honest, traceable⟩, hstores⟩ := hstored entry hentry
    exact hstores.isUnbatched honest traceable last.state.auditTrail.batched)
  have hlength : ((kept.map Entry.record).length : ℤ) ≤ limit := by
    have := List.length_filter_le (Entry.isOpen last.state.auditTrail.batched) last.state.auditTrail.events
    rw [List.length_map]
    exact le_trans (by exact_mod_cast this) hlimit
  refine ⟨kept.map Entry.record, ?_, ?_⟩
  · rw [MemoryAuditTrail.readUnbatched, hcollect]
    exact congrArg Except.ok (sliceTo_of_length_le hlength)
  have hrecords : (kept.map Entry.record).map (·.get? "event_id") =
      (kept.map (·.eventId)).map fun eventId ↦ some (.str eventId) := by
    rw [List.map_map, List.map_map]
    refine List.map_congr_left fun entry hentry ↦ ?_
    obtain ⟨hmem, htype, -⟩ := Entry.mem_open.mp hentry
    obtain ⟨call, ⟨-, traceable⟩, hstores⟩ := hstored entry hmem
    obtain ⟨value, hvalue, -, hid⟩ := hstores.eventId traceable
    exact hvalue.trans (congrArg some (hid htype))
  have hids := run.openIds_perm hadding hheld hlost
  rw [hrecords]
  simpa [List.map_map, Function.comp_def] using hids.map fun eventId ↦ some (Json.str eventId)

/-! ## Runs without failures -/

/-- Only failed awaits lose batches. -/
theorem Run.lost_of_succeeds
    (run : Run (System.step env) (System.initial maxLeaves maxSeconds) trace last)
    (succeeds : Along (fun _ label ↦ label.Succeeds) trace) : last.history.lost = [] := by
  refine run.keeps (fun sys ↦ sys.history.lost = []) succeeds rfl ?_
  intro before sys label next _ _ hallowed hstepped hlost
  cases hstepped with
  | started => exact hlost
  | resumed _ _ _ => exact hlost
  | failed _ _ _ => exact hallowed.elim

/-- In every interleaving of calls and closers without a failure each stored commit is either not
yet added, pending, in one batch that is being anchored, or batched; batches are closed in the order
of the leaves and never empty; the builder knows the moment of its first leaf; and between the calls
`read_unbatched` answers with the pending leaves. -/
theorem no_leaf_lost_or_anchored_twice
    (run : Run (System.step env) (System.initial maxLeaves maxSeconds) trace last)
    (succeeds : Along (fun _ label ↦ label.Succeeds) trace) :
    (∀ entry ∈ last.state.auditTrail.events, entry.eventType = "MetricCommitted" →
      (last.adding.map (·.eventId)).count entry.eventId +
          (last.state.merkleBuilder.pending.map (·.eventId)).count entry.eventId +
          (eventIdsOf last.held).count entry.eventId +
          (if entry.eventId ∈ last.state.auditTrail.batched then 1 else 0) = 1) ∧
      last.history.closed.flatMap (·.pending) ++ last.state.merkleBuilder.pending =
        last.history.added.map Prod.fst ∧
      (last.state.merkleBuilder.firstLeafTs = none ↔ last.state.merkleBuilder.pending = []) ∧
      last.state.merkleBuilder.firstLeafTs =
        ((last.history.added.drop (last.history.closed.flatMap (·.pending)).length).head?).map Prod.snd ∧
      (∀ job ∈ last.history.closed, job.pending ≠ []) ∧
      (∀ call answer, (call, answer) ∈ last.history.answers → call.isCloser = true → answer = .ok none) ∧
      (Along (fun _ label ↦ label.Starts fun call ↦ call.Honest ∧ call.Traceable) trace →
        last.adding = [] → last.held = [] →
        ∀ limit : ℤ, last.state.auditTrail.events.length ≤ limit →
          ∃ records, last.state.auditTrail.readUnbatched limit = .ok records ∧
            (records.map (·.get? "event_id")).Perm
              (last.state.merkleBuilder.pending.map fun leaf ↦ some (.str leaf.eventId))) := by
  have hledger := run.ledger
  have hlost := run.lost_of_succeeds succeeds
  have hfirst : FirstLeaf last := run.firstLeaf
  refine ⟨?_, hledger.pending, ?_, hfirst, ?_, ?_, ?_⟩
  · intro entry hentry htype
    have hone := run.whereabouts hentry htype
    have hmarked := hledger.mem_batched entry.eventId
    rw [hlost] at hone
    simp only [eventIdsOf, List.flatMap_nil, List.count_nil] at hone hmarked ⊢
    split
    · rename_i hbatched
      have := hmarked.mp hbatched
      omega
    · rename_i hbatched
      have := mt hmarked.mpr hbatched
      omega
  · have hlength := congrArg List.length hledger.pending
    rw [List.length_append, List.length_map] at hlength
    rw [hfirst, Option.map_eq_none_iff, List.head?_eq_none_iff, List.drop_eq_nil_iff,
      ← List.length_eq_zero_iff]
    omega
  · exact fun job hjob ↦ (run.closed_ok job hjob).nonempty
  · intro call answer hanswer hcloser
    rcases run.answerOk succeeds (call, answer) hanswer with hok | ⟨-, -, sys, index, took, hfail⟩
    · exact hok.closer hcloser
    · exact hfail.elim
  · intro calls hadding hheld limit hlimit
    exact run.readUnbatched calls hadding hheld hlost hlimit

/-- A commit that waits for its batch to be closed. -/
theorem custody_of_pending_commit :
    ∃ last, follow (System.step .local) (System.initial 100 60) (commitAndClose.take 3) = some last ∧
      last.state.merkleBuilder.pending.length = 1 ∧
      last.history.closed.flatMap (·.pending) ++ last.state.merkleBuilder.pending =
        last.history.added.map Prod.fst ∧
      ∃ records, last.state.auditTrail.readUnbatched 10 = .ok records ∧
        (records.map (·.get? "event_id")).Perm
          (last.state.merkleBuilder.pending.map fun leaf ↦ some (.str leaf.eventId)) := by
  have hsome : ((follow (System.step .local) (System.initial 100 60) (commitAndClose.take 3)).map
      fun last ↦ decide (last.state.merkleBuilder.pending.length = 1 ∧ last.adding = [] ∧ last.held = [] ∧
        last.state.auditTrail.events.length ≤ 10)) = some true := by decide +kernel
  obtain ⟨last, hlast, hfacts⟩ := Option.map_eq_some_iff.mp hsome
  obtain ⟨hpending, hadding, hheld, hlength⟩ := of_decide_eq_true hfacts
  have hcustody := no_leaf_lost_or_anchored_twice (Run.of_follow hlast)
    (along_traceOf (by simp [commitAndClose, uninterrupted, Label.Succeeds]))
  refine ⟨last, hlast, hpending, hcustody.2.1, hcustody.2.2.2.2.2.2 (along_traceOf ?_) hadding hheld 10
    (by exact_mod_cast hlength)⟩
  simp [commitAndClose, uninterrupted, Label.Starts, Call.Honest, Call.Traceable]

end DecisionCore
