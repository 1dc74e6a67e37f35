import DecisionCore.System.Runs

/-!
# What a handled payload leaves behind

A handled risk signal is in the trail, and a handled reconciled decision has been rejected there or
has its key in the index.  Both stay, so a second delivery of the payload meets them at any later
moment.
-/

namespace DecisionCore

open CommandHandler MerkleAnchorService

variable {env : Env}

/-- What handling the payload has left in the trail, unless its handler raised for a staging key that
cannot be formed. -/
structure Delivered (env : Env) (state : AppState) (kind : Inbound) (payload : PyDict) : Prop where
  risk : kind = .riskSignal → ∀ decisionId key, stagingKey payload = .ok (decisionId, key) →
    ∃ eventId, ⟨eventId, decisionId, "RiskSignal", payload, none⟩ ∈ state.auditTrail.events
  rejected : kind = .reconciledDecision → (∃ found, stagingKey payload = .ok found) →
    ∀ decisionId metricName idempotencyKey,
      (Call.inbound .reconciledDecision payload).LacksEvidence decisionId metricName idempotencyKey →
      ∃ eventId now, ⟨eventId, decisionId, "MetricRejected",
        rejectedPayload env decisionId metricName idempotencyKey now, none⟩ ∈ state.auditTrail.events
  committed : kind = .reconciledDecision → ∀ commit : Commit,
    (Call.inbound .reconciledDecision payload).Commits commit →
    commit.idempotencyKey ∈ state.auditTrail.events.filterMap (·.idempotencyKey)

theorem Delivered.persists {state next : AppState} {kind : Inbound} {payload : PyDict}
    (h : Delivered env state kind payload) (hpersists : Persists state next) :
    Delivered env next kind payload := by
  refine ⟨?_, ?_, ?_⟩
  · intro hkind decisionId key hkey
    obtain ⟨eventId, hmem⟩ := h.risk hkind decisionId key hkey
    exact ⟨eventId, hpersists.events.subset hmem⟩
  · intro hkind hkey decisionId metricName idempotencyKey hlacks
    obtain ⟨eventId, now, hmem⟩ := h.rejected hkind hkey decisionId metricName idempotencyKey hlacks
    exact ⟨eventId, now, hpersists.events.subset hmem⟩
  · intro hkind commit hcommits
    exact (hpersists.events.filterMap _).subset (h.committed hkind commit hcommits)

/-! ## The segments of a bus handler -/

section Segments

variable {state : AppState} {now : Instant} {payload : PyDict}

theorem stagingKey_of_commits {commit : Commit}
    (h : (Call.inbound .reconciledDecision payload).Commits commit) :
    ∃ found, stagingKey payload = .ok found := by
  obtain ⟨hdecision, hmetric, -⟩ := h
  simp [stagingKey, field, hdecision, hmetric, Json.key?, bind, Except.bind, pure, Except.pure]

theorem onInbound_delivers (env : Env) (state : AppState) (now : Instant) (payload : PyDict) {kind : Inbound}
    (hkind : kind ≠ .reconciledDecision) :
    Delivered env (onInbound env state now kind payload).1 kind payload := by
  refine ⟨?_, fun h ↦ absurd h hkind, fun h ↦ absurd h hkind⟩
  rintro rfl decisionId key hkey
  obtain ⟨next, hcall, happends⟩ := stageAndAppend_ok env state hkey "RiskSignal" fun stage ↦
    ((stage.getD .empty).set "status" (.str MetricStatus.critiqued.value)).set "risk_level"
      ((payload.get? "risk_level").getD .null)
  refine ⟨env.uuid4 state.drawn, ?_⟩
  simp only [onInbound, onRiskSignal]
  rw [hcall, happends.events]
  simp

/-- A key that was appended under is known, now or before. -/
theorem TrailOk.append_key (h : TrailOk env state) (decisionId : Json) (eventType : String) (payload : PyDict)
    (key : String) :
    key ∈ (state.append env decisionId eventType payload (some key)).1.auditTrail.events.filterMap
      (·.idempotencyKey) := by
  rcases MemoryAuditTrail.append_events_cases state.auditTrail (env.uuid4 state.drawn) decisionId eventType
    payload (some key) with ⟨hevents, hknown⟩ | ⟨hevents, -⟩
  · have hmem := mt (h.indexed key).mpr (Option.isSome_iff_ne_none.mp hknown)
    simp only [AppState.append]
    rw [hevents]
    exact not_not.mp hmem
  · simp only [AppState.append]
    rw [hevents]
    simp

theorem reconciledGate_delivers (h : TrailOk env state) (now : Instant) (payload : PyDict) :
    Delivered env (reconciledGate env state now payload).1 .reconciledDecision payload := by
  refine ⟨by simp, ?_, ?_⟩
  · rintro - ⟨⟨found, key⟩, hkey⟩ decisionId metricName idempotencyKey hlacks
    obtain ⟨hfound, hash⟩ := stagingKey_ok hkey
    obtain rfl := Option.some.inj (hfound.symm.trans hlacks.1)
    have happends := append_unkeyed env state found "MetricRejected"
      (rejectedPayload env found metricName idempotencyKey now)
    refine ⟨env.uuid4 state.drawn, now, ?_⟩
    rw [reconciledGate_rejects env state now hash hlacks, happends.events]
    simp
  · rintro - commit hcommits
    have hnow : (Call.inbound .reconciledDecision payload).Commits { commit with now := now } := hcommits
    have hgate := reconciledGate_commits env state hnow
    dsimp only at hgate
    rw [hgate]
    exact h.append_key _ _ _ _

/-- The first segment of a reconciled decision ends the call only without a staging key. -/
theorem reconciledEntry_error {error : PyError} {next : AppState}
    (h : reconciledEntry env state payload = (next, .error error)) : ¬ ∃ found, stagingKey payload = .ok found := by
  rintro ⟨⟨decisionId, key⟩, hkey⟩
  obtain ⟨stored, hcall, -⟩ := stageAndAppend_ok env state hkey "ReconciledDecision" fun stage ↦
    ((stage.getD .empty).update payload).set "status" (.str MetricStatus.reconciled.value)
  rw [reconciledEntry, hcall] at h
  cases (Prod.mk.inj h).2

end Segments

/-! ## Runs -/

/-- A segment that ends a bus call, or leaves only a leaf to add, has left behind what the call
leaves behind. -/
theorem resume_delivers {now : Instant} {state next : AppState} {task : Task} {move : Move} {kind : Inbound}
    {payload : PyDict} (hsound : task.Sound env) (htrail : TrailOk env state)
    (hcall : task.call = .inbound kind payload)
    (hadding : ∀ step, task.pc = .addLeaf step → Delivered env state kind payload)
    (hresume : resume env now state task = (next, move)) (hmove : ∀ found, move ≠ .next (.reconciledGate found)) :
    Delivered env next kind payload := by
  obtain ⟨call, pc⟩ := task
  obtain rfl : call = .inbound kind payload := hcall
  have hnext : (resume env now state ⟨.inbound kind payload, pc⟩).1 = next := congrArg Prod.fst hresume
  have hlast : (resume env now state ⟨.inbound kind payload, pc⟩).2 = move := congrArg Prod.snd hresume
  cases pc with
  | entry =>
    by_cases hkind : kind = .reconciledDecision
    · subst hkind
      simp only [resume, enter] at hnext hlast
      split at hlast
      · rename_i stored error hentry
        have hkey := reconciledEntry_error hentry
        exact ⟨by simp, fun _ h ↦ absurd h hkey, fun _ _ h ↦ absurd (stagingKey_of_commits h) hkey⟩
      · exact absurd hlast.symm (hmove payload)
    · have henter : enter env now state (.inbound kind payload) =
          ((onInbound env state now kind payload).1, .ofUnit (onInbound env state now kind payload).2) := by
        cases kind <;> first | rfl | exact absurd rfl hkind
      simp only [resume] at hnext
      rw [henter] at hnext
      rw [← hnext]
      exact onInbound_delivers env state now payload hkind
  | reconciledGate found =>
    have hfound := hsound.gate found rfl
    obtain ⟨rfl, rfl⟩ := Call.inbound.inj hfound
    rw [← hnext]
    exact reconciledGate_delivers htrail now payload
  | addLeaf step =>
    have hadded : Changes env state (commitFinish state step).1 := .added step
    rw [← hnext]
    exact (hadding step rfl).persists hadded.persists
  | storeBoard board => cases hsound.board board rfl
  | sign job => cases (hsound.sign job rfl).1
  | stamp job signature => cases (hsound.stamp job signature rfl).1
  | anchoring stamped todo => cases (hsound.anchoring stamped todo rfl).1

/-- What the segments of a call leave behind that end it, or leave only a leaf to add, is there once the call is
answered; a step keeps it that way. -/
theorem Stepped.left_behind {sys next : System} {label : Label} (hstepped : Stepped env sys label next)
    (htrail : TrailOk env sys.state) (left : AppState → Prop) {call : Call} (hcloser : call.isCloser = false)
    (persists : ∀ {state next}, Persists state next → left state → left next)
    (leaves : ∀ {now state task next move}, task.Sound env → TrailOk env state → task.call = call →
      (∀ step, task.pc = .addLeaf step → left state) → resume env now state task = (next, move) →
      (∀ found, move ≠ .next (.reconciledGate found)) → left next)
    (htasks : ∀ task ∈ sys.tasks, task.call = call → ∀ step, task.pc = .addLeaf step → left sys.state)
    (hanswers : ∀ answer, (call, answer) ∈ sys.history.answers → left sys.state) :
    (∀ task ∈ next.tasks, task.call = call → ∀ step, task.pc = .addLeaf step → left next.state) ∧
    ∀ answer, (call, answer) ∈ next.history.answers → left next.state := by
  have hpersists := hstepped.changes.persists
  cases hstepped with
  | started =>
    refine ⟨?_, hanswers⟩
    intro task htask hcall step hpc
    rcases List.mem_append.mp htask with hold | hnew
    · exact htasks task hold hcall step hpc
    · obtain rfl := List.mem_singleton.mp hnew
      cases hpc
  | @resumed index now task state move htask hsound hres hresume =>
    have hmem := List.mem_of_getElem? htask
    have hleaves (hcall : task.call = call) (hmove : ∀ found, move ≠ .next (.reconciledGate found)) :
        left state :=
      leaves hsound htrail hcall (htasks task hmem hcall) hresume hmove
    refine ⟨System.forall_advance htask
      (fun other hother hcall step hpc ↦ persists hpersists (htasks other hother hcall step hpc)) ?_, ?_⟩
    · intro other hother hcall step hpc
      cases move with
      | next pc =>
        obtain rfl := List.mem_singleton.mp hother
        obtain rfl : pc = .addLeaf step := hpc
        exact hleaves hcall (by simp)
      | finish answer => cases hother
    · intro answer hanswer
      cases move with
      | next pc => exact persists hpersists (hanswers answer hanswer)
      | finish result =>
        rcases List.mem_append.mp hanswer with hold | hnew
        · exact persists hpersists (hanswers answer hold)
        · obtain ⟨hcall, -⟩ := Prod.mk.inj (List.mem_singleton.mp hnew)
          exact hleaves hcall.symm (by simp)
  | @failed index took task htask hsound htaskCloser =>
    refine ⟨?_, ?_⟩
    · intro other hother hcall step hpc
      exact persists hpersists (htasks other (List.mem_of_mem_eraseIdx hother) hcall step hpc)
    · intro answer hanswer
      rcases List.mem_append.mp hanswer with hold | hnew
      · exact persists hpersists (hanswers answer hold)
      · obtain ⟨hcall, -⟩ := Prod.mk.inj (List.mem_singleton.mp hnew)
        rw [← hcall, hcloser] at htaskCloser
        cases htaskCloser

section Runs

variable {maxLeaves : ℤ} {maxSeconds : ℚ} {trace : List (System × Label)} {last : System}

/-- What the segments of a call leave behind that end it, or leave only a leaf to add, is there once
the call is answered. -/
theorem Run.left_behind (run : Run (System.step env) (System.initial maxLeaves maxSeconds) trace last)
    (left : AppState → Prop) {call : Call} (hcloser : call.isCloser = false)
    (persists : ∀ {state next}, Persists state next → left state → left next)
    (leaves : ∀ {now state task next move}, task.Sound env → TrailOk env state → task.call = call →
      (∀ step, task.pc = .addLeaf step → left state) → resume env now state task = (next, move) →
      (∀ found, move ≠ .next (.reconciledGate found)) → left next) :
    (∀ task ∈ last.tasks, task.call = call → ∀ step, task.pc = .addLeaf step → left last.state) ∧
    ∀ answer, (call, answer) ∈ last.history.answers → left last.state := by
  refine run.always (fun sys ↦ (∀ task ∈ sys.tasks, task.call = call → ∀ step,
      task.pc = .addLeaf step → left sys.state) ∧
    ∀ answer, (call, answer) ∈ sys.history.answers → left sys.state)
    (by simp [System.initial]) ?_
  rintro before sys label next hrun hstepped ⟨htasks, hanswers⟩
  exact hstepped.left_behind hrun.trailOk left hcloser persists leaves htasks hanswers

/-- What the finished bus calls have left behind is still there, and so is what a call has left that
only has its leaf to add. -/
theorem Run.delivered (run : Run (System.step env) (System.initial maxLeaves maxSeconds) trace last)
    {kind : Inbound} {payload : PyDict} :
    (∀ task ∈ last.tasks, task.call = .inbound kind payload → ∀ step, task.pc = .addLeaf step →
      Delivered env last.state kind payload) ∧
    ∀ answer, (.inbound kind payload, answer) ∈ last.history.answers →
      Delivered env last.state kind payload := by
  apply run.left_behind (fun state ↦ Delivered env state kind payload) rfl
  · exact fun hpersists h ↦ h.persists hpersists
  · exact resume_delivers

end Runs

end DecisionCore
