import DecisionCore.System.CommitPath
import DecisionCore.System.Deliveries
import DecisionCore.System.Ownership

/-!
# What an answered bus call has stored

A bus call that returns has stored its payload, and a reconciled decision that asks for a commit has left its
key in the trail, whichever process the call was given to.
-/

namespace DecisionCore

open CommandHandler MerkleAnchorService

variable {env : Env}

/-- The entry a bus call stores for its payload. -/
def busEntry (eventId : String) (kind : Inbound) (payload : PyDict) : Entry :=
  ⟨eventId, (payload.get? "decision_id").getD (.str "runtime"), kind.eventType, payload, none⟩

/-- The payload is in the trail as an event of its kind. -/
def Logged (state : AppState) (kind : Inbound) (payload : PyDict) : Prop :=
  ∃ eventId, busEntry eventId kind payload ∈ state.auditTrail.events

theorem Logged.persists {state next : AppState} {kind : Inbound} {payload : PyDict}
    (h : Logged state kind payload) (hpersists : Persists state next) : Logged next kind payload := by
  obtain ⟨eventId, hmem⟩ := h
  exact ⟨eventId, hpersists.events.subset hmem⟩

section Handlers

variable {state : AppState} {payload : PyDict}

theorem Appends.logs {next : AppState} {eventId : String} {decisionId : Json} {kind : Inbound}
    (h : Appends env state next (some ⟨eventId, decisionId, kind.eventType, payload, none⟩))
    (hdecision : (payload.get? "decision_id").getD (.str "runtime") = decisionId) : Logged next kind payload := by
  refine ⟨eventId, ?_⟩
  rw [h.events, busEntry, hdecision]
  exact List.mem_append_right _ (Option.mem_toList.mpr rfl)

theorem stageAndAppend_logs (env : Env) (state : AppState) {kind : Inbound} {stage : Option PyDict → PyDict}
    (hok : (stageAndAppend env state kind.eventType payload stage).2 = .ok ()) :
    Logged (stageAndAppend env state kind.eventType payload stage).1 kind payload := by
  cases hkey : stagingKey payload with
  | error error =>
    simp only [stageAndAppend, hkey] at hok
    cases hok
  | ok found =>
    obtain ⟨decisionId, key⟩ := found
    obtain ⟨next, hcall, happends⟩ := stageAndAppend_ok env state hkey kind.eventType stage
    rw [hcall]
    apply happends.logs
    rw [(stagingKey_ok hkey).1]
    rfl

/-- A handler that returns has got to its append. -/
theorem Inbound.appends_of_ok {now : Instant} {kind : Inbound} (hkind : kind ≠ .reconciledDecision)
    (hok : (onInbound env state now kind payload).2 = .ok ()) : kind.appends payload = true := by
  have hstaged {eventType : String} {stage : Option PyDict → PyDict}
      (hok : (stageAndAppend env state eventType payload stage).2 = .ok ()) : (stagingKey payload).isOk = true := by
    cases hkey : stagingKey payload with
    | error error =>
      simp only [stageAndAppend, hkey] at hok
      cases hok
    | ok found => rfl
  have hinbound {eventType : String} (hok : (appendInbound env state eventType payload).2 = .ok ()) :
      (payload.get? "decision_id").isSome = true := by
    cases hdecision : payload.get? "decision_id" with
    | none =>
      simp only [appendInbound, field, hdecision] at hok
      cases hok
    | some decisionId => rfl
  cases kind with
  | metricProposed => exact hstaged hok
  | debateOutcome => exact hstaged hok
  | riskSignal => exact hstaged hok
  | reconciledDecision => exact absurd rfl hkind
  | evidenceAttached => exact hinbound hok
  | goalCreated => exact hinbound hok
  | goalCancelled => exact hinbound hok
  | runtimeArtifactDeployed => rfl
  | runtimeConfigUpdated => rfl

/-- A handler that returns has stored its payload. -/
theorem onInbound_logs (env : Env) (state : AppState) (now : Instant) {kind : Inbound}
    (hkind : kind ≠ .reconciledDecision) (hok : (onInbound env state now kind payload).2 = .ok ()) :
    Logged (onInbound env state now kind payload).1 kind payload := by
  have hstored := onInbound_stored env state now payload hkind
  rw [if_pos (Inbound.appends_of_ok hkind hok)] at hstored
  exact hstored.logs rfl

end Handlers

/-- A segment of a bus call raises, or the payload is stored behind it. -/
theorem resume_logs {now : Instant} {state next : AppState} {task : Task} {move : Move} {kind : Inbound}
    {payload : PyDict} (hsound : task.Sound env) (hcall : task.call = .inbound kind payload)
    (hflight : task.pc ≠ .entry → Logged state kind payload)
    (hresume : resume env now state task = (next, move)) :
    (∃ error, move = .finish (.error error)) ∨ Logged next kind payload := by
  have hchanges : Changes env state (resume env now state task).1 := (resume_cases hsound).changes
  have hpersists := hchanges.persists
  rw [hresume] at hpersists
  by_cases hpc : task.pc = .entry
  · obtain ⟨call, pc⟩ := task
    obtain rfl : call = .inbound kind payload := hcall
    obtain rfl : pc = .entry := hpc
    by_cases hkind : kind = .reconciledDecision
    · subst hkind
      cases hentry : reconciledEntry env state payload with
      | mk stored result =>
        cases result with
        | error error =>
          simp only [resume, enter, hentry] at hresume
          exact .inl ⟨error, (Prod.mk.inj hresume).2.symm⟩
        | ok _ =>
          simp only [resume, enter, hentry] at hresume
          have hlogs : Logged (reconciledEntry env state payload).1 .reconciledDecision payload :=
            stageAndAppend_logs env state (congrArg Prod.snd hentry)
          rw [hentry] at hlogs
          apply Or.inr
          rw [← (Prod.mk.inj hresume).1]
          exact hlogs
    · have henter : enter env now state (.inbound kind payload) =
          ((onInbound env state now kind payload).1, .ofUnit (onInbound env state now kind payload).2) := by
        cases kind <;> first | rfl | exact absurd rfl hkind
      simp only [resume] at hresume
      rw [henter] at hresume
      obtain ⟨rfl, rfl⟩ := Prod.mk.inj hresume
      cases hok : (onInbound env state now kind payload).2 with
      | error error => exact .inl ⟨error, rfl⟩
      | ok _ => exact .inr (onInbound_logs env state now hkind hok)
  · exact .inr ((hflight hpc).persists hpersists)

/-! ## Answered calls of a process -/

/-- What the bus calls of a process have stored so far. -/
structure Process.Answers (env : Env) (shared : Shared) (process : Process) : Prop where
  flight : ∀ task ∈ process.tasks, ∀ kind payload, task.call = .inbound kind payload → task.pc ≠ .entry →
    Logged shared.state kind payload
  logged : ∀ kind payload result, (.inbound kind payload, .ok result) ∈ process.history.answers →
    Logged shared.state kind payload
  adding : ∀ kind payload, ∀ task ∈ process.tasks, task.call = .inbound kind payload →
    ∀ step, task.pc = .addLeaf step → Delivered env shared.state kind payload
  delivered : ∀ kind payload answer, (.inbound kind payload, answer) ∈ process.history.answers →
    Delivered env shared.state kind payload

theorem Process.Answers.persists {shared next : Shared} {process : Process} (h : process.Answers env shared)
    (hpersists : Persists shared.state next.state) : process.Answers env next where
  flight task htask kind payload hcall hpc := (h.flight task htask kind payload hcall hpc).persists hpersists
  logged kind payload result hanswer := (h.logged kind payload result hanswer).persists hpersists
  adding kind payload task htask hcall step hpc :=
    (h.adding kind payload task htask hcall step hpc).persists hpersists
  delivered kind payload answer hanswer := (h.delivered kind payload answer hanswer).persists hpersists

section Steps

variable {shared : Shared} {process : Process} {label : Label} {sys : System}

theorem Process.Answers.stepped (h : process.Answers env shared) (htrail : TrailOk env shared.state)
    (hstepped : Stepped env (process.system shared) label sys) :
    (process.after shared sys).Answers env sys.state.shared := by
  have hpersists : Persists shared.state sys.state.shared.state :=
    ⟨hstepped.changes.persists.events, hstepped.changes.persists.rows, hstepped.changes.persists.batched⟩
  have hdelivered (kind : Inbound) (payload : PyDict) :
      (∀ task ∈ sys.tasks, task.call = .inbound kind payload → ∀ step, task.pc = .addLeaf step →
        Delivered env sys.state kind payload) ∧
      ∀ answer, (.inbound kind payload, answer) ∈ sys.history.answers → Delivered env sys.state kind payload := by
    apply hstepped.left_behind (htrail.system process) (fun state ↦ Delivered env state kind payload) rfl
    · exact fun hlater hold ↦ hold.persists hlater
    · exact resume_delivers
    · intro task htask hcall step hpc
      have hadding := h.adding kind payload task htask hcall step hpc
      exact ⟨hadding.risk, hadding.rejected, hadding.committed⟩
    · intro answer hanswer
      have hanswered := h.delivered kind payload answer hanswer
      exact ⟨hanswered.risk, hanswered.rejected, hanswered.committed⟩
  have hflight : ∀ task ∈ sys.tasks, ∀ kind payload, task.call = .inbound kind payload → task.pc ≠ .entry →
      Logged sys.state.shared.state kind payload := by
    cases hstepped with
    | started =>
      intro task htask kind payload hcall hpc
      obtain hold | hnew := List.mem_append.mp htask
      · exact (h.flight task hold kind payload hcall hpc).persists hpersists
      · exact absurd (congrArg Task.pc (List.mem_singleton.mp hnew)) hpc
    | @resumed index now task state move htask hsound hres hresume =>
      refine System.forall_advance htask ?_ ?_
      · intro other hother kind payload hcall hpc
        exact (h.flight other hother kind payload hcall hpc).persists hpersists
      · intro other hother kind payload hcall hpc
        cases move with
        | finish answer => cases hother
        | next after =>
          obtain rfl := List.mem_singleton.mp hother
          have hbefore : task.pc ≠ .entry → Logged (process.system shared).state kind payload :=
            h.flight task (List.mem_of_getElem? htask) kind payload hcall
          obtain ⟨error, hmove⟩ | hlogged := resume_logs hsound hcall hbefore hresume
          · cases hmove
          · exact hlogged
    | @failed index took task htask _ _ =>
      intro other hother kind payload hcall hpc
      exact (h.flight other (List.mem_of_mem_eraseIdx hother) kind payload hcall hpc).persists hpersists
  have hlogged : ∀ kind payload result, (.inbound kind payload, .ok result) ∈ sys.history.answers →
      Logged sys.state.shared.state kind payload := by
    cases hstepped with
    | started =>
      intro kind payload result hanswer
      exact (h.logged kind payload result hanswer).persists hpersists
    | @resumed index now task state move htask hsound hres hresume =>
      intro kind payload result hanswer
      cases move with
      | next after => exact (h.logged kind payload result hanswer).persists hpersists
      | finish answer =>
        obtain hold | hnew := List.mem_append.mp hanswer
        · exact (h.logged kind payload result hold).persists hpersists
        · obtain ⟨hcall, rfl⟩ := Prod.mk.inj (List.mem_singleton.mp hnew)
          have hbefore : task.pc ≠ .entry → Logged (process.system shared).state kind payload :=
            h.flight task (List.mem_of_getElem? htask) kind payload hcall.symm
          obtain ⟨error, hmove⟩ | hstored := resume_logs hsound hcall.symm hbefore hresume
          · cases hmove
          · exact hstored
    | @failed index took task htask _ _ =>
      intro kind payload result hanswer
      obtain hold | hnew := List.mem_append.mp hanswer
      · exact (h.logged kind payload result hold).persists hpersists
      · cases (Prod.mk.inj (List.mem_singleton.mp hnew)).2
  refine ⟨hflight, hlogged, ?_, ?_⟩
  · intro kind payload task htask hcall step hpc
    have hadding := (hdelivered kind payload).1 task htask hcall step hpc
    exact ⟨hadding.risk, hadding.rejected, hadding.committed⟩
  · intro kind payload answer hanswer
    have hanswered := (hdelivered kind payload).2 answer hanswer
    exact ⟨hanswered.risk, hanswered.rejected, hanswered.committed⟩

end Steps

/-- What the calls of a process have stored stays, whatever other processes do. -/
theorem Deployment.answerRules (env : Env) : Components.Rules Process.boot (Process.act env)
    (fun shared ↦ TrailOk env shared.state) (fun shared process ↦ ProcessOk env process ∧ process.Answers env shared)
    (fun shared next ↦ Persists shared.state next.state) where
  boots _ limits _ := by
    refine ⟨processOk_boot limits, ?_⟩
    constructor <;> simp [Process.boot]
  keeps := by
    intro shared next label process after htrail hown hact
    obtain ⟨ok, hanswers⟩ := hown
    obtain ⟨htrailNext, hok, hpersists⟩ := (Deployment.rules env).keeps htrail ok hact
    obtain ⟨sys, hstepped, rfl, rfl⟩ := Process.act_cases ok.sound hact
    exact ⟨htrailNext, ⟨hok, hanswers.stepped htrail hstepped⟩, hpersists⟩
  stable hpersists hown := ⟨hown.1, hown.2.persists hpersists⟩

theorem Deployment.answers {trace : List (Deployment × Components.Action (ℤ × ℚ) Label)} {last : Deployment}
    (run : Run (Deployment.step env) .initial trace last) {part : Component Process} (hpart : part ∈ last.parts) :
    part.own.Answers env last.shared := by
  have hinitial := Deployment.trailOk (.nil : Run (Deployment.step env) .initial [] .initial)
  have hholds := Components.holds_of_run (Deployment.answerRules env) hinitial run
  exact (hholds.own part hpart).2

end DecisionCore
