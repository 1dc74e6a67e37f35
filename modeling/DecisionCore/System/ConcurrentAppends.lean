import DecisionCore.Lib.Linearization
import DecisionCore.System.Adapters

/-!
# Concurrent appends to the Postgres trail

An append is an insert and, where that violates a constraint, a second statement that looks the key up.  Other calls
of the same or of other processes run between the two.  Each append is answered as if it were one step, and as the
in-memory trail answers it.
-/

namespace DecisionCore.AuditTrail

open Calls Adapters

variable {db : Database}

/-! ## The statements of a call -/

/-- A new row has the number that its insert draws. -/
theorem newRow_seq (postgres : PostgresAuditTrail db) (eventId decisionId eventType : String) (payload : PyDict)
    (key : Option String) :
    (postgres.newRow eventId decisionId eventType payload key).seq = db.seq postgres.inserts := rfl

/-- The first statement of a call.  Only an append has a second one, for the key of a violated constraint. -/
def firstStatement (postgres : PostgresAuditTrail db) :
    Call → PostgresAuditTrail db × (Except PyError Reply ⊕ Option String)
  | .append eventId decisionId eventType payload key =>
    let row := postgres.newRow eventId decisionId eventType payload key
    if h : ∀ other ∈ postgres.rows, ¬ other.Clashes row then
      (postgres.insert row (newRow_seq postgres eventId decisionId eventType payload key) h,
        .inl (.ok (.appended ⟨eventId, false, none⟩)))
    else ({ postgres with inserts := postgres.inserts + 1, drawn := postgres.drawn_succ }, .inr key)
  | call => ((callPostgres postgres call).1, .inl (callPostgres postgres call).2)

/-- The second statement of an append. -/
def lookUpKey (postgres : PostgresAuditTrail db) (key : Option String) : Except PyError Reply :=
  let existing := (postgres.existing? key).getD "None"
  .ok (.appended ⟨existing, true, some existing⟩)

def statements (db : Database) : Calls (PostgresAuditTrail db) Call (Except PyError Reply) (Option String) :=
  ⟨firstStatement, lookUpKey⟩

/-- Without an interruption the statements are the call. -/
theorem atomic_statements (db : Database) : (statements db).atomic = callPostgres := by
  funext postgres call
  cases call with
  | append eventId decisionId eventType payload key =>
    simp only [Calls.atomic, statements, firstStatement, callPostgres, PostgresAuditTrail.append]
    split
    · rename_i hfirst
      split at hfirst
      · cases hfirst
        rename_i hunique
        simp only [dif_pos hunique]
      · cases hfirst
    · rename_i hfirst
      split at hfirst
      · cases hfirst
      · cases hfirst
        rename_i hclash
        simp only [dif_neg hclash]
        rfl
  | _ => rfl

/-- An append comes with a generated identifier: a UUID that no row has. -/
def Fresh (postgres : PostgresAuditTrail db) : Call → Prop
  | .append eventId .. => db.uuid? eventId = some eventId ∧ ∀ row ∈ postgres.rows, row.eventId ≠ eventId
  | _ => True

instance (postgres : PostgresAuditTrail db) : (call : Call) → Decidable (Fresh postgres call)
  | .append .. => inferInstanceAs (Decidable (_ ∧ _))
  | .readRange .. => isTrue trivial
  | .readUnbatched .. => isTrue trivial
  | .markBatched .. => isTrue trivial

/-- A known key stays known under its identifier. -/
theorem existing?_kept {postgres : PostgresAuditTrail db} {key : Option String} {existing : String}
    (h : postgres.existing? key = some existing) (call : Call) :
    (callPostgres postgres call).1.existing? key = some existing := by
  cases call with
  | append eventId decisionId eventType payload other =>
    simp only [callPostgres, PostgresAuditTrail.append]
    split
    · cases key with
      | none => cases h
      | some key =>
        have hrows : (postgres.insert (postgres.newRow eventId decisionId eventType payload other) rfl
            (by assumption)).rows = postgres.rows ++ [postgres.newRow eventId decisionId eventType payload other] := rfl
        rw [PostgresAuditTrail.existing?_concat hrows, h]
        rfl
    · exact h
  | readRange decisionId sinceSeq => exact h
  | readUnbatched limit => exact h
  | markBatched eventIds batchId =>
    obtain ⟨ids, hrows⟩ := postgres.markBatched_rows eventIds batchId
    exact (PostgresAuditTrail.existing?_mark hrows key).trans h

/-- A key that is to be looked up is known, and stays known under the same identifier. -/
theorem stable_statements (db : Database) :
    Stable (statements db) Fresh fun postgres key ↦ (postgres.existing? key).isSome = true where
  pends := by
    intro postgres next call key hfresh hfirst
    cases call with
    | append eventId decisionId eventType payload other =>
      simp only [statements, firstStatement] at hfirst
      split at hfirst
      · cases hfirst
      · rename_i hclash
        cases hfirst
        rw [Option.isSome_iff_ne_none]
        intro hnone
        apply hclash
        rintro row hrow (hid | hkey)
        · exact hfresh.2 row hrow hid
        · exact PostgresAuditTrail.existing?_eq_none.mp hnone row hrow hkey
    | _ => cases hfirst
  keeps := by
    intro postgres next call outcome key _ hfirst hknown
    obtain ⟨existing, hexisting⟩ := Option.isSome_iff_exists.mp hknown
    have hnext : next = (callPostgres postgres call).1 := by
      have hstep := congrFun (congrFun (atomic_statements db) postgres) call
      simp only [Calls.atomic, hfirst] at hstep
      cases outcome with
      | inl answer => exact congrArg Prod.fst hstep
      | inr pending => exact congrArg Prod.fst hstep
    have hkept := existing?_kept hexisting call
    rw [← hnext] at hkept
    refine ⟨by rw [hkept]; rfl, ?_⟩
    simp only [statements, lookUpKey, hkept, hexisting]

/-! ## The same calls on the in-memory trail -/

/-- The same call of both trails; an append is answered alike. -/
structure SameCall (first second : Served Call (Except PyError Reply)) : Prop where
  id : first.id = second.id
  op : first.op = second.op
  answer : ∀ eventId decisionId eventType payload key, first.op = .append eventId decisionId eventType payload key →
    first.answer = second.answer

/-- An append with a fresh identifier keeps the trails in step and is answered alike by both. -/
theorem mirrors_append {adapters : Adapters db} (mirrors : adapters.Mirrors)
    {eventId decisionId eventType : String} {payload : PyDict} {key : Option String}
    (fresh : Fresh adapters.postgres (.append eventId decisionId eventType payload key)) :
    Adapters.Mirrors ⟨(callMemory adapters.memory (.append eventId decisionId eventType payload key)).1,
        (callPostgres adapters.postgres (.append eventId decisionId eventType payload key)).1⟩ ∧
      (callMemory adapters.memory (.append eventId decisionId eventType payload key)).2 =
        (callPostgres adapters.postgres (.append eventId decisionId eventType payload key)).2 := by
  cases hknown : adapters.memory.existing? key with
  | some existing =>
    obtain ⟨hrows, hresult⟩ := PostgresAuditTrail.append_of_existing ((mirrors.existing key).trans hknown) eventId
      decisionId eventType payload
    have hmemory : adapters.memory.append eventId (.str decisionId) eventType payload key = _ :=
      MemoryAuditTrail.append_of_existing hknown
    have hmarked : (callPostgres adapters.postgres (.append eventId decisionId eventType payload key)).1.rows =
        adapters.postgres.rows.map (Row.mark [] "") := hrows.trans (Row.map_mark_nil _ _).symm
    refine ⟨mirrors.of_marked hmarked ?_ ?_, ?_⟩
    · simp only [callMemory, hmemory]
    · simp only [callMemory, hmemory]
    · simp only [callMemory, callPostgres, hmemory, hresult]
      rfl
  | none =>
    obtain ⟨hrows, hresult⟩ := PostgresAuditTrail.append_of_fresh ((mirrors.existing key).trans hknown) fresh.2
      decisionId eventType payload
    have hmemory : adapters.memory.append eventId (.str decisionId) eventType payload key = _ :=
      MemoryAuditTrail.append_of_fresh hknown rfl
    refine ⟨mirrors.of_concat hrows ?_ ?_ hknown fresh.1, ?_⟩
    · simp only [callMemory, hmemory]
      rfl
    · simp only [callMemory, hmemory]
      rfl
    · simp only [callMemory, callPostgres, hmemory, hresult]
      rfl

theorem mirrors_call {adapters : Adapters db} (mirrors : adapters.Mirrors) {call : Call}
    (fresh : Fresh adapters.postgres call) (id : ℕ) :
    Adapters.Mirrors ⟨(callMemory adapters.memory call).1, (callPostgres adapters.postgres call).1⟩ ∧
      SameCall ⟨id, call, (callPostgres adapters.postgres call).2⟩ ⟨id, call, (callMemory adapters.memory call).2⟩ := by
  cases call with
  | append eventId decisionId eventType payload key =>
    obtain ⟨hmirrors, hanswer⟩ := mirrors_append mirrors fresh
    exact ⟨hmirrors, rfl, rfl, fun _ _ _ _ _ _ ↦ hanswer.symm⟩
  | readRange decisionId sinceSeq =>
    refine ⟨⟨mirrors.entries, mirrors.existing, mirrors.canonical⟩, rfl, rfl, ?_⟩
    intro _ _ _ _ _ hcall
    cases hcall
  | readUnbatched limit =>
    refine ⟨⟨mirrors.entries, mirrors.existing, mirrors.canonical⟩, rfl, rfl, ?_⟩
    intro _ _ _ _ _ hcall
    cases hcall
  | markBatched eventIds batchId =>
    obtain ⟨ids, hrows⟩ := adapters.postgres.markBatched_rows eventIds batchId
    refine ⟨mirrors.of_marked hrows rfl rfl, rfl, rfl, ?_⟩
    intro _ _ _ _ _ hcall
    cases hcall

/-- What is called one after the other on the table can be called on the memory. -/
theorem mirrored_of_sequential {order : List (Served Call (Except PyError Reply))} {postgres : PostgresAuditTrail db}
    (h : Sequential callPostgres Fresh (.empty db) order postgres) :
    ∃ mirrored memory, Sequential callMemory (fun _ _ ↦ True) .empty mirrored memory ∧
      List.Forall₂ SameCall order mirrored ∧ Adapters.Mirrors ⟨memory, postgres⟩ := by
  induction h with
  | nil => exact ⟨[], .empty, .nil, .nil, Adapters.mirrors_empty db⟩
  | snoc id _ fresh ih =>
    obtain ⟨mirrored, memory, hsequential, hsame, hmirrors⟩ := ih
    obtain ⟨hnext, hcall⟩ := mirrors_call hmirrors fresh id
    exact ⟨_, _, hsequential.snoc id trivial, List.rel_append hsame (.cons hcall .nil), hnext⟩

/-- In every interleaving of the statements of concurrent calls, whose clients may stop at any point: the calls that
have had an effect stand in an order that respects which of them had ended before others began, in which one after the
other they leave the same table behind and are answered the same.  The in-memory trail answers their appends alike in
this order, and in the end the table has its events and keys. -/
theorem concurrent_calls_linearize
    {trace : List (Clients (PostgresAuditTrail db) Call (Except PyError Reply) (Option String) × Label Call)}
    {last : Clients (PostgresAuditTrail db) Call (Except PyError Reply) (Option String)}
    (run : Run (statements db).step (.initial (.empty db)) trace last) (along : Along (Allows Fresh) trace) :
    ∃ order, Linearizes (statements db) Fresh (.empty db) last.object last.history order ∧
      Sequential callPostgres Fresh (.empty db) order last.object ∧
      ∃ mirrored memory, Sequential callMemory (fun _ _ ↦ True) .empty mirrored memory ∧
        List.Forall₂ SameCall order mirrored ∧ Adapters.Mirrors ⟨memory, last.object⟩ := by
  obtain ⟨order, hlinearizes⟩ := linearizes_of_run (stable_statements db) run along
  have hsequential := hlinearizes.sequential
  rw [atomic_statements] at hsequential
  exact ⟨order, hlinearizes, hsequential, mirrored_of_sequential hsequential⟩

/-- Two clients append under one key: the insert of the second fails before the first one ends, and a third client
marks the event before the key is looked up. -/
def racingStatements : List (Label Call) :=
  [.call (.append sampleId "d1" "MetricCommitted" .empty (some "k1")),
    .call (.append "99999999-2222-4333-8444-555555555555" "d1" "MetricCommitted" .empty (some "k1")),
    .effect 0, .effect 0, .call (.markBatched [sampleId] "b1"), .effect 1, .lookup 0]

/-- The second append answers with the event of the first one. -/
def Answers (history : List (Event Call (Except PyError Reply))) : Bool :=
  history.any fun event ↦
    match event with
    | .answered 1 (.ok (.appended result)) => decide (result = ⟨sampleId, true, some sampleId⟩)
    | _ => false

/-- The identifiers are drawn apart from each other. -/
theorem racingStatements_fresh :
    Along (Allows Fresh) (traceOf (statements sampleDatabase).step (.initial (.empty sampleDatabase))
      racingStatements) := by
  have hfresh : ∀ taken ∈ traceOf (statements sampleDatabase).step (.initial (.empty sampleDatabase)) racingStatements,
      Allows Fresh taken.1 taken.2 := by
    decide +kernel
  exact hfresh

theorem racing_statements_linearize : ∃ last,
    follow (statements sampleDatabase).step (.initial (.empty sampleDatabase)) racingStatements = some last ∧
      Answers last.history = true ∧
      ∃ order, Linearizes (statements sampleDatabase) Fresh (.empty sampleDatabase) last.object last.history order ∧
        Sequential callPostgres Fresh (.empty sampleDatabase) order last.object ∧
        ∃ mirrored memory, Sequential callMemory (fun _ _ ↦ True) .empty mirrored memory ∧
          List.Forall₂ SameCall order mirrored ∧ Adapters.Mirrors ⟨memory, last.object⟩ := by
  have hend : (follow (statements sampleDatabase).step (.initial (.empty sampleDatabase)) racingStatements).any
      (fun last ↦ decide (Answers last.history = true)) = true := by decide +kernel
  obtain ⟨last, hlast, hanswers⟩ := exists_follow hend
  exact ⟨last, hlast, hanswers, concurrent_calls_linearize (Run.of_follow hlast) racingStatements_fresh⟩

end DecisionCore.AuditTrail
