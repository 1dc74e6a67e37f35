import DecisionCore.Infrastructure.PostgresAuditTrail
import DecisionCore.Lib.Transition

/-!
# The two audit trails

The same calls on the in-memory trail and on the Postgres trail, with the generated identifiers of one append named
alike in both.  The table mirrors the events of the memory, and what the two answer is compared call by call.
-/

namespace DecisionCore.AuditTrail

variable {db : Database}

/-- A call of the protocol; an append comes with the identifier that is generated in it. -/
inductive Call where
  | append (eventId decisionId eventType : String) (payload : PyDict) (idempotencyKey : Option String)
  | readRange (decisionId : String) (sinceSeq : ℤ)
  | readUnbatched (limit : ℤ)
  | markBatched (eventIds : List String) (batchId : String)

inductive Reply where
  | appended (result : AppendResult)
  | events (records : List PyDict)
  | marked

/-- Both trails, after the same calls. -/
structure Adapters (db : Database) where
  memory : MemoryAuditTrail
  postgres : PostgresAuditTrail db

namespace Adapters

def empty (db : Database) : Adapters db := ⟨.empty, .empty db⟩

def callMemory (memory : MemoryAuditTrail) : Call → MemoryAuditTrail × Except PyError Reply
  | .append eventId decisionId eventType payload key =>
    let (memory, result) := memory.append eventId (.str decisionId) eventType payload key
    (memory, result.map .appended)
  | .readRange decisionId sinceSeq => (memory, .ok (.events (memory.readRange decisionId sinceSeq)))
  | .readUnbatched limit => (memory, (memory.readUnbatched limit).map .events)
  | .markBatched eventIds _ => (memory.markBatched eventIds, .ok .marked)

def callPostgres (postgres : PostgresAuditTrail db) : Call → PostgresAuditTrail db × Except PyError Reply
  | .append eventId decisionId eventType payload key =>
    let (postgres, result) := postgres.append eventId decisionId eventType payload key
    (postgres, .ok (.appended result))
  | .readRange decisionId sinceSeq => (postgres, (postgres.readRange decisionId sinceSeq).map .events)
  | .readUnbatched limit => (postgres, (postgres.readUnbatched limit).map .events)
  | .markBatched eventIds batchId =>
    let (postgres, result) := postgres.markBatched eventIds batchId
    (postgres, result.map fun _ ↦ .marked)

/-- A generated identifier is a UUID that has not occurred before. -/
def Drawn (adapters : Adapters db) : Call → Prop
  | .append eventId .. => db.uuid? eventId = some eventId ∧
    (∀ entry ∈ adapters.memory.events, entry.eventId ≠ eventId) ∧ eventId ∉ adapters.memory.batched
  | _ => True

instance (adapters : Adapters db) : (call : Call) → Decidable (adapters.Drawn call)
  | .append .. => inferInstanceAs (Decidable (_ ∧ _ ∧ _))
  | .readRange .. => isTrue trivial
  | .readUnbatched .. => isTrue trivial
  | .markBatched .. => isTrue trivial

def step (adapters : Adapters db) (call : Call) : Option (Adapters db) :=
  if adapters.Drawn call then some ⟨(callMemory adapters.memory call).1, (callPostgres adapters.postgres call).1⟩
  else none

end Adapters

namespace Adapters

/-! ## The table mirrors the memory -/

/-- Rows and entries correspond in order, and the same keys are known under the same identifiers. -/
structure Mirrors (adapters : Adapters db) : Prop where
  entries : adapters.postgres.rows.map Row.entry = adapters.memory.events
  existing : ∀ key, adapters.postgres.existing? key = adapters.memory.existing? key
  canonical : ∀ row ∈ adapters.postgres.rows, db.uuid? row.eventId = some row.eventId

/-- A row has a batch where the memory has marked its identifier. -/
def MarkedAlike (adapters : Adapters db) : Prop :=
  ∀ row ∈ adapters.postgres.rows, row.batchId.isSome = decide (row.eventId ∈ adapters.memory.batched)

theorem mirrors_empty (db : Database) : (empty db).Mirrors where
  entries := rfl
  existing key := by cases key <;> rfl
  canonical row hrow := by cases hrow

theorem markedAlike_empty (db : Database) : (empty db).MarkedAlike := fun row hrow ↦ by cases hrow

variable {adapters : Adapters db}

theorem Mirrors.eventId_ne (mirrors : adapters.Mirrors) {eventId : String}
    (h : ∀ entry ∈ adapters.memory.events, entry.eventId ≠ eventId) :
    ∀ row ∈ adapters.postgres.rows, row.eventId ≠ eventId := by
  intro row hrow
  apply h row.entry
  rw [← mirrors.entries]
  exact List.mem_map_of_mem hrow

/-! ### Appends -/

section Append

variable {eventId decisionId eventType : String} {payload : PyDict} {key : Option String}

/-- What an append does to both trails: nothing for a known key, and one more event otherwise. -/
theorem Mirrors.append_cases (mirrors : adapters.Mirrors)
    (drawn : adapters.Drawn (.append eventId decisionId eventType payload key)) :
    (∃ existing, adapters.memory.append eventId (.str decisionId) eventType payload key =
        (adapters.memory, .ok ⟨existing, true, some existing⟩) ∧
      (adapters.postgres.append eventId decisionId eventType payload key).1.rows = adapters.postgres.rows ∧
      (adapters.postgres.append eventId decisionId eventType payload key).2 = ⟨existing, true, some existing⟩) ∨
    adapters.memory.existing? key = none ∧
      adapters.memory.append eventId (.str decisionId) eventType payload key =
        ({ adapters.memory with
            events := adapters.memory.events ++ [⟨eventId, .str decisionId, eventType, payload, key⟩]
            idempotencyIndex := adapters.memory.indexWith key eventId }, .ok ⟨eventId, false, none⟩) ∧
      (adapters.postgres.append eventId decisionId eventType payload key).1.rows =
        adapters.postgres.rows ++ [adapters.postgres.newRow eventId decisionId eventType payload key] ∧
      (adapters.postgres.append eventId decisionId eventType payload key).2 = ⟨eventId, false, none⟩ := by
  cases hknown : adapters.memory.existing? key with
  | some existing =>
    obtain ⟨hrows, hresult⟩ := PostgresAuditTrail.append_of_existing ((mirrors.existing key).trans hknown) eventId
      decisionId eventType payload
    exact .inl ⟨existing, MemoryAuditTrail.append_of_existing hknown, hrows, hresult⟩
  | none =>
    obtain ⟨hrows, hresult⟩ := PostgresAuditTrail.append_of_fresh ((mirrors.existing key).trans hknown)
      (mirrors.eventId_ne drawn.2.1) decisionId eventType payload
    exact .inr ⟨rfl, MemoryAuditTrail.append_of_fresh hknown rfl, hrows, hresult⟩

end Append

/-! ### The simulation -/

section Simulation

variable {next : Adapters db}

theorem Mirrors.of_marked (mirrors : adapters.Mirrors) {ids : List String} {batchId : String}
    (hrows : next.postgres.rows = adapters.postgres.rows.map (Row.mark ids batchId))
    (hevents : next.memory.events = adapters.memory.events)
    (hindex : next.memory.idempotencyIndex = adapters.memory.idempotencyIndex) : next.Mirrors where
  entries := by
    rw [hrows, hevents, ← mirrors.entries, List.map_map]
    simp only [Function.comp_def, Row.mark_entry]
  existing key := by
    rw [PostgresAuditTrail.existing?_mark hrows, mirrors.existing, MemoryAuditTrail.existing?,
      MemoryAuditTrail.existing?, hindex]
  canonical := by
    rw [hrows]
    simpa only [List.forall_mem_map, Row.mark_eventId] using mirrors.canonical

theorem Mirrors.of_concat (mirrors : adapters.Mirrors) {row : Row}
    (hrows : next.postgres.rows = adapters.postgres.rows ++ [row])
    (hevents : next.memory.events = adapters.memory.events ++ [row.entry])
    (hindex : next.memory.idempotencyIndex = adapters.memory.indexWith row.idempotencyKey row.eventId)
    (hunknown : adapters.memory.existing? row.idempotencyKey = none)
    (hcanonical : db.uuid? row.eventId = some row.eventId) : next.Mirrors where
  entries := by rw [hrows, hevents, ← mirrors.entries, List.map_append, List.map_cons, List.map_nil]
  existing key := by
    cases key with
    | none => rfl
    | some key =>
      rw [PostgresAuditTrail.existing?_concat hrows, mirrors.existing]
      simp only [MemoryAuditTrail.existing?, Option.bind_some, hindex, MemoryAuditTrail.indexWith] at hunknown ⊢
      cases hkey : row.idempotencyKey with
      | none => simp
      | some known =>
        rw [hkey, Option.bind_some] at hunknown
        by_cases hsame : known = key
        · rw [hsame] at hunknown ⊢
          simp [hunknown]
        · simp [hsame]
  canonical := by
    rw [hrows, List.forall_mem_append, List.forall_mem_singleton]
    exact ⟨mirrors.canonical, hcanonical⟩

/-- Every call keeps the rows and the keys of the table in step with the memory. -/
theorem Mirrors.step (mirrors : adapters.Mirrors) {call : Call} (h : adapters.step call = some next) :
    next.Mirrors := by
  unfold Adapters.step at h
  split at h
  · rename_i drawn
    obtain rfl := Option.some.inj h
    cases call with
    | readRange decisionId sinceSeq => exact ⟨mirrors.entries, mirrors.existing, mirrors.canonical⟩
    | readUnbatched limit => exact ⟨mirrors.entries, mirrors.existing, mirrors.canonical⟩
    | markBatched eventIds batchId =>
      obtain ⟨ids, hrows⟩ := adapters.postgres.markBatched_rows eventIds batchId
      exact mirrors.of_marked hrows rfl rfl
    | append eventId decisionId eventType payload key =>
      obtain ⟨existing, hmemory, hrows, -⟩ | ⟨hunknown, hmemory, hrows, -⟩ := mirrors.append_cases drawn
      · have hsame : (callMemory adapters.memory (.append eventId decisionId eventType payload key)).1 =
            adapters.memory := by rw [callMemory, hmemory]
        have hmarked : (callPostgres adapters.postgres (.append eventId decisionId eventType payload key)).1.rows =
            adapters.postgres.rows.map (Row.mark [] "") := hrows.trans (Row.map_mark_nil _ _).symm
        refine mirrors.of_marked hmarked ?_ ?_
        · rw [hsame]
        · rw [hsame]
      · refine mirrors.of_concat hrows ?_ ?_ hunknown drawn.1
        · rw [callMemory, hmemory]
          rfl
        · rw [callMemory, hmemory]
          rfl
  · cases h

/-- All given texts are UUIDs, and a stored event that is named in any spelling is named in the canonical one. -/
def MarksAlike (adapters : Adapters db) (eventIds : List String) : Prop :=
  (∀ text ∈ eventIds, (db.uuid? text).isSome) ∧
    ∀ row ∈ adapters.postgres.rows, (∃ text ∈ eventIds, db.uuid? text = some row.eventId) → row.eventId ∈ eventIds

instance (eventIds : List String) : Decidable (adapters.MarksAlike eventIds) := inferInstanceAs (Decidable (_ ∧ _))

/-- The marks stay alike, as long as every `mark_batched` marks the same events in both. -/
theorem MarkedAlike.step (marked : adapters.MarkedAlike) (mirrors : adapters.Mirrors) {call : Call}
    (hcall : ∀ eventIds batchId, call = .markBatched eventIds batchId → adapters.MarksAlike eventIds)
    (h : adapters.step call = some next) : next.MarkedAlike := by
  unfold Adapters.step at h
  split at h
  · rename_i drawn
    obtain rfl := Option.some.inj h
    cases call with
    | readRange decisionId sinceSeq => exact marked
    | readUnbatched limit => exact marked
    | markBatched eventIds batchId =>
      obtain ⟨huuids, hnamed⟩ := hcall eventIds batchId rfl
      obtain ⟨ids, hids, hrows, -⟩ := adapters.postgres.markBatched_of_uuids huuids batchId
      intro row hrow
      obtain ⟨old, hold, rfl⟩ := List.mem_map.mp (hrows ▸ hrow)
      have hmem : old.eventId ∈ ids ↔ old.eventId ∈ eventIds := by
        rw [hids]
        exact ⟨hnamed old hold, fun h ↦ ⟨old.eventId, h, mirrors.canonical old hold⟩⟩
      have hold' := marked old hold
      simp only [callMemory, MemoryAuditTrail.markBatched, Row.mark_batchId_isSome, Row.mark_eventId, hold', hmem,
        Finset.mem_union, List.mem_toFinset, Bool.decide_or]
    | append eventId decisionId eventType payload key =>
      have hbatched : (callMemory adapters.memory (.append eventId decisionId eventType payload key)).1.batched =
          adapters.memory.batched := MemoryAuditTrail.append_batched
      unfold MarkedAlike
      rw [hbatched]
      obtain ⟨existing, -, hrows, -⟩ | ⟨-, -, hrows, -⟩ := mirrors.append_cases drawn
      · intro row hrow
        exact marked row (hrows ▸ hrow)
      · intro row hrow
        obtain hold | hnew := List.mem_append.mp (hrows ▸ hrow)
        · exact marked row hold
        · obtain rfl := List.mem_singleton.mp hnew
          have hfresh := drawn.2.2
          simp [PostgresAuditTrail.newRow, hfresh]
  · cases h

end Simulation

end Adapters

/-! ## Replies -/

/-- Records with the same keys and values. -/
def SameRecord (first second : PyDict) : Prop := ∀ key, first.get? key = second.get? key

/-- One payload over two envelopes gives the same record where the envelopes differ in keys of the payload only. -/
theorem sameRecord_update_iff {first second payload : PyDict} :
    SameRecord (first.update payload) (second.update payload) ↔
      ∀ key, payload.get? key = none → first.get? key = second.get? key := by
  unfold SameRecord
  apply forall_congr'
  intro key
  rw [Dict.get?_update, Dict.get?_update]
  cases payload.get? key <;> simp

theorem sameRecord_event_iff {row : Row} : SameRecord row.entry.record row.event ↔
    (row.payload.get? "event_id").isSome ∧ (row.payload.get? "decision_id").isSome := by
  rw [Entry.record, Row.event, Row.entry, sameRecord_update_iff]
  constructor
  · intro h
    constructor
    · by_contra hid
      simpa [Entry.envelope] using h "event_id" (Option.not_isSome_iff_eq_none.mp hid)
    · by_contra hdecision
      simpa [Entry.envelope] using h "decision_id" (Option.not_isSome_iff_eq_none.mp hdecision)
  · rintro ⟨hid, hdecision⟩ key hkey
    have hne : "event_id" ≠ key ∧ "decision_id" ≠ key := by
      refine ⟨?_, ?_⟩ <;> rintro rfl <;> simp [hkey] at *
    simp [Entry.envelope, hne]

theorem sameRecord_unbatchedEvent_iff {row : Row} : SameRecord row.entry.record row.unbatchedEvent ↔
    (row.payload.get? "decision_id").isSome := by
  rw [Entry.record, Row.unbatchedEvent, Row.entry, sameRecord_update_iff]
  constructor
  · intro h
    by_contra hdecision
    simpa [Entry.envelope] using h "decision_id" (Option.not_isSome_iff_eq_none.mp hdecision)
  · intro hdecision key hkey
    have hne : "decision_id" ≠ key := by
      rintro rfl
      simp [hkey] at hdecision
    simp [Entry.envelope, hne]

def Reply.Agree : Reply → Reply → Prop
  | .appended first, .appended second => first = second
  | .events first, .events second => List.Forall₂ SameRecord first second
  | .marked, .marked => True
  | _, _ => False

/-- Both calls return the same, or both raise. -/
def Agree : Except PyError Reply → Except PyError Reply → Prop
  | .ok first, .ok second => first.Agree second
  | .error _, .error _ => True
  | _, _ => False

namespace Adapters

variable {adapters : Adapters db}

/-- The two answers to a call. -/
def Answers (adapters : Adapters db) (call : Call) : Prop :=
  Agree (callMemory adapters.memory call).2 (callPostgres adapters.postgres call).2

theorem append_answers (mirrors : adapters.Mirrors) {eventId decisionId eventType : String} {payload : PyDict}
    {key : Option String} (drawn : adapters.Drawn (.append eventId decisionId eventType payload key)) :
    adapters.Answers (.append eventId decisionId eventType payload key) := by
  obtain ⟨existing, hmemory, -, hresult⟩ | ⟨-, hmemory, -, hresult⟩ := mirrors.append_cases drawn
  · simp only [Answers, callMemory, callPostgres, hmemory, hresult]
    rfl
  · simp only [Answers, callMemory, callPostgres, hmemory, hresult]
    rfl

theorem markBatched_answers {eventIds : List String} (h : adapters.MarksAlike eventIds) (batchId : String) :
    adapters.Answers (.markBatched eventIds batchId) := by
  obtain ⟨ids, -, -, hresult⟩ := adapters.postgres.markBatched_of_uuids h.1 batchId
  simp only [Answers, callMemory, callPostgres, hresult]
  trivial

/-! ### Reading a decision -/

theorem Mirrors.entriesOf (mirrors : adapters.Mirrors) (decisionId : String) :
    (adapters.postgres.rowsOf decisionId).map Row.entry = adapters.memory.entriesOf decisionId := by
  rw [MemoryAuditTrail.entriesOf, ← mirrors.entries, List.filter_map]
  simp [PostgresAuditTrail.rowsOf, Function.comp_def, Json.isStr]

/-- A filter that keeps everything behind what it keeps drops the items before. -/
theorem filter_eq_drop {α : Type} {items : List α} {p : α → Bool} (h : items.Pairwise fun a b ↦ p a → p b) :
    items.filter p = items.drop (items.countP fun item ↦ !p item) := by
  induction items with
  | nil => rfl
  | cons item rest ih =>
    obtain ⟨hitem, hrest⟩ := List.pairwise_cons.mp h
    cases hp : p item with
    | true =>
      have hall : ∀ other ∈ rest, p other = true := fun other hother ↦ hitem other hother hp
      have hcount : rest.countP (fun item ↦ !p item) = 0 := by
        rw [List.countP_eq_zero]
        intro other hother
        simp [hall other hother]
      rw [List.filter_cons_of_pos hp, List.countP_cons, hcount, List.filter_eq_self.mpr hall]
      simp [hp]
    | false =>
      rw [List.filter_cons_of_neg (by simp [hp]), List.countP_cons_of_pos (by simp [hp]), List.drop_succ_cons,
        ih hrest]

/-- The number of items that `items[start:]` leaves out. -/
def leftOut (start : ℤ) (length : ℕ) : ℕ :=
  min (if start < 0 then (length + start).toNat else start.toNat) length

theorem sliceFrom_eq_drop {α : Type} (start : ℤ) (items : List α) :
    sliceFrom start items = items.drop (leftOut start items.length) := by
  rw [sliceFrom, leftOut]
  generalize (if start < 0 then (items.length + start).toNat else start.toNat) = n
  obtain h | h := le_total n items.length
  · rw [min_eq_left h]
  · rw [min_eq_right h, List.drop_length, List.drop_eq_nil_of_le h]

/-- Both slices begin at the same event, and every event in them has its own event id and its own decision id in its
payload. -/
def RangeAlike (adapters : Adapters db) (decisionId : String) (sinceSeq : ℤ) : Prop :=
  PostgresAuditTrail.IsInt8 sinceSeq ∧
    leftOut sinceSeq (adapters.postgres.rowsOf decisionId).length =
      (adapters.postgres.rowsOf decisionId).countP (fun row ↦ row.seq ≤ sinceSeq) ∧
    ∀ row ∈ adapters.postgres.rowsOf decisionId, sinceSeq < row.seq →
      (row.payload.get? "event_id").isSome ∧ (row.payload.get? "decision_id").isSome

theorem memory_readRange (mirrors : adapters.Mirrors) (decisionId : String) (sinceSeq : ℤ) :
    adapters.memory.readRange decisionId sinceSeq =
      ((adapters.postgres.rowsOf decisionId).drop
        (leftOut sinceSeq (adapters.postgres.rowsOf decisionId).length)).map fun row ↦ row.entry.record := by
  rw [MemoryAuditTrail.readRange, ← mirrors.entriesOf, sliceFrom_eq_drop, List.map_map, List.length_map, List.map_drop]
  rfl

/-- The sequence numbers grow, so the filter on them leaves out the first rows of the decision. -/
theorem rows_behind (decisionId : String) (sinceSeq : ℤ) :
    ((adapters.postgres.rowsOf decisionId).filter fun row ↦ sinceSeq < row.seq) =
      (adapters.postgres.rowsOf decisionId).drop
        ((adapters.postgres.rowsOf decisionId).countP fun row ↦ row.seq ≤ sinceSeq) := by
  have hsorted : (adapters.postgres.rowsOf decisionId).Pairwise fun first second ↦
      decide (sinceSeq < first.seq) → decide (sinceSeq < second.seq) := by
    refine (adapters.postgres.sorted.filter _).imp fun hlt hfirst ↦ ?_
    rw [decide_eq_true_eq] at hfirst ⊢
    omega
  have hcount : (fun row : Row ↦ !decide (sinceSeq < row.seq)) = fun row ↦ decide (row.seq ≤ sinceSeq) := by
    funext row
    rw [← decide_not, decide_eq_decide, not_lt]
  rw [filter_eq_drop hsorted, hcount]

instance (decisionId : String) (sinceSeq : ℤ) : Decidable (adapters.RangeAlike decisionId sinceSeq) :=
  inferInstanceAs (Decidable (_ ∧ _ ∧ _))

/-- `read_range` answers alike if and only if the slices begin at the same event, where the payloads have what the
table leaves out. -/
theorem readRange_answers_iff (mirrors : adapters.Mirrors) (decisionId : String) (sinceSeq : ℤ) :
    adapters.Answers (.readRange decisionId sinceSeq) ↔ adapters.RangeAlike decisionId sinceSeq := by
  unfold RangeAlike
  by_cases hint : PostgresAuditTrail.IsInt8 sinceSeq
  · have hanswers : adapters.Answers (.readRange decisionId sinceSeq) ↔ List.Forall₂ SameRecord
        (adapters.memory.readRange decisionId sinceSeq)
        (((adapters.postgres.rowsOf decisionId).filter fun row ↦ sinceSeq < row.seq).map Row.event) := by
      simp only [Answers, callMemory, callPostgres, adapters.postgres.readRange_of_int8 decisionId hint]
      rfl
    rw [hanswers, memory_readRange mirrors, rows_behind, List.forall₂_map_left_iff, List.forall₂_map_right_iff]
    simp only [hint, true_and]
    have hbehind (row : Row) : row ∈ (adapters.postgres.rowsOf decisionId).drop
        ((adapters.postgres.rowsOf decisionId).countP fun row ↦ row.seq ≤ sinceSeq) ↔
          row ∈ adapters.postgres.rowsOf decisionId ∧ sinceSeq < row.seq := by
      rw [← rows_behind, List.mem_filter, decide_eq_true_eq]
    generalize adapters.postgres.rowsOf decisionId = rows at hbehind ⊢
    have hleft : leftOut sinceSeq rows.length ≤ rows.length := min_le_right _ _
    have hcount : (rows.countP fun row ↦ row.seq ≤ sinceSeq) ≤ rows.length := List.countP_le_length
    constructor
    · intro h
      have hlength := h.length_eq
      rw [List.length_drop, List.length_drop] at hlength
      have hsame : leftOut sinceSeq rows.length = rows.countP fun row ↦ row.seq ≤ sinceSeq := by omega
      rw [hsame, List.forall₂_same] at h
      refine ⟨hsame, fun row hrow hafter ↦ ?_⟩
      exact sameRecord_event_iff.mp (h row ((hbehind row).mpr ⟨hrow, hafter⟩))
    · rintro ⟨hsame, hown⟩
      rw [hsame, List.forall₂_same]
      intro row hrow
      obtain ⟨hmem, hafter⟩ := (hbehind row).mp hrow
      exact sameRecord_event_iff.mpr (hown row hmem hafter)
  · have hmemory : (callMemory adapters.memory (.readRange decisionId sinceSeq)).2 =
        .ok (.events (adapters.memory.readRange decisionId sinceSeq)) := rfl
    simp only [Answers, callPostgres, PostgresAuditTrail.readRange, hint, if_false, hmemory, false_and]
    exact iff_of_false id id

/-! ### Reading the commits without a batch -/

/-- The payload of the event overrides neither what decides whether the event is marked nor what decides whether it
is a commit. -/
structure Plain (batched : Finset String) (row : Row) : Prop where
  eventId : ∀ value ∈ row.payload.get? "event_id",
    value.hashable ∧ ((∃ text ∈ batched, value = .str text) ↔ row.eventId ∈ batched)
  eventType : ∀ value ∈ row.payload.get? "event_type",
    (value = .str "MetricCommitted" ↔ row.eventType = "MetricCommitted")

instance (batched : Finset String) (row : Row) : Decidable (Plain batched row) :=
  decidable_of_iff (_ ∧ _) ⟨fun h ↦ ⟨h.1, h.2⟩, fun h ↦ ⟨h.eventId, h.eventType⟩⟩

theorem Plain.isUnbatched {batched : Finset String} {row : Row} (plain : Plain batched row) :
    MemoryAuditTrail.isUnbatched batched row.entry.record = .ok (row.entry.isOpen batched) := by
  have htype : row.entry.record.hasType "MetricCommitted" = decide (row.eventType = "MetricCommitted") := by
    rw [Bool.eq_iff_iff, PyDict.hasType_iff, decide_eq_true_eq, Entry.record_get?]
    cases hown : row.entry.payload.get? "event_type" with
    | none => simp [Entry.envelope]
    | some value => simpa using plain.eventType value hown
  have hid : row.entry.record.get? "event_id" =
      (row.payload.get? "event_id").or (some (.str row.eventId)) := by
    rw [Entry.record_get?]
    simp [Entry.envelope]
  have hopen : row.entry.isOpen batched =
      (decide (row.eventType = "MetricCommitted") && decide (row.eventId ∉ batched)) := rfl
  unfold MemoryAuditTrail.isUnbatched
  rw [hid, htype, hopen, Bool.and_comm]
  cases hown : row.payload.get? "event_id" with
  | none => rfl
  | some value =>
    obtain ⟨hash, hmem⟩ := plain.eventId value hown
    cases value with
    | str text =>
      have hsame : text ∈ batched ↔ row.eventId ∈ batched := by simpa using hmem
      simp [hsame]
    | list items => cases hash
    | dict fields => cases hash
    | _ =>
      have hopen : row.eventId ∉ batched := by simpa using hmem
      simp [hopen, Json.hashable]

/-- The limit is one of the database, no payload overrides the selection, and every commit that is returned has its own
decision id in its payload. -/
structure UnbatchedAlike (adapters : Adapters db) (limit : ℤ) : Prop where
  int8 : PostgresAuditTrail.IsInt8 limit
  nonneg : 0 ≤ limit
  plain : ∀ row ∈ adapters.postgres.rows, Plain adapters.memory.batched row
  own : ∀ row ∈ (adapters.postgres.rows.filter Row.isUnbatched).take limit.toNat,
    (row.payload.get? "decision_id").isSome

instance (limit : ℤ) : Decidable (adapters.UnbatchedAlike limit) :=
  decidable_of_iff (_ ∧ _ ∧ _ ∧ _) ⟨fun h ↦ ⟨h.1, h.2.1, h.2.2.1, h.2.2.2⟩, fun h ↦ ⟨h.int8, h.nonneg, h.plain, h.own⟩⟩

theorem MarkedAlike.isOpen (marked : adapters.MarkedAlike) {row : Row} (hrow : row ∈ adapters.postgres.rows) :
    row.entry.isOpen adapters.memory.batched = row.isUnbatched := by
  have hbatch := marked row hrow
  rw [Entry.isOpen, Row.isUnbatched, Bool.and_comm, ← Option.not_isSome, hbatch, decide_not]
  rfl

theorem memory_readUnbatched (mirrors : adapters.Mirrors) (marked : adapters.MarkedAlike) {limit : ℤ}
    (hlimit : 0 ≤ limit) (plain : ∀ row ∈ adapters.postgres.rows, Plain adapters.memory.batched row) :
    adapters.memory.readUnbatched limit =
      .ok (((adapters.postgres.rows.filter Row.isUnbatched).take limit.toNat).map fun row ↦ row.entry.record) := by
  have hselects : ∀ entry ∈ adapters.memory.events,
      MemoryAuditTrail.isUnbatched adapters.memory.batched entry.record =
        .ok (entry.isOpen adapters.memory.batched) := by
    rw [← mirrors.entries, List.forall_mem_map]
    exact fun row hrow ↦ (plain row hrow).isUnbatched
  have hopen : (adapters.postgres.rows.filter fun row ↦ row.entry.isOpen adapters.memory.batched) =
      adapters.postgres.rows.filter Row.isUnbatched := List.filter_congr fun row hrow ↦ marked.isOpen hrow
  rw [MemoryAuditTrail.readUnbatched, MemoryAuditTrail.collectUnbatched_eq hselects, ← mirrors.entries,
    List.filter_map, Function.comp_def, hopen, List.map_map]
  simp only [Except.map, sliceTo, hlimit.not_gt, if_false, List.map_take]
  rfl

theorem readUnbatched_answers (mirrors : adapters.Mirrors) (marked : adapters.MarkedAlike) {limit : ℤ}
    (h : adapters.UnbatchedAlike limit) : adapters.Answers (.readUnbatched limit) := by
  have hpostgres : adapters.postgres.readUnbatched limit =
      .ok (((adapters.postgres.rows.filter Row.isUnbatched).take limit.toNat).map Row.unbatchedEvent) := by
    rw [PostgresAuditTrail.readUnbatched, if_pos ⟨h.int8, h.nonneg⟩, PostgresAuditTrail.orderBySeq_filter]
  have hrecords : List.Forall₂ SameRecord
      (((adapters.postgres.rows.filter Row.isUnbatched).take limit.toNat).map fun row ↦ row.entry.record)
      (((adapters.postgres.rows.filter Row.isUnbatched).take limit.toNat).map Row.unbatchedEvent) := by
    rw [List.forall₂_map_left_iff, List.forall₂_map_right_iff, List.forall₂_same]
    exact fun row hrow ↦ sameRecord_unbatchedEvent_iff.mpr (h.own row hrow)
  simp only [Answers, callMemory, callPostgres, memory_readUnbatched mirrors marked h.nonneg h.plain, hpostgres]
  exact hrecords

/-! ## Runs -/

/-- The call is one to which the two trails answer alike and behind which they go on to. -/
def Conforms (adapters : Adapters db) : Call → Prop
  | .append .. => True
  | .readRange decisionId sinceSeq => adapters.RangeAlike decisionId sinceSeq
  | .readUnbatched limit => adapters.UnbatchedAlike limit
  | .markBatched eventIds _ => adapters.MarksAlike eventIds

instance (adapters : Adapters db) : (call : Call) → Decidable (adapters.Conforms call)
  | .append .. => isTrue trivial
  | .readRange decisionId sinceSeq => inferInstanceAs (Decidable (adapters.RangeAlike decisionId sinceSeq))
  | .readUnbatched limit => inferInstanceAs (Decidable (adapters.UnbatchedAlike limit))
  | .markBatched eventIds _ => inferInstanceAs (Decidable (adapters.MarksAlike eventIds))

theorem drawn_of_step {call : Call} {next : Adapters db} (h : adapters.step call = some next) :
    adapters.Drawn call := by
  unfold Adapters.step at h
  split at h
  · assumption
  · cases h

theorem Conforms.answers {call : Call} {next : Adapters db} (h : adapters.Conforms call) (mirrors : adapters.Mirrors)
    (marked : adapters.MarkedAlike) (hstep : adapters.step call = some next) : adapters.Answers call := by
  cases call with
  | append eventId decisionId eventType payload key => exact append_answers mirrors (drawn_of_step hstep)
  | readRange decisionId sinceSeq => exact (readRange_answers_iff mirrors decisionId sinceSeq).mpr h
  | readUnbatched limit => exact readUnbatched_answers mirrors marked h
  | markBatched eventIds batchId => exact markBatched_answers h batchId

theorem mirrors_of_run {trace : List (Adapters db × Call)} {last : Adapters db}
    (run : Run step (empty db) trace last) : last.Mirrors :=
  run.invariant along_true (mirrors_empty db) fun _ _ _ hstep mirrors ↦ mirrors.step hstep

theorem markedAlike_of_run {trace : List (Adapters db × Call)} {last : Adapters db}
    (run : Run step (empty db) trace last) (along : Along Conforms trace) : last.MarkedAlike := by
  refine run.invariant along (markedAlike_empty db) fun hrun _ hallowed hstep marked ↦ ?_
  refine marked.step (mirrors_of_run hrun) ?_ hstep
  rintro eventIds batchId rfl
  exact hallowed

/-- A database that counts its inserts from one and takes texts of the canonical length for UUIDs. -/
def sampleDatabase : Database where
  seq n := n + 1
  seq_pos := Nat.succ_pos
  seq_strictMono _ _ h := Nat.succ_lt_succ h
  uuid? text := if text.toList.length = 36 then some text else none

def sampleId : String := "11111111-2222-4333-8444-555555555555"

/-- A commit whose payload has an event id and a decision id of its own, a second one under the same key, and reads of
both kinds. -/
def conformingCalls : List Call :=
  [.append sampleId "d1" "MetricCommitted" ⟨[("event_id", .str "e1"), ("decision_id", .str "d1")]⟩ (some "k1"),
    .append "99999999-2222-4333-8444-555555555555" "d1" "MetricCommitted" .empty (some "k1"),
    .readRange "d1" 0, .readUnbatched 10, .markBatched [sampleId] "b1"]

/-- An append without an event id of its own. -/
def plainAppend : Call := .append sampleId "d1" "MetricProposed" .empty none

end Adapters

end DecisionCore.AuditTrail
