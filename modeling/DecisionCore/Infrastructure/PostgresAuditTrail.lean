import DecisionCore.Infrastructure.AuditTrail
import Mathlib.Data.List.Sort

/-!
# The Postgres audit trail

The table of the adapter and its four statements.  Texts and payloads are stored as they are given; the values of
the `seq` column and the reading of a text as a UUID are those of the database.
-/

namespace DecisionCore

/-- What the database provides. -/
structure Database where
  /-- The values of the `seq` sequence, in the order of the inserts that draw them. -/
  seq : ℕ → ℕ
  seq_pos : ∀ n, 0 < seq n
  seq_strictMono : StrictMono seq
  /-- The UUID that a text stands for, in its canonical spelling; none where the text is no UUID. -/
  uuid? : String → Option String

/-- A row of `audit_events`. -/
structure Row where
  eventId : String
  decisionId : String
  eventType : String
  payload : PyDict
  idempotencyKey : Option String
  seq : ℕ
  batchId : Option String

namespace Row

/-- Two rows violate the primary key, or the unique key where neither is null. -/
def Clashes (first second : Row) : Prop :=
  first.eventId = second.eventId ∨ (first.idempotencyKey.isSome ∧ first.idempotencyKey = second.idempotencyKey)

instance (first second : Row) : Decidable (first.Clashes second) := inferInstanceAs (Decidable (_ ∨ _))

/-- `{"event_type": …, **payload}`. -/
def event (row : Row) : PyDict := (⟨[("event_type", .str row.eventType)]⟩ : PyDict).update row.payload

/-- `{"event_id": …, "event_type": …, **payload}`. -/
def unbatchedEvent (row : Row) : PyDict :=
  (⟨[("event_id", .str row.eventId), ("event_type", .str row.eventType)]⟩ : PyDict).update row.payload

/-- The selection of `read_unbatched`. -/
def isUnbatched (row : Row) : Bool := row.batchId.isNone && decide (row.eventType = "MetricCommitted")

/-- The arguments of the append that has stored the row. -/
def entry (row : Row) : Entry := ⟨row.eventId, .str row.decisionId, row.eventType, row.payload, row.idempotencyKey⟩

section Entry

variable (row : Row)

@[simp] theorem entry_eventId : row.entry.eventId = row.eventId := rfl

@[simp] theorem entry_decisionId : row.entry.decisionId = .str row.decisionId := rfl

@[simp] theorem entry_eventType : row.entry.eventType = row.eventType := rfl

@[simp] theorem entry_payload : row.entry.payload = row.payload := rfl

end Entry

/-- What the update of `mark_batched` does with a row. -/
def mark (ids : List String) (batchId : String) (row : Row) : Row :=
  if row.eventId ∈ ids then { row with batchId := some batchId } else row

section Mark

variable (ids : List String) (batchId : String) (row : Row)

@[simp] theorem mark_eventId : (row.mark ids batchId).eventId = row.eventId := by unfold mark; split <;> rfl

@[simp] theorem mark_decisionId : (row.mark ids batchId).decisionId = row.decisionId := by unfold mark; split <;> rfl

@[simp] theorem mark_eventType : (row.mark ids batchId).eventType = row.eventType := by unfold mark; split <;> rfl

@[simp] theorem mark_payload : (row.mark ids batchId).payload = row.payload := by unfold mark; split <;> rfl

@[simp] theorem mark_idempotencyKey : (row.mark ids batchId).idempotencyKey = row.idempotencyKey := by
  unfold mark
  split <;> rfl

@[simp] theorem mark_entry : (row.mark ids batchId).entry = row.entry := by simp [entry]

@[simp] theorem mark_seq : (row.mark ids batchId).seq = row.seq := by unfold mark; split <;> rfl

@[simp] theorem mark_batchId_isSome :
    (row.mark ids batchId).batchId.isSome = (row.batchId.isSome || decide (row.eventId ∈ ids)) := by
  unfold mark
  split <;> simp_all

end Mark

@[simp] theorem map_mark_nil (batchId : String) (rows : List Row) : rows.map (mark [] batchId) = rows := by
  have hsame : mark [] batchId = id := by
    funext row
    simp [mark]
  rw [hsame, List.map_id]

end Row

/-- `ORDER BY seq ASC`. -/
def orderBySeq (rows : List Row) : List Row := rows.insertionSort (·.seq ≤ ·.seq)

/-- The table; its rows stand in the order of their inserts. -/
structure PostgresAuditTrail (db : Database) where
  rows : List Row
  inserts : ℕ
  sorted : rows.Pairwise (·.seq < ·.seq)
  drawn : ∀ row ∈ rows, row.seq < db.seq inserts
  unique : rows.Pairwise fun first second ↦ ¬ first.Clashes second

namespace PostgresAuditTrail

variable {db : Database}

def empty (db : Database) : PostgresAuditTrail db := ⟨[], 0, .nil, by simp, .nil⟩

/-- `SELECT event_id … WHERE idempotency_key = $1`, where nothing equals null. -/
def existing? (trail : PostgresAuditTrail db) (key : Option String) : Option String :=
  key.bind fun key ↦ (trail.rows.find? fun row ↦ row.idempotencyKey = some key).map Row.eventId

/-- The row that an insert brings. -/
def newRow (trail : PostgresAuditTrail db) (eventId decisionId eventType : String) (payload : PyDict)
    (key : Option String) : Row :=
  ⟨eventId, decisionId, eventType, payload, key, db.seq trail.inserts, none⟩

theorem drawn_succ (trail : PostgresAuditTrail db) : ∀ row ∈ trail.rows, row.seq < db.seq (trail.inserts + 1) :=
  fun row hrow ↦ (trail.drawn row hrow).trans (db.seq_strictMono (Nat.lt_succ_self _))

/-- The table with one more row. -/
def insert (trail : PostgresAuditTrail db) (row : Row) (hseq : row.seq = db.seq trail.inserts)
    (hunique : ∀ other ∈ trail.rows, ¬ other.Clashes row) : PostgresAuditTrail db where
  rows := trail.rows ++ [row]
  inserts := trail.inserts + 1
  sorted := by
    refine List.pairwise_append.mpr ⟨trail.sorted, List.pairwise_singleton _ _, ?_⟩
    intro other hother last hlast
    obtain rfl := List.mem_singleton.mp hlast
    rw [hseq]
    exact trail.drawn other hother
  drawn := by
    intro other hother
    obtain hold | hnew := List.mem_append.mp hother
    · exact trail.drawn_succ other hold
    · obtain rfl := List.mem_singleton.mp hnew
      rw [hseq]
      exact db.seq_strictMono (Nat.lt_succ_self _)
  unique := by
    refine List.pairwise_append.mpr ⟨trail.unique, List.pairwise_singleton _ _, ?_⟩
    intro other hother last hlast
    obtain rfl := List.mem_singleton.mp hlast
    exact hunique other hother

/-- `append` with the identifier it draws.  An insert that violates a constraint stores nothing, but has drawn from
the sequence. -/
def append (trail : PostgresAuditTrail db) (eventId decisionId eventType : String) (payload : PyDict)
    (key : Option String) : PostgresAuditTrail db × AppendResult :=
  let row := trail.newRow eventId decisionId eventType payload key
  if h : ∀ other ∈ trail.rows, ¬ other.Clashes row then (trail.insert row rfl h, ⟨eventId, false, none⟩)
  else
    let existing := (trail.existing? key).getD "None"
    ({ trail with inserts := trail.inserts + 1, drawn := trail.drawn_succ }, ⟨existing, true, some existing⟩)

theorem existing?_mark {first second : PostgresAuditTrail db} {ids : List String} {batchId : String}
    (h : second.rows = first.rows.map (Row.mark ids batchId)) (key : Option String) :
    second.existing? key = first.existing? key := by
  cases key with
  | none => rfl
  | some key =>
    simp only [existing?, Option.bind_some, h, List.find?_map, Option.map_map, Function.comp_def,
      Row.mark_idempotencyKey, Row.mark_eventId]

theorem existing?_concat {first second : PostgresAuditTrail db} {row : Row} (h : second.rows = first.rows ++ [row])
    (key : String) : second.existing? (some key) =
      (first.existing? (some key)).or (if row.idempotencyKey = some key then some row.eventId else none) := by
  simp only [existing?, Option.bind_some, h, List.find?_append, Option.map_or]
  congr 1
  by_cases hkey : row.idempotencyKey = some key <;> simp [hkey]

theorem existing?_eq_none {trail : PostgresAuditTrail db} {key : Option String} :
    trail.existing? key = none ↔ ∀ row ∈ trail.rows, ¬ (row.idempotencyKey.isSome ∧ row.idempotencyKey = key) := by
  cases key with
  | none =>
    refine iff_of_true rfl fun row _ ⟨hsome, hnone⟩ ↦ ?_
    rw [hnone] at hsome
    cases hsome
  | some key =>
    simp only [existing?, Option.bind_some, Option.map_eq_none_iff, List.find?_eq_none, decide_eq_true_eq]
    constructor
    · intro h row hrow hkey
      exact h row hrow hkey.2
    · intro h row hrow hkey
      exact h row hrow ⟨by rw [hkey]; rfl, hkey⟩

/-- A known key stores no row. -/
theorem append_of_existing {trail : PostgresAuditTrail db} {key : Option String} {existing : String}
    (h : trail.existing? key = some existing) (eventId decisionId eventType : String) (payload : PyDict) :
    (trail.append eventId decisionId eventType payload key).1.rows = trail.rows ∧
      (trail.append eventId decisionId eventType payload key).2 = ⟨existing, true, some existing⟩ := by
  have hclash : ¬ ∀ other ∈ trail.rows, ¬ other.Clashes (trail.newRow eventId decisionId eventType payload key) := by
    intro hnone
    have hunknown : trail.existing? key = none :=
      existing?_eq_none.mpr fun row hrow hkey ↦ hnone row hrow (.inr hkey)
    rw [hunknown] at h
    cases h
  rw [append, dif_neg hclash, h]
  exact ⟨rfl, rfl⟩

/-- A new identifier with an unknown key, or without one, becomes the last row. -/
theorem append_of_fresh {trail : PostgresAuditTrail db} {key : Option String} {eventId : String}
    (h : trail.existing? key = none) (hid : ∀ row ∈ trail.rows, row.eventId ≠ eventId) (decisionId eventType : String)
    (payload : PyDict) :
    (trail.append eventId decisionId eventType payload key).1.rows =
        trail.rows ++ [trail.newRow eventId decisionId eventType payload key] ∧
      (trail.append eventId decisionId eventType payload key).2 = ⟨eventId, false, none⟩ := by
  have hunique : ∀ other ∈ trail.rows, ¬ other.Clashes (trail.newRow eventId decisionId eventType payload key) := by
    rintro other hother (hsame | hkey)
    · exact hid other hother hsame
    · exact existing?_eq_none.mp h other hother hkey
  rw [append, dif_pos hunique]
  exact ⟨rfl, rfl⟩

/-- The rows of a decision. -/
def rowsOf (trail : PostgresAuditTrail db) (decisionId : String) : List Row :=
  trail.rows.filter fun row ↦ row.decisionId = decisionId

/-- The driver encodes an argument as `int8`. -/
def IsInt8 (n : ℤ) : Prop := -2 ^ 63 ≤ n ∧ n < 2 ^ 63

instance (n : ℤ) : Decidable (IsInt8 n) := inferInstanceAs (Decidable (_ ∧ _))

theorem orderBySeq_filter (trail : PostgresAuditTrail db) (p : Row → Bool) :
    orderBySeq (trail.rows.filter p) = trail.rows.filter p := by
  apply List.Pairwise.insertionSort_eq
  exact (trail.sorted.filter p).imp le_of_lt

/-- `read_range(decision_id, since_seq)`. -/
def readRange (trail : PostgresAuditTrail db) (decisionId : String) (sinceSeq : ℤ) : Except PyError (List PyDict) :=
  if IsInt8 sinceSeq then
    .ok ((orderBySeq ((trail.rowsOf decisionId).filter fun row ↦ sinceSeq < row.seq)).map Row.event)
  else .error .external

theorem readRange_of_int8 (trail : PostgresAuditTrail db) (decisionId : String) {sinceSeq : ℤ} (h : IsInt8 sinceSeq) :
    trail.readRange decisionId sinceSeq =
      .ok (((trail.rowsOf decisionId).filter fun row ↦ sinceSeq < row.seq).map Row.event) := by
  rw [readRange, if_pos h, rowsOf, List.filter_filter, orderBySeq_filter]

/-- `read_unbatched(limit)`; a negative limit is an error of the database. -/
def readUnbatched (trail : PostgresAuditTrail db) (limit : ℤ) : Except PyError (List PyDict) :=
  if IsInt8 limit ∧ 0 ≤ limit then
    .ok (((orderBySeq (trail.rows.filter Row.isUnbatched)).take limit.toNat).map Row.unbatchedEvent)
  else .error .external

/-- `mark_batched(event_ids, batch_id)`; a text that is no UUID is an error of the driver. -/
def markBatched (trail : PostgresAuditTrail db) (eventIds : List String) (batchId : String) :
    PostgresAuditTrail db × Except PyError Unit :=
  match eventIds.mapM db.uuid? with
  | none => (trail, .error .external)
  | some ids =>
    ({ trail with
        rows := trail.rows.map (Row.mark ids batchId)
        sorted := by simpa only [List.pairwise_map, Row.mark_seq] using trail.sorted
        drawn := by simpa only [List.forall_mem_map, Row.mark_seq] using trail.drawn
        unique := by
          simpa only [List.pairwise_map, Row.Clashes, Row.mark_eventId, Row.mark_idempotencyKey] using trail.unique },
      .ok ())

/-- When all texts are UUIDs, the rows named by one of them are marked. -/
theorem markBatched_of_uuids (trail : PostgresAuditTrail db) {eventIds : List String}
    (h : ∀ text ∈ eventIds, (db.uuid? text).isSome) (batchId : String) : ∃ ids : List String,
      (∀ id, id ∈ ids ↔ ∃ text ∈ eventIds, db.uuid? text = some id) ∧
      (trail.markBatched eventIds batchId).1.rows = trail.rows.map (Row.mark ids batchId) ∧
      (trail.markBatched eventIds batchId).2 = .ok () := by
  have hids : ∃ ids, eventIds.mapM db.uuid? = some ids ∧
      ∀ id, id ∈ ids ↔ ∃ text ∈ eventIds, db.uuid? text = some id := by
    induction eventIds with
    | nil => exact ⟨[], rfl, by simp⟩
    | cons text rest ih =>
      obtain ⟨htext, hrest⟩ := List.forall_mem_cons.mp h
      obtain ⟨id, hid⟩ := Option.isSome_iff_exists.mp htext
      obtain ⟨ids, hids, hmem⟩ := ih hrest
      refine ⟨id :: ids, by simp [List.mapM_cons, hid, hids], ?_⟩
      intro other
      rw [List.mem_cons, List.exists_mem_cons_iff, hmem, hid, Option.some.injEq, eq_comm]
  obtain ⟨ids, hids, hmem⟩ := hids
  refine ⟨ids, hmem, ?_⟩
  rw [markBatched, hids]
  exact ⟨rfl, rfl⟩

/-- Marking changes nothing but the batches. -/
theorem markBatched_rows (trail : PostgresAuditTrail db) (eventIds : List String) (batchId : String) :
    ∃ ids, (trail.markBatched eventIds batchId).1.rows = trail.rows.map (Row.mark ids batchId) := by
  unfold markBatched
  split
  · exact ⟨[], (Row.map_mark_nil batchId _).symm⟩
  · exact ⟨_, rfl⟩

end PostgresAuditTrail

end DecisionCore
