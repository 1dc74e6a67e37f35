import Mathlib.Data.Finset.Basic
import DecisionCore.Domain.Models

/-!
# The in-memory audit trail

An entry keeps the arguments of the append that created it; the record a reader sees is the
envelope of the entry overlaid with the payload, whose keys win.  The per-decision lists of the
adapter are the subsequences of the global list with that decision id, so only the global list is
kept.
-/

namespace DecisionCore

/-- The arguments of one append that was stored. -/
structure Entry where
  eventId : String
  decisionId : Json
  eventType : String
  payload : PyDict
  idempotencyKey : Option String

namespace Entry

def envelope (entry : Entry) : PyDict :=
  ⟨[("event_id", .str entry.eventId), ("event_type", .str entry.eventType),
    ("decision_id", entry.decisionId)]⟩

/-- `{"event_id": …, "event_type": …, "decision_id": …, **payload}`. -/
def record (entry : Entry) : PyDict := entry.envelope.update entry.payload

end Entry

/-- The record carries the given event type. -/
def PyDict.hasType (record : PyDict) (eventType : String) : Bool :=
  match record.get? "event_type" with
  | some value => value.isStr eventType
  | none => false

theorem PyDict.hasType_iff {record : PyDict} {eventType : String} :
    record.hasType eventType = true ↔ record.get? "event_type" = some (.str eventType) := by
  unfold PyDict.hasType
  cases record.get? "event_type" <;> simp

namespace Entry

theorem record_get? (entry : Entry) (key : String) :
    entry.record.get? key = (entry.payload.get? key).or (entry.envelope.get? key) := by
  simp [Entry.record]

/-- Beside the keys of the envelope a record has those of the payload. -/
theorem record_get?_own (entry : Entry) {key : String} (h : key ∉ ["event_id", "event_type", "decision_id"]) :
    entry.record.get? key = entry.payload.get? key := by
  simp only [List.mem_cons, List.not_mem_nil, or_false, not_or] at h
  obtain ⟨hid, htype, hdecision⟩ := h
  rw [record_get?]
  simp only [envelope, Dict.get?, List.lookup_cons, List.lookup_nil, beq_eq_false_iff_ne.mpr hid,
    beq_eq_false_iff_ne.mpr htype, beq_eq_false_iff_ne.mpr hdecision, Option.or_none]

/-- Entries that differ in their identifiers have the same record up to it. -/
theorem record_get?_of_ne (first second : String) (decisionId : Json) (eventType : String) (payload : PyDict)
    (idempotencyKey : Option String) {key : String} (h : key ≠ "event_id") :
    (record ⟨first, decisionId, eventType, payload, idempotencyKey⟩).get? key =
      (record ⟨second, decisionId, eventType, payload, idempotencyKey⟩).get? key := by
  have hkey : (key == "event_id") = false := beq_eq_false_iff_ne.mpr h
  rw [record_get?, record_get?]
  simp only [envelope, Dict.get?, List.lookup_cons, hkey]

/-- The payload does not override the event type of the envelope with another one. -/
def Honest (entry : Entry) : Prop :=
  ∀ value, entry.payload.get? "event_type" = some value → value = .str entry.eventType

theorem Honest.hasType {entry : Entry} (h : entry.Honest) (eventType : String) :
    entry.record.hasType eventType = decide (entry.eventType = eventType) := by
  have hget : entry.record.get? "event_type" = some (.str entry.eventType) := by
    rw [record_get?]
    cases hown : entry.payload.get? "event_type" with
    | none => simp [envelope]
    | some value => simp [h value hown]
  simp [PyDict.hasType, hget, Json.isStr]

end Entry

/-- An entry that `read_unbatched` answers with. -/
def Entry.isOpen (batched : Finset String) (entry : Entry) : Bool :=
  decide (entry.eventType = "MetricCommitted") && decide (entry.eventId ∉ batched)

theorem Entry.mem_open {batched : Finset String} {events : List Entry} {entry : Entry} :
    entry ∈ events.filter (Entry.isOpen batched) ↔
      entry ∈ events ∧ entry.eventType = "MetricCommitted" ∧ entry.eventId ∉ batched := by
  simp [Entry.isOpen]

structure AppendResult where
  eventId : String
  deduplicated : Bool
  existingEventId : Option String
  deriving DecidableEq

/-- `items[start:]`. -/
def sliceFrom {α : Type} (start : ℤ) (items : List α) : List α :=
  items.drop (if start < 0 then (items.length + start).toNat else start.toNat)

/-- `items[:stop]`. -/
def sliceTo {α : Type} (stop : ℤ) (items : List α) : List α :=
  items.take (if stop < 0 then (items.length + stop).toNat else stop.toNat)

@[simp] theorem sliceFrom_zero {α : Type} (items : List α) : sliceFrom 0 items = items := rfl

theorem sliceTo_of_length_le {α : Type} {stop : ℤ} {items : List α} (h : items.length ≤ stop) :
    sliceTo stop items = items := by
  have hstop : ¬ stop < 0 := by omega
  simp only [sliceTo, hstop, if_false]
  exact List.take_of_length_le (by omega)

structure MemoryAuditTrail where
  events : List Entry
  idempotencyIndex : Dict String String
  batched : Finset String

namespace MemoryAuditTrail

def empty : MemoryAuditTrail := ⟨[], .empty, ∅⟩

/-- The event stored under an idempotency key, if one was given and is known. -/
def existing? (trail : MemoryAuditTrail) (key : Option String) : Option String :=
  key.bind trail.idempotencyIndex.get?

/-- The key index after a stored append. -/
def indexWith (trail : MemoryAuditTrail) (key : Option String) (eventId : String) : Dict String String :=
  match key with
  | some key => trail.idempotencyIndex.set key eventId
  | none => trail.idempotencyIndex

/-- `append` with the identifier it draws.  A known key stores nothing.  A decision id that cannot
be hashed fails in the per-decision index, after the global list has grown. -/
def append (trail : MemoryAuditTrail) (eventId : String) (decisionId : Json) (eventType : String)
    (payload : PyDict) (key : Option String) : MemoryAuditTrail × Except PyError AppendResult :=
  match trail.existing? key with
  | some existing => (trail, .ok ⟨existing, true, some existing⟩)
  | none =>
    let events := trail.events ++ [⟨eventId, decisionId, eventType, payload, key⟩]
    if decisionId.hashable then
      ({ trail with events, idempotencyIndex := trail.indexWith key eventId },
        .ok ⟨eventId, false, none⟩)
    else ({ trail with events }, .error .typeError)

/-- The entries appended under a decision id. -/
def entriesOf (trail : MemoryAuditTrail) (decisionId : String) : List Entry :=
  trail.events.filter fun entry ↦ entry.decisionId.isStr decisionId

/-- `read_range(decision_id, since_seq)`. -/
def readRange (trail : MemoryAuditTrail) (decisionId : String) (sinceSeq : ℤ) : List PyDict :=
  sliceFrom sinceSeq ((trail.entriesOf decisionId).map Entry.record)

/-- The filter of `read_unbatched` on one record; membership in a set hashes the identifier. -/
def isUnbatched (batched : Finset String) (record : PyDict) : Except PyError Bool :=
  match record.get? "event_id" with
  | none => .error (.keyError "event_id")
  | some (.str eventId) => .ok (decide (eventId ∉ batched) && record.hasType "MetricCommitted")
  | some eventId => if eventId.hashable then .ok (record.hasType "MetricCommitted") else .error .typeError

def collectUnbatched (batched : Finset String) : List PyDict → Except PyError (List PyDict)
  | [] => .ok []
  | record :: rest => do
    let keep ← isUnbatched batched record
    let kept ← collectUnbatched batched rest
    return if keep then record :: kept else kept

theorem collectUnbatched_eq {batched : Finset String} {events : List Entry}
    (h : ∀ entry ∈ events, isUnbatched batched entry.record = .ok (entry.isOpen batched)) :
    collectUnbatched batched (events.map Entry.record) =
      .ok ((events.filter (Entry.isOpen batched)).map Entry.record) := by
  induction events with
  | nil => rfl
  | cons entry rest ih =>
    have hrest := ih fun other hother ↦ h other (List.mem_cons_of_mem _ hother)
    have hentry := h entry List.mem_cons_self
    rw [List.map_cons, collectUnbatched, hentry, hrest]
    cases hopen : entry.isOpen batched <;> simp [hopen, bind, Except.bind, pure, Except.pure]

/-- `read_unbatched(limit)`. -/
def readUnbatched (trail : MemoryAuditTrail) (limit : ℤ) : Except PyError (List PyDict) :=
  (collectUnbatched trail.batched (trail.events.map Entry.record)).map (sliceTo limit)

def markBatched (trail : MemoryAuditTrail) (eventIds : List String) : MemoryAuditTrail :=
  { trail with batched := trail.batched ∪ eventIds.toFinset }

variable {trail : MemoryAuditTrail} {eventId : String} {decisionId : Json} {eventType : String}
  {payload : PyDict} {key : Option String}

theorem append_of_existing {existing : String} (h : trail.existing? key = some existing) :
    trail.append eventId decisionId eventType payload key =
      (trail, .ok ⟨existing, true, some existing⟩) := by
  simp [append, h]

theorem append_of_fresh (h : trail.existing? key = none) (hash : decisionId.hashable = true) :
    trail.append eventId decisionId eventType payload key =
      ({ trail with
          events := trail.events ++ [⟨eventId, decisionId, eventType, payload, key⟩]
          idempotencyIndex := trail.indexWith key eventId }, .ok ⟨eventId, false, none⟩) := by
  simp [append, h, hash]

@[simp] theorem existing?_none : trail.existing? none = none := rfl

@[simp] theorem append_batched :
    (trail.append eventId decisionId eventType payload key).1.batched = trail.batched := by
  unfold append
  split
  · rfl
  · split <;> rfl

/-- Everything an append can do to the global list: nothing, when the key is known, or one more
entry at the end. -/
theorem append_events_cases (trail : MemoryAuditTrail) (eventId : String) (decisionId : Json)
    (eventType : String) (payload : PyDict) (key : Option String) :
    (trail.append eventId decisionId eventType payload key).1.events = trail.events ∧
        (trail.existing? key).isSome ∨
      (trail.append eventId decisionId eventType payload key).1.events =
          trail.events ++ [⟨eventId, decisionId, eventType, payload, key⟩] ∧
        trail.existing? key = none := by
  unfold append
  cases h : trail.existing? key with
  | some existing => exact .inl ⟨rfl, rfl⟩
  | none =>
    refine .inr ⟨?_, rfl⟩
    by_cases hash : decisionId.hashable = true <;> simp [hash]

theorem mem_entriesOf {entry : Entry} {decision : String} :
    entry ∈ trail.entriesOf decision ↔ entry ∈ trail.events ∧ entry.decisionId = .str decision := by
  simp [entriesOf]

/-- What a reader of one decision sees after more entries. -/
theorem readRange_append {first second : MemoryAuditTrail} {stored : List Entry}
    (h : second.events = first.events ++ stored) (decision : String) :
    second.readRange decision 0 = first.readRange decision 0 ++
      (stored.filter fun entry ↦ entry.decisionId.isStr decision).map Entry.record := by
  simp only [readRange, sliceFrom_zero, entriesOf]
  rw [h, List.filter_append, List.map_append]

/-- A longer global list only extends what a reader of one decision sees. -/
theorem readRange_prefix {first second : MemoryAuditTrail} (h : first.events <+: second.events)
    (decision : String) : first.readRange decision 0 <+: second.readRange decision 0 := by
  simp only [readRange, sliceFrom_zero, entriesOf]
  exact (h.filter _).map _

end MemoryAuditTrail

end DecisionCore
