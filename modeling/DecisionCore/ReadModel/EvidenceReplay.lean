import DecisionCore.Application.EvidenceRegistry
import DecisionCore.Infrastructure.LocalEnv

/-!
# What the evidence registry replays

A complete replay maps the identifier of every `EvidenceAttached` event to the record of the last such event.  The
registry that the code builds holds one record, that of the last event of the list, whatever its type.
-/

namespace DecisionCore.EvidenceRegistry

variable {env : Env} {decisionId : String}

/-! ## Reading an event -/

/-- The fields of an event that the record takes over as they are. -/
def textKeys : List String := ["evidence_id", "source_type", "content_hash", "storage_ref"]

/-- The moment the evidence was fetched. -/
def fetchedAt? (env : Env) (evt : PyDict) : Option Instant := (evt.text? "fetched_at").bind env.fromisoformat

/-- The fields of the evidence have their types. -/
structure WellFormed (env : Env) (evt : PyDict) : Prop where
  texts : ∀ key ∈ textKeys, (evt.text? key).isSome = true
  moment : (fetchedAt? env evt).isSome = true

/-- The record that a well-formed event stands for. -/
structure Describes (env : Env) (decisionId : String) (evt : PyDict) (record : EvidenceRecord) : Prop where
  evidenceId : evt.text? "evidence_id" = some record.evidenceId
  sourceType : evt.text? "source_type" = some record.sourceType
  contentHash : evt.text? "content_hash" = some record.contentHash
  storageRef : evt.text? "storage_ref" = some record.storageRef
  fetchedAt : fetchedAt? env evt = some record.fetchedAt
  decisionId : record.decisionId = decisionId
  ttlExpiresAt : record.ttlExpiresAt = none

theorem item_eq_ok_iff {evt : PyDict} {key : String} {value : Json} :
    MetricsRegistry.item evt key = .ok value ↔ evt.get? key = some value := by
  unfold MetricsRegistry.item
  cases evt.get? key <;> simp

theorem parse_eq_ok_iff {value : Json} {moment : Instant} :
    MetricsRegistry.parse env value = .ok moment ↔ value.asStr?.bind env.fromisoformat = some moment := by
  cases value with
  | str text =>
    simp only [MetricsRegistry.parse, Json.asStr?, Option.bind_some]
    cases env.fromisoformat text <;> simp
  | _ => simp [MetricsRegistry.parse, Json.asStr?]

/-- The record of an event is built from exactly the fields it describes. -/
theorem recordOf_eq_ok_iff {evt : PyDict} {record : EvidenceRecord} :
    recordOf env decisionId evt = .ok record ↔ Describes env decisionId evt record := by
  unfold recordOf
  simp only [bind_eq_ok, item_eq_ok_iff, parse_eq_ok_iff]
  constructor
  · rintro ⟨evidenceId, hid, sourceType, hsource, contentHash, hhash, storageRef, href, fetched, hget, moment, hmoment,
      hbuild⟩
    unfold EvidenceRecord.build at hbuild
    split at hbuild
    · obtain rfl := Except.ok.inj hbuild
      constructor
      all_goals simp [PyDict.text?, fetchedAt?, *]
    · cases hbuild
  · rintro ⟨hid, hsource, hhash, href, hfetched, hdecision, hexpires⟩
    simp only [PyDict.text?, fetchedAt?, Option.bind_assoc, Option.bind_eq_some_iff] at hid hsource hhash href hfetched
    obtain ⟨evidenceId, hid, hid'⟩ := hid
    obtain ⟨sourceType, hsource, hsource'⟩ := hsource
    obtain ⟨contentHash, hhash, hhash'⟩ := hhash
    obtain ⟨storageRef, href, href'⟩ := href
    obtain ⟨fetched, hget, hmoment⟩ := hfetched
    refine ⟨evidenceId, hid, sourceType, hsource, contentHash, hhash, storageRef, href, fetched, hget,
      record.fetchedAt, Option.bind_eq_some_iff.mpr hmoment, ?_⟩
    simp only [EvidenceRecord.build, hid', hsource', hhash', href', ← hdecision, ← hexpires]

theorem WellFormed.describes {evt : PyDict} (h : WellFormed env evt) (decisionId : String) :
    ∃ record, Describes env decisionId evt record := by
  obtain ⟨evidenceId, hid⟩ := Option.isSome_iff_exists.mp (h.texts "evidence_id" (by decide))
  obtain ⟨sourceType, hsource⟩ := Option.isSome_iff_exists.mp (h.texts "source_type" (by decide))
  obtain ⟨contentHash, hhash⟩ := Option.isSome_iff_exists.mp (h.texts "content_hash" (by decide))
  obtain ⟨storageRef, href⟩ := Option.isSome_iff_exists.mp (h.texts "storage_ref" (by decide))
  obtain ⟨moment, hmoment⟩ := Option.isSome_iff_exists.mp h.moment
  exact ⟨⟨evidenceId, decisionId, sourceType, contentHash, storageRef, moment, none⟩,
    hid, hsource, hhash, href, hmoment, rfl, rfl⟩

/-- Both events hold the same evidence. -/
structure SameEvidence (env : Env) (first second : PyDict) : Prop where
  texts : ∀ key ∈ textKeys, first.text? key = second.text? key
  moment : fetchedAt? env first = fetchedAt? env second

theorem Describes.sameEvidence {first second : PyDict} {record : EvidenceRecord}
    (hfirst : Describes env decisionId first record) (hsecond : Describes env decisionId second record) :
    SameEvidence env first second where
  texts := by
    simp only [textKeys, List.forall_mem_cons, List.not_mem_nil, false_imp_iff, implies_true,
      hfirst.evidenceId, hfirst.sourceType, hfirst.contentHash, hfirst.storageRef, hsecond.evidenceId,
      hsecond.sourceType, hsecond.contentHash, hsecond.storageRef, and_self]
  moment := by rw [hfirst.fetchedAt, hsecond.fetchedAt]

theorem SameEvidence.describes {first second : PyDict} {record : EvidenceRecord} (h : SameEvidence env first second)
    (hsecond : Describes env decisionId second record) : Describes env decisionId first record where
  evidenceId := by rw [h.texts "evidence_id" (by decide), hsecond.evidenceId]
  sourceType := by rw [h.texts "source_type" (by decide), hsecond.sourceType]
  contentHash := by rw [h.texts "content_hash" (by decide), hsecond.contentHash]
  storageRef := by rw [h.texts "storage_ref" (by decide), hsecond.storageRef]
  fetchedAt := by rw [h.moment, hsecond.fetchedAt]
  decisionId := hsecond.decisionId
  ttlExpiresAt := hsecond.ttlExpiresAt

/-! ## A complete replay -/

/-- The event attaches the evidence. -/
def attaches (evidenceId : String) (evt : PyDict) : Bool :=
  attached evt && decide (evt.text? "evidence_id" = some evidenceId)

/-- The registry has exactly the evidence attached in the list, each with the record of the event that attached it
last. -/
structure Replays (env : Env) (decisionId : String) (events : List PyDict) (registry : Registry) : Prop where
  keys : ∀ evidenceId, evidenceId ∈ registry.keys ↔ ∃ evt ∈ events, attaches evidenceId evt = true
  records : ∀ evidenceId record, registry.get? evidenceId = some record ↔
    ∃ evt, (events.filter (attaches evidenceId)).getLast? = some evt ∧ recordOf env decisionId evt = .ok record
  present : ∀ refs, allPresent refs registry = true ↔ ∀ ref ∈ refs, ∃ evt ∈ events, attaches ref evt = true

/-- `reconstruct` does not raise, and what it returns is complete. -/
def ReplaysEvidence (env : Env) (decisionId : String) (events : List PyDict) : Prop :=
  ∃ registry, reconstruct env decisionId events = .ok registry ∧ Replays env decisionId events registry

theorem allPresent_iff (refs : List String) (registry : Registry) :
    allPresent refs registry = true ↔ ∀ ref ∈ refs, ref ∈ registry.keys := by
  simp only [allPresent, List.all_eq_true, Dict.contains, Dict.mem_keys_iff]

theorem scan_eq (evt : Option PyDict) (events : List PyDict) : scan evt events = events.getLast?.or evt := by
  induction events generalizing evt with
  | nil => rfl
  | cons next rest ih => rw [scan, ite_self, ih, List.getLast?_cons, Option.or_some, Option.some_or]

/-- A registry of one record. -/
def single (record : EvidenceRecord) : Registry := Dict.empty.set record.evidenceId record

theorem mem_keys_single (record : EvidenceRecord) (evidenceId : String) :
    evidenceId ∈ (single record).keys ↔ evidenceId = record.evidenceId := by
  rw [Dict.mem_keys_iff, single, Dict.get?_set]
  by_cases h : record.evidenceId = evidenceId
  · simp [h]
  · simp [h, Ne.symm h]

/-- The registry holds the record of the last event. -/
theorem reconstruct_eq_ok_iff {events : List PyDict} {registry : Registry} :
    reconstruct env decisionId events = .ok registry ↔ ∃ last record, events.getLast? = some last ∧
      Describes env decisionId last record ∧ registry = single record := by
  simp only [← recordOf_eq_ok_iff]
  rw [reconstruct, scan_eq, Option.or_none]
  cases events.getLast? with
  | none => simp
  | some last =>
    cases hrecord : recordOf env decisionId last with
    | error error => simp [hrecord]
    | ok record => simp [hrecord, single, eq_comm]

/-! ## One identifier -/

/-- The evidence of the list has no other identifier. -/
def OnlyAttaches (events : List PyDict) (evidenceId : String) : Prop :=
  ∀ evt ∈ events, attached evt = true → evt.text? "evidence_id" = some evidenceId

section OneIdentifier

variable {events : List PyDict} {newest : PyDict} {record : EvidenceRecord}

theorem OnlyAttaches.filter_eq {evidenceId : String} (h : OnlyAttaches events evidenceId) :
    events.filter (attaches evidenceId) = events.filter attached := by
  apply List.filter_congr
  intro evt hevt
  unfold attaches
  cases hattached : attached evt with
  | false => rfl
  | true => simp [h evt hevt hattached]

theorem OnlyAttaches.eq_of_attaches {evidenceId : String} (h : OnlyAttaches events evidenceId) {evt : PyDict}
    (hevt : evt ∈ events) {other : String} (hother : attaches other evt = true) : other = evidenceId := by
  simp only [attaches, Bool.and_eq_true, decide_eq_true_eq] at hother
  rw [h evt hevt hother.1] at hother
  exact (Option.some.inj hother.2).symm

/-- The record of the only evidence is a complete registry. -/
theorem replays_single (hone : OnlyAttaches events record.evidenceId)
    (hnewest : (events.filter attached).getLast? = some newest) (hrecord : Describes env decisionId newest record) :
    Replays env decisionId events (single record) := by
  have hattached : ∀ evidenceId, evidenceId = record.evidenceId ↔ ∃ evt ∈ events, attaches evidenceId evt = true := by
    intro evidenceId
    constructor
    · rintro rfl
      rw [← hone.filter_eq] at hnewest
      exact ⟨newest, List.mem_filter.mp (List.mem_of_getLast? hnewest)⟩
    · rintro ⟨evt, hevt, hattaches⟩
      exact hone.eq_of_attaches hevt hattaches
  constructor
  · intro evidenceId
    rw [mem_keys_single, hattached]
  · intro evidenceId other
    rw [single, Dict.get?_set, Dict.get?_empty]
    by_cases hid : record.evidenceId = evidenceId
    · subst hid
      simp [hone.filter_eq, hnewest, recordOf_eq_ok_iff.mpr hrecord]
    · rw [if_neg hid]
      refine iff_of_false nofun ?_
      rintro ⟨evt, hlast, -⟩
      obtain ⟨hevt, hattaches⟩ := List.mem_filter.mp (List.mem_of_getLast? hlast)
      exact hid (hone.eq_of_attaches hevt hattaches).symm
  · intro refs
    simp only [allPresent_iff, mem_keys_single, hattached]

/-- A complete registry of one record leaves no room for other evidence. -/
theorem Replays.onlyAttaches (h : Replays env decisionId events (single record))
    (wellFormed : ∀ evt ∈ events, attached evt = true → WellFormed env evt) :
    OnlyAttaches events record.evidenceId := by
  intro evt hevt hattached
  obtain ⟨evidenceId, hid⟩ :=
    Option.isSome_iff_exists.mp ((wellFormed evt hevt hattached).texts "evidence_id" (by decide))
  have hattaches : attaches evidenceId evt = true := by simp [attaches, hattached, hid]
  have hkey := (h.keys evidenceId).mpr ⟨evt, hevt, hattaches⟩
  rw [hid, (mem_keys_single record evidenceId).mp hkey]

/-- A complete registry of one record holds that of the evidence attached last. -/
theorem Replays.describes_newest (h : Replays env decisionId events (single record))
    (hone : OnlyAttaches events record.evidenceId) :
    ∃ newest, (events.filter attached).getLast? = some newest ∧ Describes env decisionId newest record := by
  have hfound : (single record).get? record.evidenceId = some record := by simp [single]
  obtain ⟨newest, hnewest, hrecord⟩ := (h.records record.evidenceId record).mp hfound
  rw [hone.filter_eq] at hnewest
  exact ⟨newest, hnewest, recordOf_eq_ok_iff.mp hrecord⟩

end OneIdentifier

/-! ## When the replay is complete -/

/-- All evidence of the list has one identifier, and the last event of the list, whatever its type, holds the evidence
that was attached last. -/
def EndsInItsEvidence (env : Env) (events : List PyDict) : Prop :=
  ∃ last newest, events.getLast? = some last ∧ (events.filter attached).getLast? = some newest ∧
    SameEvidence env last newest ∧
    ∀ evt ∈ events, attached evt = true → evt.text? "evidence_id" = newest.text? "evidence_id"

/-- The evidence replay is complete exactly on the lists that end in their only evidence. -/
theorem reconstruct_complete_iff (events : List PyDict)
    (wellFormed : ∀ evt ∈ events, attached evt = true → WellFormed env evt) :
    ReplaysEvidence env decisionId events ↔ EndsInItsEvidence env events := by
  constructor
  · rintro ⟨registry, hregistry, hreplays⟩
    obtain ⟨last, record, hlast, hrecord, rfl⟩ := reconstruct_eq_ok_iff.mp hregistry
    have hone := hreplays.onlyAttaches wellFormed
    obtain ⟨newest, hnewest, hdescribes⟩ := hreplays.describes_newest hone
    refine ⟨last, newest, hlast, hnewest, hrecord.sameEvidence hdescribes, ?_⟩
    rw [hdescribes.evidenceId]
    exact hone
  · rintro ⟨last, newest, hlast, hnewest, hsame, hone⟩
    obtain ⟨hmem, hattached⟩ := List.mem_filter.mp (List.mem_of_getLast? hnewest)
    obtain ⟨record, hrecord⟩ := (wellFormed newest hmem hattached).describes decisionId
    rw [hrecord.evidenceId] at hone
    have hreconstruct : reconstruct env decisionId events = .ok (single record) :=
      reconstruct_eq_ok_iff.mpr ⟨last, record, hlast, hsame.describes hrecord, rfl⟩
    exact ⟨single record, hreconstruct, replays_single hone hnewest hrecord⟩

/-- An attachment that was made at the epoch. -/
def sampleAttachment (evidenceId : String) : PyDict :=
  ⟨[("event_type", .str "EvidenceAttached"), ("decision_id", .str "d1"), ("evidence_id", .str evidenceId),
    ("source_type", .str "POLICY"), ("content_hash", .str "c1"), ("storage_ref", .str "s1"),
    ("fetched_at", .str LocalEnv.epochText)]⟩

theorem sampleAttachment_wellFormed (evidenceId : String) : WellFormed .local (sampleAttachment evidenceId) where
  texts := by simp [textKeys, sampleAttachment, PyDict.text?, Json.asStr?]
  moment := by simp [fetchedAt?, sampleAttachment, PyDict.text?, Json.asStr?, Env.local, LocalEnv.fromisoformat]

/-- The same evidence, attached twice behind another event. -/
theorem replaysEvidence_of_repeated :
    ReplaysEvidence .local "d1"
      [⟨[("event_type", .str "GoalCreated")]⟩, sampleAttachment "e1", sampleAttachment "e1"] := by
  apply (reconstruct_complete_iff _ ?_).mpr
  · refine ⟨sampleAttachment "e1", sampleAttachment "e1", rfl, rfl, ⟨fun _ _ ↦ rfl, rfl⟩, ?_⟩
    simp [attached, PyDict.hasType, Json.isStr, sampleAttachment]
  · simp only [List.forall_mem_cons]
    refine ⟨fun h ↦ absurd h (by decide), fun _ ↦ sampleAttachment_wellFormed _,
      fun _ ↦ sampleAttachment_wellFormed _, List.forall_mem_nil _⟩

/-- Of two attachments the registry knows only the second. -/
theorem first_attachment_lost :
    (∀ evt ∈ [sampleAttachment "e1", sampleAttachment "e2"], attached evt = true → WellFormed .local evt) ∧
      ¬ ReplaysEvidence .local "d1" [sampleAttachment "e1", sampleAttachment "e2"] := by
  constructor
  · simp only [List.forall_mem_cons]
    exact ⟨fun _ ↦ sampleAttachment_wellFormed _, fun _ ↦ sampleAttachment_wellFormed _, List.forall_mem_nil _⟩
  · rintro ⟨registry, hregistry, hreplays⟩
    obtain ⟨last, record, hlast, hrecord, rfl⟩ := reconstruct_eq_ok_iff.mp hregistry
    obtain rfl := Option.some.inj hlast
    have hkey := (hreplays.keys "e1").mpr ⟨sampleAttachment "e1", List.mem_cons_self, by decide⟩
    rw [mem_keys_single] at hkey
    have hid := hrecord.evidenceId
    rw [← hkey] at hid
    exact absurd hid (by decide)

example : reconstruct .local "d1" [] = .error .unboundLocalError := rfl

end DecisionCore.EvidenceRegistry
