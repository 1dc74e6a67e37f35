import DecisionCore.Domain.JsonRoundTrip
import DecisionCore.Infrastructure.LocalEnv

/-!
# The two projection stores

The in-memory store keeps the rows it is given; the Redis store keeps their JSON texts and reads them back.
What the Redis server does beside GET and SET is a parameter: the keys a SCAN with a pattern yields, in any
order and with repetitions.
-/

namespace DecisionCore

/-- `text.startswith(beginning)`. -/
def startsWith (text beginning : String) : Bool := beginning.toList.isPrefixOf text.toList

/-- The calls of a projection store. -/
inductive StoreCall where
  | get (key : String)
  | set (key : String) (value : PyDict)
  | getMany (beginning : String)

/-- What a call answers: nothing, a row or none, rows by their keys, or an exception. -/
inductive StoreAnswer where
  | nothing
  | row (value : Option Json)
  | rows (values : Dict String Json)
  | raised (error : PyError)

/-- Equal answers; dicts are compared by what they hold. -/
def StoreAnswer.Same : StoreAnswer → StoreAnswer → Prop
  | nothing, nothing => True
  | row first, row second => first = second
  | rows first, rows second => ∀ key, first.get? key = second.get? key
  | raised first, raised second => first = second
  | _, _ => False

/-! ## The in-memory store -/

abbrev MemoryProjectionStore := Dict String PyDict

namespace MemoryProjectionStore

def answer (store : MemoryProjectionStore) : StoreCall → MemoryProjectionStore × StoreAnswer
  | .get key => (store, .row ((store.get? key).map fun value ↦ .dict value.entries))
  | .set key value => (store.set key value, .nothing)
  | .getMany beginning =>
    let found := store.entries.filter fun binding ↦ startsWith binding.1 beginning
    (store, .rows ⟨found.map fun binding ↦ (binding.1, .dict binding.2.entries)⟩)

/-- The answers to calls made one after the other. -/
def answers (store : MemoryProjectionStore) : List StoreCall → List StoreAnswer
  | [] => []
  | call :: rest => (answer store call).2 :: answers (answer store call).1 rest

end MemoryProjectionStore

/-! ## The Redis store -/

/-- The texts a Redis server holds. -/
abbrev RedisData := Dict String String

/-- `scan_iter(match=pattern)` of a server. -/
abbrev RedisScan := RedisData → String → List String

/-- The text has no character that a pattern reads as a special one. -/
def PlainPattern (text : String) : Prop := ∀ c ∈ text.toList, c ∉ ['*', '?', '[', '\\']

/-- A full SCAN yields the keys that match, and `*` matches any rest. -/
def Scans (scan : RedisScan) : Prop :=
  ∀ data beginning, PlainPattern beginning → ∀ key,
    key ∈ scan data (beginning ++ "*") ↔ (data.get? key).isSome = true ∧ startsWith key beginning = true

namespace RedisProjectionStore

open JsonText

variable (env : Env) (float : String → PyFloat) (scan : RedisScan)

/-- `json.loads(raw) if raw is not None else None`; a decode error is a `ValueError`. -/
def load (data : RedisData) (key : String) : Except PyError (Option Json) :=
  match data.get? key with
  | none => .ok none
  | some raw =>
    match jsonLoads float raw with
    | .ok value => .ok (some value)
    | .error _ => .error .valueError

/-- The loop of `get_many` over the keys of the scan. -/
def collect (data : RedisData) : List String → Dict String Json → Except PyError (Dict String Json)
  | [], out => .ok out
  | key :: rest, out =>
    match load float data key with
    | .error error => .error error
    | .ok none => collect data rest out
    | .ok (some value) => collect data rest (out.set key value)

def answer (data : RedisData) : StoreCall → RedisData × StoreAnswer
  | .get key =>
    match load float data key with
    | .ok value => (data, .row value)
    | .error error => (data, .raised error)
  | .set key value =>
    match jsonDumps? env (.dict value.entries) with
    | .ok raw => (data.set key raw, .nothing)
    | .error error => (data, .raised error)
  | .getMany beginning =>
    match collect float data (scan data (beginning ++ "*")) .empty with
    | .ok out => (data, .rows out)
    | .error error => (data, .raised error)

def answers (data : RedisData) : List StoreCall → List StoreAnswer
  | [] => []
  | call :: rest => (answer env float scan data call).2 :: answers (answer env float scan data call).1 rest

end RedisProjectionStore

/-! ## One store stands for the other -/

section Mirrors

open RedisProjectionStore JsonText

variable {env : Env} {float : String → PyFloat} {scan : RedisScan}

/-- The server holds the text of every row, and every row is a value that is read back from its text. -/
structure Mirrors (env : Env) (float : String → PyFloat) (data : RedisData) (store : MemoryProjectionStore) :
    Prop where
  texts : ∀ key, data.get? key = (store.get? key).map fun value ↦ jsonDumps env (.dict value.entries)
  rows : ∀ key value, store.get? key = some value →
    (Json.dict value.entries).WellFormed env float ∧ (Json.dict value.entries).intsFit = true
  keys : store.keys.Nodup

theorem mirrors_empty : Mirrors env float .empty .empty where
  texts _ := rfl
  rows key value h := by cases h
  keys := List.nodup_nil

theorem Mirrors.set {data : RedisData} {store : MemoryProjectionStore} (h : Mirrors env float data store)
    (key : String) {value : PyDict} (hvalue : (Json.dict value.entries).WellFormed env float)
    (hfit : (Json.dict value.entries).intsFit = true) :
    Mirrors env float (data.set key (jsonDumps env (.dict value.entries))) (store.set key value) where
  texts other := by
    rw [Dict.get?_set, Dict.get?_set, h.texts]
    split <;> rfl
  rows other found hfound := by
    rw [Dict.get?_set] at hfound
    split at hfound
    · rw [← Option.some.inj hfound]
      exact ⟨hvalue, hfit⟩
    · exact h.rows other found hfound
  keys := Dict.nodup_keys_set h.keys key value

/-- A row is read back from its text. -/
theorem Mirrors.load {data : RedisData} {store : MemoryProjectionStore} (h : Mirrors env float data store)
    (key : String) :
    RedisProjectionStore.load float data key = .ok ((store.get? key).map fun value ↦ .dict value.entries) := by
  rw [RedisProjectionStore.load, h.texts]
  cases hvalue : store.get? key with
  | none => rfl
  | some value =>
    obtain ⟨hwellFormed, hfit⟩ := h.rows key value hvalue
    have hread : jsonLoads float (jsonDumps env (.dict value.entries)) = .ok (.dict value.entries) :=
      jsonLoads_jsonDumps hwellFormed (if_pos hfit)
    simp only [Option.map_some, hread]

theorem Mirrors.collect {data : RedisData} {store : MemoryProjectionStore} (h : Mirrors env float data store)
    (keys : List String) (out : Dict String Json) :
    ∃ found, RedisProjectionStore.collect float data keys out = .ok found ∧ ∀ key, found.get? key =
      if key ∈ keys ∧ (store.get? key).isSome then (store.get? key).map fun value ↦ .dict value.entries
      else out.get? key := by
  induction keys generalizing out with
  | nil => exact ⟨out, rfl, fun key ↦ by simp⟩
  | cons first rest ih =>
    rw [RedisProjectionStore.collect, h.load]
    cases hvalue : store.get? first with
    | none =>
      obtain ⟨found, hfound, hget⟩ := ih out
      refine ⟨found, hfound, ?_⟩
      intro key
      rw [hget]
      obtain rfl | hne := eq_or_ne key first
      · simp [hvalue]
      · simp [hne]
    | some value =>
      obtain ⟨found, hfound, hget⟩ := ih (out.set first (.dict value.entries))
      refine ⟨found, hfound, ?_⟩
      intro key
      rw [hget, Dict.get?_set]
      obtain rfl | hne := eq_or_ne key first
      · simp [hvalue]
      · simp [hne, hne.symm]

/-- The rows that the in-memory store finds under a beginning. -/
theorem MemoryProjectionStore.get?_found {store : MemoryProjectionStore} (hkeys : store.keys.Nodup)
    (beginning key : String) :
    (⟨(store.entries.filter fun binding ↦ startsWith binding.1 beginning).map fun binding ↦
        (binding.1, Json.dict binding.2.entries)⟩ : Dict String Json).get? key =
      if startsWith key beginning then (store.get? key).map fun value ↦ .dict value.entries else none := by
  obtain ⟨entries⟩ := store
  induction entries with
  | nil => simp
  | cons binding rest ih =>
    obtain ⟨first, value⟩ := binding
    have hrest := ih (List.nodup_cons.mp hkeys).2
    rw [Dict.get?_cons, List.filter_cons]
    by_cases hfirst : startsWith first beginning = true
    · rw [if_pos hfirst, List.map_cons, Dict.get?_cons, hrest]
      by_cases hkey : first = key
      · subst hkey
        simp [hfirst]
      · simp only [if_neg hkey]
    · rw [if_neg hfirst, hrest]
      by_cases hkey : first = key
      · subst hkey
        simp [hfirst]
      · simp only [if_neg hkey]

end Mirrors

/-! ## Calls one after the other -/

/-- A call as the service makes it: rows are values of Python, and patterns have no special characters. -/
def StoreCall.Plain (env : Env) (float : String → PyFloat) : StoreCall → Prop
  | get _ => True
  | set _ value => (Json.dict value.entries).WellFormed env float
  | getMany beginning => PlainPattern beginning

/-- The row that a call writes can be written as a text. -/
def StoreCall.Fits : StoreCall → Prop
  | set _ value => (Json.dict value.entries).intsFit = true
  | _ => True

section Answers

variable {env : Env} {float : String → PyFloat} {scan : RedisScan}

/-- A call on two stores of which one mirrors the other, and the stores it leaves behind. -/
theorem Mirrors.answer {data : RedisData} {store : MemoryProjectionStore} (h : Mirrors env float data store)
    (hscan : Scans scan) {call : StoreCall} (hplain : call.Plain env float) (hfits : call.Fits) :
    Mirrors env float (RedisProjectionStore.answer env float scan data call).1 (store.answer call).1 ∧
      (store.answer call).2.Same (RedisProjectionStore.answer env float scan data call).2 := by
  cases call with
  | get key =>
    simp only [RedisProjectionStore.answer, h.load, MemoryProjectionStore.answer]
    exact ⟨h, rfl⟩
  | set key value =>
    have hdumps : jsonDumps? env (.dict value.entries) = .ok (jsonDumps env (.dict value.entries)) := if_pos hfits
    simp only [RedisProjectionStore.answer, hdumps, MemoryProjectionStore.answer]
    exact ⟨h.set key hplain hfits, trivial⟩
  | getMany beginning =>
    obtain ⟨found, hfound, hget⟩ := h.collect (scan data (beginning ++ "*")) .empty
    simp only [RedisProjectionStore.answer, hfound, MemoryProjectionStore.answer]
    refine ⟨h, ?_⟩
    intro key
    have hsome : (data.get? key).isSome = (store.get? key).isSome := by rw [h.texts, Option.isSome_map]
    rw [MemoryProjectionStore.get?_found h.keys, hget]
    simp only [hscan data beginning hplain, hsome]
    cases hvalue : store.get? key with
    | none => simp
    | some value => simp

/-- A row that cannot be written as a text is refused by one store and taken by the other. -/
theorem answer_differs {call : StoreCall} (hfits : ¬ call.Fits) (data : RedisData) (store : MemoryProjectionStore) :
    ¬ (store.answer call).2.Same (RedisProjectionStore.answer env float scan data call).2 := by
  cases call with
  | get key => exact absurd trivial hfits
  | getMany beginning => exact absurd trivial hfits
  | set key value =>
    have hdumps : jsonDumps? env (.dict value.entries) = .error .valueError := if_neg hfits
    simp only [RedisProjectionStore.answer, hdumps, MemoryProjectionStore.answer, StoreAnswer.Same, not_false_eq_true]

/-- A scan that goes over all keys once. -/
def scanKeys : RedisScan := fun data pattern ↦
  data.keys.filter fun key ↦ pattern.toList.dropLast.isPrefixOf key.toList

theorem scanKeys_scans : Scans scanKeys := by
  intro data beginning hplain key
  have hpattern : (beginning ++ "*").toList.dropLast = beginning.toList := by
    rw [String.toList_append]
    exact List.dropLast_concat
  rw [scanKeys, List.mem_filter, hpattern, Dict.mem_keys_iff, startsWith]

def sampleRow : PyDict := ⟨[("status", .str "committed"), ("value", .int 5)]⟩

theorem sampleRow_wellFormed : (Json.dict sampleRow.entries).WellFormed .local (fun _ ↦ .nan) := by
  refine .dict (by decide) ?_
  simp only [sampleRow, List.forall_mem_cons]
  exact ⟨.str _, .int 5, List.forall_mem_nil _⟩

end Answers

end DecisionCore
