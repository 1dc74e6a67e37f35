import Mathlib.Data.List.Basic
import Mathlib.Tactic.Common

/-!
# Insertion-ordered dictionaries

A dictionary is the list of its bindings in insertion order.  Writing an existing key replaces the
value in place, writing a new key appends it, and a lookup answers with the first binding of the
key.  The merge of two dictionaries prefers the bindings of the second one, as a literal that
unpacks one dictionary after another does.
-/

namespace DecisionCore

/-- Bindings in insertion order. -/
structure Dict (κ α : Type) where
  entries : List (κ × α)
  deriving DecidableEq, Repr

namespace Dict

variable {κ α β : Type} [DecidableEq κ]

def empty : Dict κ α := ⟨[]⟩

def get? (dict : Dict κ α) (key : κ) : Option α := dict.entries.lookup key

def contains (dict : Dict κ α) (key : κ) : Bool := (dict.get? key).isSome

/-- Replace the first binding of `key`, or append one. -/
def setEntries (key : κ) (value : α) : List (κ × α) → List (κ × α)
  | [] => [(key, value)]
  | (other, old) :: rest =>
    if other = key then (key, value) :: rest else (other, old) :: setEntries key value rest

def set (dict : Dict κ α) (key : κ) (value : α) : Dict κ α := ⟨setEntries key value dict.entries⟩

/-- The merge `{**base, **patch}`. -/
def update (base patch : Dict κ α) : Dict κ α :=
  ⟨patch.entries.foldr (fun binding entries ↦ setEntries binding.1 binding.2 entries) base.entries⟩

def keys (dict : Dict κ α) : List κ := dict.entries.map Prod.fst

@[simp] theorem get?_empty (key : κ) : (empty : Dict κ α).get? key = none := rfl

@[simp] theorem get?_nil (key : κ) : (⟨[]⟩ : Dict κ α).get? key = none := rfl

@[simp] theorem get?_cons (other : κ) (value : α) (rest : List (κ × α)) (key : κ) :
    (⟨(other, value) :: rest⟩ : Dict κ α).get? key =
      if other = key then some value else (⟨rest⟩ : Dict κ α).get? key := by
  by_cases h : other = key
  · subst h
    simp [get?]
  · have hkey : (key == other) = false := by simpa using Ne.symm h
    simp [get?, List.lookup_cons, hkey, h]

theorem lookup_setEntries (key other : κ) (value : α) (entries : List (κ × α)) :
    (setEntries key value entries).lookup other =
      if key = other then some value else entries.lookup other := by
  induction entries with
  | nil =>
    have h := get?_cons key value [] other
    simpa [get?, setEntries] using h
  | cons binding rest ih =>
    obtain ⟨first, old⟩ := binding
    have hcons (v : α) (r : List (κ × α)) := get?_cons first v r other
    simp only [get?] at hcons
    by_cases hfirst : first = key
    · subst hfirst
      simp only [setEntries, if_true, hcons]
      split <;> rfl
    · simp only [setEntries, hfirst, if_false, hcons, ih]
      by_cases hother : first = other
      · subst hother
        simp [Ne.symm hfirst]
      · simp [hother]

@[simp] theorem get?_set (dict : Dict κ α) (key other : κ) (value : α) :
    (dict.set key value).get? other = if key = other then some value else dict.get? other :=
  lookup_setEntries key other value dict.entries

/-- The merged dictionary answers with the overriding binding when there is one. -/
@[simp] theorem get?_update (base patch : Dict κ α) (key : κ) :
    (base.update patch).get? key = (patch.get? key).or (base.get? key) := by
  obtain ⟨entries⟩ := patch
  induction entries with
  | nil => simp [update]
  | cons binding rest ih =>
    obtain ⟨first, value⟩ := binding
    have hstep : (base.update ⟨(first, value) :: rest⟩).get? key =
        if first = key then some value else (base.update ⟨rest⟩).get? key :=
      lookup_setEntries first key value _
    rw [hstep, ih, get?_cons]
    split <;> rfl

theorem mem_of_get?_eq_some {dict : Dict κ α} {key : κ} {value : α}
    (h : dict.get? key = some value) : (key, value) ∈ dict.entries := by
  obtain ⟨entries⟩ := dict
  induction entries with
  | nil => simp at h
  | cons binding rest ih =>
    obtain ⟨first, old⟩ := binding
    rw [get?_cons] at h
    split at h
    · rename_i hfirst
      obtain rfl := Option.some.inj h
      simp [hfirst]
    · exact List.mem_cons_of_mem _ (ih h)

/-- A write adds at most its own binding. -/
theorem mem_of_mem_set {dict : Dict κ α} {key : κ} {value : α} {binding : κ × α}
    (h : binding ∈ (dict.set key value).entries) : binding = (key, value) ∨ binding ∈ dict.entries := by
  obtain ⟨entries⟩ := dict
  simp only [set] at h
  induction entries with
  | nil => exact .inl (List.mem_singleton.mp h)
  | cons first rest ih =>
    obtain ⟨other, old⟩ := first
    rw [setEntries] at h
    split at h
    · rcases List.mem_cons.mp h with hnew | hrest
      · exact .inl hnew
      · exact .inr (List.mem_cons_of_mem _ hrest)
    · rcases List.mem_cons.mp h with hfirst | hrest
      · exact .inr (List.mem_cons.mpr (.inl hfirst))
      · exact (ih hrest).imp_right (List.mem_cons_of_mem _)

/-- Writing a new key appends its binding. -/
theorem set_of_get?_eq_none {dict : Dict κ α} {key : κ} (h : dict.get? key = none) (value : α) :
    (dict.set key value).entries = dict.entries ++ [(key, value)] := by
  obtain ⟨entries⟩ := dict
  simp only [set]
  induction entries with
  | nil => rfl
  | cons binding rest ih =>
    obtain ⟨first, old⟩ := binding
    rw [get?_cons] at h
    split at h
    · cases h
    · rename_i hfirst
      simp only [setEntries, hfirst, if_false, List.cons_append, ih h]

/-- Writing an old key keeps the keys and their order. -/
theorem keys_set_of_isSome {dict : Dict κ α} {key : κ} (h : (dict.get? key).isSome = true) (value : α) :
    (dict.set key value).keys = dict.keys := by
  obtain ⟨entries⟩ := dict
  simp only [set, keys]
  induction entries with
  | nil => simp at h
  | cons binding rest ih =>
    obtain ⟨first, old⟩ := binding
    by_cases hfirst : first = key
    · simp [setEntries, hfirst]
    · rw [get?_cons, if_neg hfirst] at h
      simp [setEntries, hfirst, ih h]

theorem mem_keys_iff {dict : Dict κ α} {key : κ} : key ∈ dict.keys ↔ (dict.get? key).isSome = true := by
  obtain ⟨entries⟩ := dict
  simp only [keys]
  induction entries with
  | nil => simp
  | cons binding rest ih =>
    obtain ⟨first, old⟩ := binding
    by_cases hfirst : first = key
    · simp [hfirst]
    · have hne : key ≠ first := Ne.symm hfirst
      simpa [hfirst, hne] using ih

theorem nodup_keys_set {dict : Dict κ α} (h : dict.keys.Nodup) (key : κ) (value : α) :
    (dict.set key value).keys.Nodup := by
  cases hget : dict.get? key with
  | some old => rwa [keys_set_of_isSome (by simp [hget])]
  | none =>
    have hkey : key ∉ dict.keys := by simp [mem_keys_iff, hget]
    rw [keys, set_of_get?_eq_none hget, List.map_append, List.nodup_append]
    refine ⟨h, by simp, ?_⟩
    intro first hfirst second hsecond heq
    obtain rfl : second = key := by simpa using hsecond
    exact hkey (heq ▸ hfirst)

/-- With distinct keys a binding is found under its key. -/
theorem get?_of_mem {dict : Dict κ α} (h : dict.keys.Nodup) {key : κ} {value : α}
    (hmem : (key, value) ∈ dict.entries) : dict.get? key = some value := by
  obtain ⟨entries⟩ := dict
  induction entries with
  | nil => cases hmem
  | cons binding rest ih =>
    obtain ⟨first, old⟩ := binding
    obtain ⟨hfirst, hrest⟩ := List.nodup_cons.mp h
    rcases List.mem_cons.mp hmem with heq | htail
    · obtain ⟨rfl, rfl⟩ := Prod.mk.inj heq
      simp
    · have hne : first ≠ key := by
        rintro rfl
        exact hfirst (List.mem_map.mpr ⟨_, htail, rfl⟩)
      rw [get?_cons, if_neg hne]
      exact ih hrest htail

/-- Writing new keys one after the other appends their bindings. -/
theorem foldl_set {dict : Dict κ α} {bindings : List (κ × α)} (hnew : ∀ binding ∈ bindings, dict.get? binding.1 = none)
    (hkeys : (bindings.map Prod.fst).Nodup) :
    (bindings.foldl (fun dict binding ↦ dict.set binding.1 binding.2) dict).entries = dict.entries ++ bindings := by
  induction bindings generalizing dict with
  | nil => exact (List.append_nil _).symm
  | cons binding rest ih =>
    obtain ⟨hfirst, hrest⟩ := List.nodup_cons.mp hkeys
    have hnext : ∀ other ∈ rest, (dict.set binding.1 binding.2).get? other.1 = none := by
      intro other hother
      have hne : ¬ binding.1 = other.1 := fun heq ↦ hfirst (heq ▸ List.mem_map.mpr ⟨other, hother, rfl⟩)
      rw [get?_set, if_neg hne]
      exact hnew other (List.mem_cons_of_mem _ hother)
    calc (rest.foldl (fun dict binding ↦ dict.set binding.1 binding.2) (dict.set binding.1 binding.2)).entries
        = (dict.set binding.1 binding.2).entries ++ rest := ih hnext hrest
      _ = dict.entries ++ binding :: rest := by
        rw [set_of_get?_eq_none (hnew binding List.mem_cons_self), List.append_assoc]
        rfl

/-! ## Views -/

/-- The comprehension over the bindings whose key has a name and whose value has a view. -/
def collect {ι : Type} (dict : Dict κ α) (pick : κ → Option ι) (view : α → Option β) : Dict ι β :=
  ⟨dict.entries.filterMap fun binding ↦
    (pick binding.1).bind fun name ↦ (view binding.2).map fun value ↦ (name, value)⟩

/-- When only one key has the name and every value has a view, the comprehension looks up the view under this key. -/
theorem get?_collect {ι : Type} [DecidableEq ι] {dict : Dict κ α} {pick : κ → Option ι} {view : α → Option β}
    {key : κ} {name : ι} (hpick : ∀ other, pick other = some name ↔ other = key)
    (hview : ∀ binding ∈ dict.entries, (view binding.2).isSome = true) :
    (dict.collect pick view).get? name = (dict.get? key).bind view := by
  obtain ⟨entries⟩ := dict
  induction entries with
  | nil => rfl
  | cons binding rest ih =>
    obtain ⟨first, value⟩ := binding
    obtain ⟨seen, hseen⟩ := Option.isSome_iff_exists.mp (hview _ List.mem_cons_self)
    have hrest := ih fun other hother ↦ hview other (List.mem_cons_of_mem _ hother)
    simp only [collect] at hrest ⊢
    rw [get?_cons, List.filterMap_cons]
    cases hfirst : pick first with
    | none =>
      have hne : first ≠ key := fun heq ↦ by simp [(hpick first).mpr heq] at hfirst
      rw [if_neg hne]
      exact hrest
    | some other =>
      have hsame : other = name ↔ first = key := by rw [← hpick first, hfirst, Option.some.injEq]
      simp only [Option.bind_some, hseen, Option.map_some, get?_cons, hsame, hrest]
      split
      · exact hseen.symm
      · rfl

end Dict

end DecisionCore
