import Mathlib.Data.Nat.Log
import Mathlib.Data.List.Basic
import Mathlib.Tactic.Common

/-!
# Hash trees over padded levels

A tree over a list of nodes is the list of its levels.  A level of odd width is padded with a copy
of its last node before its nodes are combined in pairs, so that the stored levels, the last one
excepted, have even width.  An inclusion path lists one sibling for each stored level; climbing it
from a node of the bottom level ends in the only node of the top level.  The combining function is
arbitrary.
-/

namespace DecisionCore.MerkleTree

/-- The side a sibling stands on. -/
inductive Side where
  | left
  | right
  deriving DecidableEq, Repr

variable {α : Type} (combine : α → α → α)

/-- Duplicate the last node of a level of odd width. -/
def pad (level : List α) : List α :=
  if level.length % 2 = 1 then level ++ level.getLast?.toList else level

/-- Combine the nodes at `2 * i` and `2 * i + 1`. -/
def pairUp : List α → List α
  | first :: second :: rest => combine first second :: pairUp rest
  | _ => []

/-- Levels from the bottom to the top; each round of the loop consumes one unit of fuel. -/
def levelsWith : ℕ → List α → List (List α)
  | 0, level => [level]
  | fuel + 1, level =>
    if level.length ≤ 1 then [level] else pad level :: levelsWith fuel (pairUp combine (pad level))

/-- All levels of the tree.  A level at least halves, so its width is enough fuel. -/
def levels (leaves : List α) : List (List α) := levelsWith combine leaves.length leaves

def siblingIndex (index : ℕ) : ℕ := if index % 2 = 1 then index - 1 else index + 1

def siblingSide (index : ℕ) : Side := if index % 2 = 1 then .left else .right

/-- The siblings met on the way up from `index`, `none` when a level is too short. -/
def path : List (List α) → ℕ → Option (List (Side × α))
  | [], _ => some []
  | level :: rest, index => do
    let sibling ← level[siblingIndex index]?
    let steps ← path rest (index / 2)
    return (siblingSide index, sibling) :: steps

/-- One step of the verifier. -/
def climbStep (current : α) (step : Side × α) : α :=
  match step.1 with
  | .right => combine current step.2
  | .left => combine step.2 current

def climb (leaf : α) (steps : List (Side × α)) : α := steps.foldl (climbStep combine) leaf

theorem length_pad (level : List α) : (pad level).length = 2 * ((level.length + 1) / 2) := by
  unfold pad
  split
  · rename_i hodd
    have hne : level ≠ [] := by
      rintro rfl
      simp at hodd
    rw [List.getLast?_eq_some_getLast hne]
    simp only [Option.toList_some, List.length_append, List.length_singleton]
    omega
  · omega

/-- Padding never moves a real node. -/
theorem getElem?_pad {level : List α} {index : ℕ} (h : index < level.length) :
    (pad level)[index]? = level[index]? := by
  unfold pad
  split
  · rw [List.getElem?_append_left h]
  · rfl

/-- The pairs of neighbours that `pairUp` combines. -/
def neighbours : List α → List (α × α)
  | first :: second :: rest => (first, second) :: neighbours rest
  | _ => []

theorem pairUp_eq_map (level : List α) :
    pairUp combine level = (neighbours level).map fun pair ↦ combine pair.1 pair.2 := by
  induction level using pairUp.induct with
  | case1 first second rest ih => rw [pairUp, neighbours, List.map_cons, ih]
  | case2 level h =>
    rcases level with _ | ⟨first, _ | ⟨second, rest⟩⟩
    · rfl
    · rfl
    · exact absurd rfl (h first second rest)

theorem length_neighbours (level : List α) : (neighbours level).length = level.length / 2 := by
  induction level using pairUp.induct with
  | case1 first second rest ih => simp only [neighbours, List.length_cons, ih]; omega
  | case2 level h =>
    rcases level with _ | ⟨first, _ | ⟨second, rest⟩⟩
    · simp [neighbours]
    · simp [neighbours]
    · exact absurd rfl (h first second rest)

theorem getElem?_neighbours {level : List α} {index : ℕ} {first second : α}
    (hfirst : level[2 * index]? = some first) (hsecond : level[2 * index + 1]? = some second) :
    (neighbours level)[index]? = some (first, second) := by
  induction index generalizing level with
  | zero =>
    rcases level with _ | ⟨a, _ | ⟨b, rest⟩⟩
    · simp at hfirst
    · simp at hsecond
    · simp only [Nat.mul_zero, List.getElem?_cons_zero, Option.some.injEq, Nat.zero_add,
        List.getElem?_cons_succ] at hfirst hsecond
      simp [neighbours, hfirst, hsecond]
  | succ index ih =>
    rcases level with _ | ⟨a, _ | ⟨b, rest⟩⟩
    · simp at hfirst
    · simp [Nat.mul_add] at hfirst
    · have hdouble : 2 * (index + 1) = 2 * index + 1 + 1 := by omega
      rw [hdouble] at hfirst hsecond
      simp only [List.getElem?_cons_succ] at hfirst hsecond
      simpa [neighbours] using ih hfirst hsecond

theorem length_pairUp (level : List α) : (pairUp combine level).length = level.length / 2 := by
  rw [pairUp_eq_map, List.length_map, length_neighbours]

/-- The pair of a node and its sibling, in the order of the sides. -/
def stepPair (current : α) (step : Side × α) : α × α :=
  match step.1 with
  | .right => (current, step.2)
  | .left => (step.2, current)

theorem climbStep_eq (current : α) (step : Side × α) :
    climbStep combine current step = combine (stepPair current step).1 (stepPair current step).2 := by
  obtain ⟨side, sibling⟩ := step
  cases side
  · rfl
  · rfl

/-- A node and its sibling are neighbours. -/
theorem getElem?_neighbours_parent {level : List α} {index : ℕ} {node sibling : α}
    (hnode : level[index]? = some node) (hsibling : level[siblingIndex index]? = some sibling) :
    (neighbours level)[index / 2]? = some (stepPair node (siblingSide index, sibling)) := by
  rcases Nat.mod_two_eq_zero_or_one index with heven | hodd
  · have hindex : 2 * (index / 2) = index := by omega
    simp only [siblingIndex, siblingSide, heven, if_false, stepPair, Nat.zero_ne_one] at hsibling ⊢
    exact getElem?_neighbours (by rw [hindex]; exact hnode) (by rw [hindex]; exact hsibling)
  · have hindex : 2 * (index / 2) + 1 = index := by omega
    have hbefore : 2 * (index / 2) = index - 1 := by omega
    simp only [siblingIndex, siblingSide, hodd, if_true, stepPair] at hsibling ⊢
    exact getElem?_neighbours (by rw [hbefore]; exact hsibling) (by rw [hindex]; exact hnode)

/-- The parent of a node combines it with its sibling, in the order of the sides. -/
theorem getElem?_pairUp_parent {level : List α} {index : ℕ} {node sibling : α}
    (hnode : level[index]? = some node) (hsibling : level[siblingIndex index]? = some sibling) :
    (pairUp combine level)[index / 2]? =
      some (climbStep combine node (siblingSide index, sibling)) := by
  rw [pairUp_eq_map, List.getElem?_map, getElem?_neighbours_parent hnode hsibling, Option.map_some,
    climbStep_eq]

theorem siblingIndex_lt_length_pad {level : List α} {index : ℕ} (h : index < level.length) :
    siblingIndex index < (pad level).length := by
  rw [length_pad]
  unfold siblingIndex
  split <;> omega

theorem clog_two_step {width : ℕ} (h : 1 < width) :
    Nat.clog 2 width = Nat.clog 2 ((width + 1) / 2) + 1 := by
  rw [Nat.clog_of_one_lt (by decide) h]
  congr 2

theorem levelsWith_ne_nil (fuel : ℕ) (level : List α) : levelsWith combine fuel level ≠ [] := by
  cases fuel with
  | zero => simp [levelsWith]
  | succ fuel => simp only [levelsWith]; split <;> simp

/-- With enough fuel the walk up from any real node succeeds, has one step for each level below the
top, and ends in the only node of the top level. -/
theorem levelsWith_complete {fuel : ℕ} {level : List α} (hfuel : level.length ≤ fuel)
    {index : ℕ} {node : α} (hnode : level[index]? = some node) :
    ∃ steps root, path (levelsWith combine fuel level).dropLast index = some steps ∧
      (levelsWith combine fuel level).getLast? = some [root] ∧ climb combine node steps = root ∧
      steps.length = Nat.clog 2 level.length := by
  have hindex : index < level.length := (List.getElem?_eq_some_iff.mp hnode).1
  induction fuel generalizing level index node with
  | zero => omega
  | succ fuel ih =>
    by_cases hsmall : level.length ≤ 1
    · -- The loop stops at once: the level is the top and the node is its root.
      obtain ⟨only, rfl⟩ := List.length_eq_one_iff.mp (by omega : level.length = 1)
      obtain rfl : index = 0 := by simpa using hindex
      refine ⟨[], only, by simp [levelsWith, path], by simp [levelsWith], ?_, by simp⟩
      simpa [climb] using hnode.symm
    · obtain ⟨sibling, hsibling⟩ : ∃ sibling, (pad level)[siblingIndex index]? = some sibling :=
        ⟨_, List.getElem?_eq_getElem (siblingIndex_lt_length_pad hindex)⟩
      have hpadded : (pad level)[index]? = some node := (getElem?_pad hindex).trans hnode
      have hparent := getElem?_pairUp_parent combine hpadded hsibling
      have hlength : (pairUp combine (pad level)).length = (level.length + 1) / 2 := by
        rw [length_pairUp, length_pad]
        omega
      obtain ⟨steps, root, hpath, hlast, hclimb, hsteps⟩ :=
        ih (by omega) hparent (by omega)
      have hrest := levelsWith_ne_nil combine fuel (pairUp combine (pad level))
      refine ⟨(siblingSide index, sibling) :: steps, root, ?_, ?_, ?_, ?_⟩
      · simp only [levelsWith, hsmall, if_false, List.dropLast_cons_of_ne_nil hrest, path, hsibling,
          hpath]
        rfl
      · simp only [levelsWith, hsmall, if_false, List.getLast?_cons_of_ne_nil hrest, hlast]
      · simpa [climb] using hclimb
      · rw [List.length_cons, hsteps, hlength, ← clog_two_step (by omega)]

/-- The number of rounds is the height of the tree. -/
theorem length_levelsWith {fuel : ℕ} {level : List α} (hfuel : level.length ≤ fuel) (hne : level ≠ []) :
    (levelsWith combine fuel level).length = Nat.clog 2 level.length + 1 := by
  have hpos := List.length_pos_of_ne_nil hne
  induction fuel generalizing level with
  | zero => omega
  | succ fuel ih =>
    rw [levelsWith]
    split
    · have hone : level.length = 1 := by omega
      rw [hone]
      rfl
    · have hlength : (pairUp combine (pad level)).length = (level.length + 1) / 2 := by
        rw [length_pairUp, length_pad]
        omega
      rw [List.length_cons, ih (by omega) (List.ne_nil_of_length_pos (by omega)) (by omega), hlength,
        ← clog_two_step (by omega)]

/-- Only the top level of a tree is its last. -/
theorem exists_top {fuel : ℕ} {level : List α} (hfuel : level.length ≤ fuel) (hne : level ≠ []) :
    ∃ root, (levelsWith combine fuel level).getLast? = some [root] := by
  obtain ⟨first, hfirst⟩ : ∃ first, level[0]? = some first :=
    ⟨_, List.getElem?_eq_getElem (List.length_pos_of_ne_nil hne)⟩
  obtain ⟨-, root, -, hlast, -, -⟩ := levelsWith_complete combine hfuel hfirst
  exact ⟨root, hlast⟩

/-- Every leaf of a tree climbs to the root along its own path. -/
theorem levels_complete {leaves : List α} {index : ℕ} {leaf : α}
    (hleaf : leaves[index]? = some leaf) :
    ∃ steps root, path (levels combine leaves).dropLast index = some steps ∧
      (levels combine leaves).getLast? = some [root] ∧ climb combine leaf steps = root ∧
      steps.length = Nat.clog 2 leaves.length :=
  levelsWith_complete combine le_rfl hleaf

end DecisionCore.MerkleTree
