import DecisionCore.Lib.MerkleBinding

/-!
# Hash trees as terms

The tree over a list of leaves with all copies of the padding written out, as a term of combinations.
All its leaves stand at one depth.  The value of the term is the root; two terms of one depth with the
same value are the same term, up to a clash.  A term is compared with a lower one by cutting it: what
lies below the cut is replaced by its value.
-/

namespace DecisionCore.MerkleTree

/-- A term of combinations over leaves. -/
inductive Term (α : Type) where
  | leaf (node : α)
  | join (left right : Term α)
  deriving DecidableEq

variable {α β : Type} (combine : α → α → α)

namespace Term

def value : Term α → α
  | leaf node => node
  | join left right => combine (value left) (value right)

/-- The pairs combined for the value. -/
def pairs : Term α → List (α × α)
  | leaf _ => []
  | join left right => (left.value combine, right.value combine) :: (pairs left ++ pairs right)

/-- The term with everything below a depth replaced by its value. -/
def cut : ℕ → Term α → Term α
  | 0, term => leaf (term.value combine)
  | _ + 1, leaf node => leaf node
  | depth + 1, join left right => join (cut depth left) (cut depth right)

/-- All leaves stand at the depth. -/
def Perfect : ℕ → Term α → Prop
  | 0, leaf _ => True
  | depth + 1, join left right => Perfect depth left ∧ Perfect depth right
  | _, _ => False

@[simp]
theorem value_cut (depth : ℕ) (term : Term α) : (term.cut combine depth).value combine = term.value combine := by
  induction depth generalizing term with
  | zero => rw [cut, value]
  | succ depth ih =>
    cases term with
    | leaf node => rw [cut]
    | join left right => rw [cut, value, value, ih, ih]

theorem pairs_cut_subset (depth : ℕ) (term : Term α) : (term.cut combine depth).pairs combine ⊆ term.pairs combine := by
  induction depth generalizing term with
  | zero =>
    rw [cut, pairs]
    exact List.nil_subset _
  | succ depth ih =>
    cases term with
    | leaf node => exact List.Subset.refl _
    | join left right =>
      rw [cut, pairs, pairs, value_cut, value_cut]
      apply List.cons_subset_cons
      exact List.append_subset.mpr
        ⟨List.subset_append_of_subset_left _ (ih left), List.subset_append_of_subset_right _ (ih right)⟩

theorem Perfect.cut {depth height : ℕ} {term : Term α} (h : Perfect depth term) (hheight : height ≤ depth) :
    Perfect height (term.cut combine height) := by
  induction height generalizing depth term with
  | zero => trivial
  | succ height ih =>
    obtain ⟨depth, rfl⟩ : ∃ lower, depth = lower + 1 := ⟨depth - 1, by omega⟩
    cases term with
    | leaf node => exact h.elim
    | join left right => exact ⟨ih h.1 (by omega), ih h.2 (by omega)⟩

/-- Terms of one depth with the same value are the same term. -/
theorem eq_of_value_eq {depth : ℕ} {first second : Term α} (hfirst : Perfect depth first)
    (hsecond : Perfect depth second) (h : first.value combine = second.value combine) :
    first = second ∨ Clash combine (first.pairs combine ++ second.pairs combine) := by
  induction depth generalizing first second with
  | zero =>
    cases first with
    | join left right => exact hfirst.elim
    | leaf node =>
      cases second with
      | join left right => exact hsecond.elim
      | leaf other => exact .inl (congrArg leaf h)
  | succ depth ih =>
    cases first with
    | leaf node => exact hfirst.elim
    | join left right =>
      cases second with
      | leaf node => exact hsecond.elim
      | join left' right' =>
        have hheads := Clash.eq_or ((join left right).pairs combine ++ (join left' right').pairs combine)
          (List.mem_append_left _ List.mem_cons_self) (List.mem_append_right _ List.mem_cons_self) h
        obtain hpair | hclash := hheads
        · obtain ⟨hleft, hright⟩ := Prod.mk.inj hpair
          have hbelow {part part' : Term α} (hpart : part.pairs combine ⊆ (join left right).pairs combine)
              (hpart' : part'.pairs combine ⊆ (join left' right').pairs combine)
              (hclash : Clash combine (part.pairs combine ++ part'.pairs combine)) :
              Clash combine ((join left right).pairs combine ++ (join left' right').pairs combine) :=
            hclash.mono (List.append_subset.mpr ⟨List.subset_append_of_subset_left _ hpart,
              List.subset_append_of_subset_right _ hpart'⟩)
          obtain rfl | hclash := ih hfirst.1 hsecond.1 hleft
          · obtain rfl | hclash := ih hfirst.2 hsecond.2 hright
            · exact .inl rfl
            · exact .inr (hbelow (by simp [pairs]) (by simp [pairs]) hclash)
          · exact .inr (hbelow (by simp [pairs]) (by simp [pairs]) hclash)
        · exact .inr hclash

end Term

/-! ## The term of a list of leaves -/

theorem pad_map (f : α → β) (level : List α) : pad (level.map f) = (pad level).map f := by
  unfold pad
  rw [List.length_map, List.getLast?_map]
  split
  · rw [List.map_append, Option.toList_map]
  · rfl

theorem neighbours_map (f : α → β) (level : List α) :
    neighbours (level.map f) = (neighbours level).map fun pair ↦ (f pair.1, f pair.2) := by
  induction level using pairUp.induct with
  | case1 first second rest ih =>
    rw [List.map_cons, List.map_cons, neighbours, neighbours, List.map_cons, ih]
  | case2 level h =>
    rcases level with _ | ⟨first, _ | ⟨second, rest⟩⟩
    · rfl
    · rfl
    · exact absurd rfl (h first second rest)

/-- A map that keeps combinations maps the levels of a tree to levels of a tree. -/
theorem levelsWith_map {other : β → β → β} {f : α → β} (hom : ∀ a b, f (combine a b) = other (f a) (f b))
    (fuel : ℕ) (level : List α) :
    levelsWith other fuel (level.map f) = (levelsWith combine fuel level).map (List.map f) := by
  induction fuel generalizing level with
  | zero => rfl
  | succ fuel ih =>
    rw [levelsWith, levelsWith, List.length_map]
    split
    · rfl
    · have hnext : pairUp other (pad (level.map f)) = (pairUp combine (pad level)).map f := by
        rw [pad_map, pairUp_eq_map, pairUp_eq_map, neighbours_map, List.map_map, List.map_map]
        apply List.map_congr_left
        intro pair _
        exact (hom pair.1 pair.2).symm
      rw [hnext, ih, pad_map, List.map_cons]

theorem pad_pad (level : List α) : pad (pad level) = pad level := by
  have hlength := length_pad level
  rw [pad, if_neg (by omega)]

/-- More fuel than the width of the level changes nothing. -/
theorem levelsWith_fuel {fuel more : ℕ} {level : List α} (hfuel : level.length ≤ fuel) (hmore : fuel ≤ more) :
    levelsWith combine more level = levelsWith combine fuel level := by
  induction fuel generalizing more level with
  | zero =>
    cases more with
    | zero => rfl
    | succ more =>
      have hshort : level.length ≤ 1 := by omega
      simp only [levelsWith, hshort, if_true]
  | succ fuel ih =>
    obtain ⟨more, rfl⟩ : ∃ lower, more = lower + 1 := ⟨more - 1, by omega⟩
    rw [levelsWith, levelsWith]
    split
    · rfl
    · have hlength : (pairUp combine (pad level)).length ≤ fuel := by
        rw [length_pairUp, length_pad]
        omega
      rw [ih hlength (by omega)]

/-- A tree has the levels of the tree over its padded leaves. -/
theorem levels_pad {leaves : List α} (hlong : 1 < leaves.length) :
    levels combine (pad leaves) = levels combine leaves := by
  have hlength := length_pad leaves
  have hround (level : List α) (hlevel : 1 < level.length) :
      levels combine level =
        pad level :: levelsWith combine (pairUp combine (pad level)).length (pairUp combine (pad level)) := by
    have hwidth : (pairUp combine (pad level)).length = (level.length + 1) / 2 := by
      rw [length_pairUp, length_pad]
      omega
    obtain ⟨fuel, hfuel⟩ : ∃ fuel, level.length = fuel + 1 := ⟨level.length - 1, by omega⟩
    rw [levels, hfuel, levelsWith, if_neg (by omega)]
    rw [levelsWith_fuel combine (le_refl _) (show (pairUp combine (pad level)).length ≤ fuel by omega)]
  rw [hround leaves hlong, hround (pad leaves) (by omega), pad_pad]

/-- Every round makes the terms one deeper. -/
theorem perfect_of_mem_level (depth : ℕ) {levels : List (List (Term α))} (hstacked : Stacked Term.join levels)
    (hbottom : ∀ level ∈ levels.head?, ∀ term ∈ level, Term.Perfect depth term) {index : ℕ}
    {level : List (Term α)} (hlevel : levels[index]? = some level) :
    ∀ term ∈ level, Term.Perfect (depth + index) term := by
  induction levels generalizing depth index with
  | nil => cases hlevel
  | cons lower rest ih =>
    cases index with
    | zero => exact hbottom level hlevel
    | succ index =>
      have hupper : ∀ level ∈ rest.head?, ∀ term ∈ level, Term.Perfect (depth + 1) term := by
        cases rest with
        | nil => simp
        | cons upper rest =>
          intro level hlevel term hterm
          obtain rfl := Option.some.inj hlevel
          obtain ⟨pair, hpair, rfl⟩ := hstacked.1 term hterm
          obtain ⟨hleft, hright⟩ := mem_of_mem_neighbours hpair
          exact ⟨hbottom lower rfl _ hleft, hbottom lower rfl _ hright⟩
      have hrest := ih (depth + 1) hstacked.tail hupper hlevel
      rwa [Nat.add_assoc, Nat.add_comm 1] at hrest

/-- The pairs of a term of a level are combined in the levels below it. -/
theorem pairs_of_mem_level (known : List (α × α)) {levels : List (List (Term α))}
    (hstacked : Stacked Term.join levels)
    (hbottom : ∀ level ∈ levels.head?, ∀ term ∈ level, Term.pairs combine term ⊆ known) {level : List (Term α)}
    (hlevel : level ∈ levels) :
    ∀ term ∈ level, Term.pairs combine term ⊆
      known ++ levelPairs (levels.map (List.map (Term.value combine))) := by
  induction levels generalizing known with
  | nil => cases hlevel
  | cons lower rest ih =>
    rw [List.map_cons, levelPairs, List.flatMap_cons, ← levelPairs]
    obtain rfl | hlevel := List.mem_cons.mp hlevel
    · intro term hterm
      exact List.subset_append_of_subset_left _ (hbottom level rfl term hterm)
    · let more := known ++ neighbours (lower.map (Term.value combine))
      have hupper : ∀ level ∈ rest.head?, ∀ term ∈ level, Term.pairs combine term ⊆ more := by
        cases rest with
        | nil => simp
        | cons upper rest =>
          intro level hlevel term hterm
          obtain rfl := Option.some.inj hlevel
          obtain ⟨pair, hpair, rfl⟩ := hstacked.1 term hterm
          obtain ⟨hleft, hright⟩ := mem_of_mem_neighbours hpair
          rw [Term.pairs]
          apply List.cons_subset.mpr
          refine ⟨List.mem_append_right _ ?_, List.append_subset.mpr ⟨?_, ?_⟩⟩
          · rw [neighbours_map]
            exact List.mem_map_of_mem hpair
          · exact List.subset_append_of_subset_left _ (hbottom lower rfl _ hleft)
          · exact List.subset_append_of_subset_left _ (hbottom lower rfl _ hright)
      have hrest := ih more hstacked.tail hupper hlevel
      rwa [List.append_assoc] at hrest

/-- The tree over the leaves as a term, with the copies of the padding written out. -/
def term? (leaves : List α) : Option (Term α) :=
  (levels Term.join (leaves.map Term.leaf)).getLast?.bind List.head?

theorem term?_pad {leaves : List α} (hlong : 1 < leaves.length) : term? (pad leaves) = term? leaves := by
  rw [term?, term?, ← pad_map, levels_pad Term.join (by rwa [List.length_map])]

/-- The term of a list of leaves: its value is the root, its leaves stand at the height of the tree, and its
pairs are those of the levels. -/
theorem exists_term {leaves : List α} (hne : leaves ≠ []) :
    ∃ term, term? leaves = some term ∧
      (levels combine leaves).getLast? = some [term.value combine] ∧
      Term.Perfect (Nat.clog 2 leaves.length) term ∧
      term.pairs combine ⊆ levelPairs (levels combine leaves) := by
  have hne' : leaves.map Term.leaf ≠ [] := by simpa using hne
  obtain ⟨term, htop⟩ := exists_top Term.join le_rfl hne'
  have hlevels : levels combine leaves =
      (levels Term.join (leaves.map Term.leaf)).map (List.map (Term.value combine)) := by
    have hmap := levelsWith_map Term.join (f := Term.value combine) (fun _ _ ↦ rfl) leaves.length
      (leaves.map Term.leaf)
    rw [List.map_map] at hmap
    rw [levels, levels, List.length_map, ← hmap]
    congr 1
    exact (List.map_id leaves).symm
  have hheight := length_levelsWith Term.join le_rfl hne'
  have hstacked := stacked_levelsWith Term.join (leaves.map Term.leaf).length (leaves.map Term.leaf)
  have hleaves : ∀ level ∈ (levels Term.join (leaves.map Term.leaf)).head?, ∀ term ∈ level,
      ∃ node, term = Term.leaf node := by
    intro level hlevel term hterm
    obtain ⟨rest, hrest⟩ : ∃ rest, levels Term.join (leaves.map Term.leaf) = level :: rest :=
      List.head?_eq_some_iff.mp hlevel
    rw [mem_head_levelsWith Term.join hrest] at hterm
    obtain ⟨node, -, rfl⟩ := List.mem_map.mp hterm
    exact ⟨node, rfl⟩
  refine ⟨term, ?_, ?_, ?_, ?_⟩
  · rw [term?, levels, htop]
    rfl
  · rw [hlevels, List.getLast?_map, levels, htop]
    rfl
  · have hlast : (levels Term.join (leaves.map Term.leaf))[Nat.clog 2 leaves.length]? = some [term] := by
      rw [levels, ← htop, List.getLast?_eq_getElem?, hheight, List.length_map, Nat.add_sub_cancel]
    have hperfect := perfect_of_mem_level 0 hstacked ?_ hlast term (List.mem_singleton_self term)
    · rwa [Nat.zero_add] at hperfect
    · intro level hlevel leaf hleaf
      obtain ⟨node, rfl⟩ := hleaves level hlevel leaf hleaf
      trivial
  · have hpairs := pairs_of_mem_level combine [] hstacked ?_ (List.mem_of_getLast? htop) term
      (List.mem_singleton_self term)
    · rwa [List.nil_append, ← levels, ← hlevels] at hpairs
    · intro level hlevel leaf hleaf
      obtain ⟨node, rfl⟩ := hleaves level hlevel leaf hleaf
      exact List.Subset.refl _

end DecisionCore.MerkleTree
