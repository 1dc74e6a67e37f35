import DecisionCore.Lib.MerkleTree

/-!
# What the root of a hash tree binds

Reductions to a clash: two different pairs with the same combination, both among the pairs that a
construction or a verification has combined.  A path that climbs to the root of a tree starts at the
node its sides lead to, a path of any length starts in the level it is as long as, and two trees of one
height with the same root are the same, each up to a clash.  The combining function is arbitrary.
-/

namespace DecisionCore.MerkleTree

variable {α : Type} (combine : α → α → α)

/-! ## Combined pairs -/

/-- The pairs combined in the construction of the levels. -/
def levelPairs (levels : List (List α)) : List (α × α) := levels.flatMap neighbours

/-- The pairs combined on a climb. -/
def climbPairs : α → List (Side × α) → List (α × α)
  | _, [] => []
  | current, step :: rest => stepPair current step :: climbPairs (climbStep combine current step) rest

/-- Two different pairs of the list have the same combination. -/
def Clash (pairs : List (α × α)) : Prop :=
  ∃ first ∈ pairs, ∃ second ∈ pairs, first ≠ second ∧ combine first.1 first.2 = combine second.1 second.2

theorem mem_of_mem_neighbours {level : List α} {pair : α × α} (h : pair ∈ neighbours level) :
    pair.1 ∈ level ∧ pair.2 ∈ level := by
  induction level using pairUp.induct with
  | case1 first second rest ih =>
    rw [neighbours] at h
    obtain rfl | hrest := List.mem_cons.mp h
    · simp
    · exact (ih hrest).imp (fun hmem ↦ by simp [hmem]) (fun hmem ↦ by simp [hmem])
  | case2 level hshort =>
    rcases level with _ | ⟨first, _ | ⟨second, rest⟩⟩
    · cases h
    · cases h
    · exact absurd rfl (hshort first second rest)

/-- A node stands in its pair. -/
theorem stepPair_mem {current : α} {step : Side × α} {pair : α × α} (h : stepPair current step = pair) :
    current = pair.1 ∨ current = pair.2 := by
  obtain ⟨side, sibling⟩ := step
  cases side
  · exact .inr (congrArg Prod.snd h)
  · exact .inl (congrArg Prod.fst h)

/-- On the same side a pair determines the node and its sibling. -/
theorem stepPair_inj {first second : α} {step other : Side × α} (hside : step.1 = other.1)
    (h : stepPair first step = stepPair second other) : first = second ∧ step = other := by
  obtain ⟨side, sibling⟩ := step
  obtain ⟨side', sibling'⟩ := other
  obtain rfl : side = side' := hside
  cases side
  · obtain ⟨rfl, rfl⟩ := Prod.mk.inj h
    exact ⟨rfl, rfl⟩
  · obtain ⟨rfl, rfl⟩ := Prod.mk.inj h
    exact ⟨rfl, rfl⟩

namespace Clash

variable {combine} {pairs more : List (α × α)}

theorem mono (hsubset : pairs ⊆ more) (h : Clash combine pairs) : Clash combine more := by
  obtain ⟨first, hfirst, second, hsecond, hclash⟩ := h
  exact ⟨first, hsubset hfirst, second, hsubset hsecond, hclash⟩

/-- Two pairs of a list with the same combination are the same pair, or they clash. -/
theorem eq_or (pairs : List (α × α)) {first second : α × α} (hfirst : first ∈ pairs) (hsecond : second ∈ pairs)
    (h : combine first.1 first.2 = combine second.1 second.2) : first = second ∨ Clash combine pairs := by
  by_cases heq : first = second
  · exact .inl heq
  · exact .inr ⟨first, hfirst, second, hsecond, heq, h⟩

end Clash

/-! ## Two climbs to one node -/

theorem climb_cons (current : α) (step : Side × α) (rest : List (Side × α)) :
    climb combine current (step :: rest) = climb combine (climbStep combine current step) rest := rfl

theorem climb_append (current : α) (first second : List (Side × α)) :
    climb combine current (first ++ second) = climb combine (climb combine current first) second :=
  List.foldl_append

/-- Climbs with the same sides that end in the same node are the same climb. -/
theorem climb_binding {steps others : List (Side × α)} {first second : α}
    (hsides : steps.map Prod.fst = others.map Prod.fst)
    (h : climb combine first steps = climb combine second others) :
    (first = second ∧ steps = others) ∨
      Clash combine (climbPairs combine first steps ++ climbPairs combine second others) := by
  induction steps generalizing others first second with
  | nil =>
    obtain rfl : others = [] := by simpa using hsides.symm
    exact .inl ⟨h, rfl⟩
  | cons step rest ih =>
    obtain _ | ⟨other, others⟩ := others
    · simp at hsides
    · obtain ⟨hside, hrests⟩ := List.cons.inj hsides
      rw [climb_cons, climb_cons] at h
      obtain ⟨hnode, rfl⟩ | hclash := ih hrests h
      · rw [climbStep_eq, climbStep_eq] at hnode
        have hpairs := Clash.eq_or
          (climbPairs combine first (step :: rest) ++ climbPairs combine second (other :: rest))
          (List.mem_append_left _ List.mem_cons_self) (List.mem_append_right _ List.mem_cons_self) hnode
        obtain hpair | hclash := hpairs
        · obtain ⟨rfl, rfl⟩ := stepPair_inj hside hpair
          exact .inl ⟨rfl, rfl⟩
        · exact .inr hclash
      · refine .inr (hclash.mono ?_)
        exact List.append_subset.mpr
          ⟨List.subset_append_of_subset_left _ (List.subset_cons_self _ _),
            List.subset_append_of_subset_right _ (List.subset_cons_self _ _)⟩

theorem climbPairs_append (current : α) (first second : List (Side × α)) :
    climbPairs combine current (first ++ second) =
      climbPairs combine current first ++ climbPairs combine (climb combine current first) second := by
  induction first generalizing current with
  | nil => rfl
  | cons step rest ih => rw [List.cons_append, climbPairs, ih, climb_cons, climbPairs, List.cons_append]

/-- A property of the node, the siblings and of combinations is one of all nodes combined on a climb. -/
theorem forall_mem_climbPairs {p : α → Prop} (hcombine : ∀ first second, p (combine first second)) {current : α}
    (hcurrent : p current) {steps : List (Side × α)} (hsteps : ∀ step ∈ steps, p step.2) :
    ∀ pair ∈ climbPairs combine current steps, p pair.1 ∧ p pair.2 := by
  induction steps generalizing current with
  | nil => simp [climbPairs]
  | cons step rest ih =>
    have hparent : p (climbStep combine current step) := by
      rw [climbStep_eq]
      exact hcombine _ _
    have hrest := ih hparent (fun other hother ↦ hsteps other (List.mem_cons_of_mem _ hother))
    intro pair hpair
    obtain rfl | hpair := List.mem_cons.mp hpair
    · obtain ⟨side, sibling⟩ := step
      have hsibling : p sibling := hsteps _ List.mem_cons_self
      cases side
      · exact ⟨hsibling, hcurrent⟩
      · exact ⟨hcurrent, hsibling⟩
    · exact hrest pair hpair

/-! ## The sides of a path -/

/-- The sides met on the way up from an index. -/
def sides : ℕ → ℕ → List Side
  | 0, _ => []
  | height + 1, index => siblingSide index :: sides height (index / 2)

theorem path_sides {levels : List (List α)} {index : ℕ} {steps : List (Side × α)}
    (h : path levels index = some steps) : steps.map Prod.fst = sides levels.length index := by
  induction levels generalizing index steps with
  | nil =>
    obtain rfl := Option.some.inj h
    rfl
  | cons level rest ih =>
    obtain ⟨sibling, -, h⟩ := Option.bind_eq_some_iff.mp h
    obtain ⟨tail, htail, h⟩ := Option.bind_eq_some_iff.mp h
    obtain rfl := Option.some.inj h
    rw [List.map_cons, List.length_cons, sides, ih htail]

@[simp]
theorem length_sides (height index : ℕ) : (sides height index).length = height := by
  induction height generalizing index with
  | zero => rfl
  | succ height ih => rw [sides, List.length_cons, ih]

/-- A sequence of sides that spells an index bit by bit is the one of the index. -/
theorem eq_sides {spelled : List Side} {index : ℕ}
    (h : ∀ height side, spelled[height]? = some side → (side = .left ↔ index.testBit height = true)) :
    spelled = sides spelled.length index := by
  induction spelled generalizing index with
  | nil => rfl
  | cons side rest ih =>
    have hfirst := h 0 side rfl
    have hrest : rest = sides rest.length (index / 2) := by
      apply ih
      intro height other hother
      rw [h (height + 1) other (by simpa using hother), Nat.testBit_succ]
    rw [List.length_cons, sides, ← hrest, siblingSide]
    rw [Nat.testBit_zero, decide_eq_true_iff] at hfirst
    split
    · rename_i hodd
      rw [hfirst.mpr hodd]
    · rename_i heven
      cases side with
      | left => exact absurd (hfirst.mp rfl) heven
      | right => rfl

/-! ## Levels -/

theorem mem_pad {level : List α} {node : α} : node ∈ pad level ↔ node ∈ level := by
  unfold pad
  split
  · rw [List.mem_append, Option.mem_toList]
    exact or_iff_left_of_imp List.mem_of_getLast?
  · rfl

/-- Every node of a level above the bottom combines two neighbours of the level below. -/
def Stacked : List (List α) → Prop
  | lower :: upper :: rest =>
    (∀ node ∈ upper, ∃ pair ∈ neighbours lower, combine pair.1 pair.2 = node) ∧ Stacked (upper :: rest)
  | _ => True

theorem Stacked.tail {level : List α} {rest : List (List α)} (h : Stacked combine (level :: rest)) :
    Stacked combine rest := by
  cases rest with
  | nil => trivial
  | cons upper rest => exact h.2

theorem Stacked.drop {levels : List (List α)} (h : Stacked combine levels) (count : ℕ) :
    Stacked combine (levels.drop count) := by
  induction count generalizing levels with
  | zero => exact h
  | succ count ih =>
    cases levels with
    | nil => exact h
    | cons level rest => exact ih h.tail

theorem mem_head_levelsWith {fuel : ℕ} {level bottom : List α} {rest : List (List α)}
    (h : levelsWith combine fuel level = bottom :: rest) {node : α} : node ∈ bottom ↔ node ∈ level := by
  cases fuel with
  | zero =>
    obtain ⟨rfl, -⟩ := List.cons.inj h
    rfl
  | succ fuel =>
    rw [levelsWith] at h
    split at h
    · obtain ⟨rfl, -⟩ := List.cons.inj h
      rfl
    · obtain ⟨rfl, -⟩ := List.cons.inj h
      exact mem_pad

theorem stacked_levelsWith (fuel : ℕ) (level : List α) : Stacked combine (levelsWith combine fuel level) := by
  induction fuel generalizing level with
  | zero => trivial
  | succ fuel ih =>
    rw [levelsWith]
    split
    · trivial
    · have hstacked := ih (pairUp combine (pad level))
      cases hrest : levelsWith combine fuel (pairUp combine (pad level)) with
      | nil => exact absurd hrest (levelsWith_ne_nil combine _ _)
      | cons upper rest =>
        rw [hrest] at hstacked
        refine ⟨?_, hstacked⟩
        intro node hnode
        rw [mem_head_levelsWith combine hrest, pairUp_eq_map] at hnode
        exact List.mem_map.mp hnode

/-- A property of the bottom level that combinations have is one of all levels. -/
theorem Stacked.forall_mem {p : α → Prop} (hcombine : ∀ first second, p (combine first second))
    {levels : List (List α)} (h : Stacked combine levels) (hbottom : ∀ level ∈ levels.head?, ∀ node ∈ level, p node) :
    ∀ level ∈ levels, ∀ node ∈ level, p node := by
  induction levels with
  | nil => simp
  | cons lower rest ih =>
    have hupper : ∀ level ∈ rest.head?, ∀ node ∈ level, p node := by
      cases rest with
      | nil => simp
      | cons upper rest =>
        rintro level hlevel node hnode
        obtain rfl := Option.some.inj hlevel
        obtain ⟨pair, -, rfl⟩ := h.1 node hnode
        exact hcombine pair.1 pair.2
    intro level hlevel
    obtain rfl | hlevel := List.mem_cons.mp hlevel
    · exact hbottom level rfl
    · exact ih h.tail hupper level hlevel

theorem Stacked.forall_mem_levelPairs {p : α → Prop} (hcombine : ∀ first second, p (combine first second))
    {levels : List (List α)} (h : Stacked combine levels) (hbottom : ∀ level ∈ levels.head?, ∀ node ∈ level, p node) :
    ∀ pair ∈ levelPairs levels, p pair.1 ∧ p pair.2 := by
  intro pair hpair
  obtain ⟨level, hlevel, hpair⟩ := List.mem_flatMap.mp hpair
  obtain ⟨hleft, hright⟩ := mem_of_mem_neighbours hpair
  have hnodes := h.forall_mem combine hcombine hbottom level hlevel
  exact ⟨hnodes _ hleft, hnodes _ hright⟩

/-- The pairs of a path are among those of the levels it is a path of. -/
theorem climbPairs_path_subset {fuel : ℕ} {level : List α} (hfuel : level.length ≤ fuel) {index : ℕ} {node : α}
    (hnode : level[index]? = some node) {steps : List (Side × α)}
    (hpath : path (levelsWith combine fuel level).dropLast index = some steps) :
    climbPairs combine node steps ⊆ levelPairs (levelsWith combine fuel level) := by
  have hindex : index < level.length := (List.getElem?_eq_some_iff.mp hnode).1
  induction fuel generalizing level index node steps with
  | zero => omega
  | succ fuel ih =>
    rw [levelsWith] at hpath ⊢
    split at hpath
    · obtain rfl := Option.some.inj hpath
      exact List.nil_subset _
    · rename_i hlong
      have hrest := levelsWith_ne_nil combine fuel (pairUp combine (pad level))
      rw [if_neg hlong, levelPairs, List.flatMap_cons, ← levelPairs]
      rw [List.dropLast_cons_of_ne_nil hrest] at hpath
      obtain ⟨sibling, hsibling, hpath⟩ := Option.bind_eq_some_iff.mp hpath
      obtain ⟨tail, htail, hpath⟩ := Option.bind_eq_some_iff.mp hpath
      obtain rfl := Option.some.inj hpath
      have hpadded : (pad level)[index]? = some node := (getElem?_pad hindex).trans hnode
      have hlength : (pairUp combine (pad level)).length = (level.length + 1) / 2 := by
        rw [length_pairUp, length_pad]
        omega
      rw [climbPairs]
      apply List.cons_subset.mpr
      refine ⟨?_, ?_⟩
      · have hpair := getElem?_neighbours_parent hpadded hsibling
        exact List.mem_append_left _ (List.mem_of_getElem? hpair)
      · have hparent := getElem?_pairUp_parent combine hpadded hsibling
        exact List.subset_append_of_subset_right _ (ih (by omega) hparent htail (by omega))

/-! ## Climbs to the top of stacked levels -/

/-- A climb through all levels to the only node of the top starts at the bottom. -/
theorem mem_of_climb {levels : List (List α)} (hstacked : Stacked combine levels) {root : α}
    (htop : levels.getLast? = some [root]) {node : α} {steps : List (Side × α)}
    (hlength : steps.length + 1 = levels.length) (hclimb : climb combine node steps = root) :
    (∃ level, levels.head? = some level ∧ node ∈ level) ∨
      Clash combine (levelPairs levels ++ climbPairs combine node steps) := by
  induction levels generalizing node steps with
  | nil => cases hlength
  | cons lower rest ih =>
    cases steps with
    | nil =>
      obtain rfl : rest = [] := by simpa using hlength.symm
      obtain rfl := Option.some.inj htop
      exact .inl ⟨[root], rfl, by rw [List.mem_singleton]; exact hclimb⟩
    | cons step steps =>
      obtain ⟨upper, others, rfl⟩ : ∃ upper others, rest = upper :: others := by
        cases rest with
        | nil => simp at hlength
        | cons upper others => exact ⟨upper, others, rfl⟩
      rw [climb_cons] at hclimb
      have hheight : steps.length + 1 = (upper :: others).length := Nat.succ_injective hlength
      have hrest := ih hstacked.tail htop hheight hclimb
      rw [levelPairs, List.flatMap_cons, ← levelPairs, climbPairs]
      obtain ⟨level, hlevel, hnode⟩ | hclash := hrest
      · -- The parent is a node of the level above, so a pair below has its combination.
        obtain rfl := Option.some.inj hlevel
        obtain ⟨pair, hpair, hparent⟩ := hstacked.1 _ hnode
        rw [climbStep_eq] at hparent
        have hpairs := Clash.eq_or
          (neighbours lower ++ levelPairs (upper :: others) ++
            stepPair node step :: climbPairs combine (climbStep combine node step) steps)
          (List.mem_append_left _ (List.mem_append_left _ hpair))
          (List.mem_append_right _ List.mem_cons_self) hparent
        obtain rfl | hclash := hpairs
        · obtain ⟨hleft, hright⟩ := mem_of_mem_neighbours hpair
          obtain hnode | hnode := stepPair_mem (rfl : stepPair node step = stepPair node step)
          · exact .inl ⟨lower, rfl, hnode ▸ hleft⟩
          · exact .inl ⟨lower, rfl, hnode ▸ hright⟩
        · exact .inr hclash
      · refine .inr (hclash.mono (List.append_subset.mpr ⟨?_, ?_⟩))
        · exact List.subset_append_of_subset_left _ (List.subset_append_right _ _)
        · exact List.subset_append_of_subset_right _ (List.subset_cons_self _ _)

theorem levelPairs_drop_subset (levels : List (List α)) (count : ℕ) :
    levelPairs (levels.drop count) ⊆ levelPairs levels := by
  unfold levelPairs
  intro pair hpair
  obtain ⟨level, hlevel, hpair⟩ := List.mem_flatMap.mp hpair
  exact List.mem_flatMap.mpr ⟨level, List.mem_of_mem_drop hlevel, hpair⟩

/-- A climb to the top is as long as the levels are high above the node it starts at; the first steps of a
climb that is longer than all of them lead to the bottom. -/
theorem climb_reaches {levels : List (List α)} (hstacked : Stacked combine levels) {root : α}
    (htop : levels.getLast? = some [root]) {node : α} {steps : List (Side × α)}
    (hclimb : climb combine node steps = root) :
    (∃ level, levels[levels.length - 1 - steps.length]? = some level ∧
        climb combine node (steps.take (steps.length - (levels.length - 1))) ∈ level) ∨
      Clash combine (levelPairs levels ++ climbPairs combine node steps) := by
  have hpos : 0 < levels.length := by
    apply List.length_pos_of_ne_nil
    rintro rfl
    cases htop
  set below := steps.take (steps.length - (levels.length - 1)) with hbelow
  set above := steps.drop (steps.length - (levels.length - 1)) with habove
  set upper := levels.drop (levels.length - 1 - steps.length) with hupper
  have hsplit : below ++ above = steps := List.take_append_drop _ steps
  have hlast : upper.getLast? = some [root] := by
    rw [hupper, List.getLast?_drop, if_neg (by omega), htop]
  have hlength : above.length + 1 = upper.length := by
    rw [habove, hupper, List.length_drop, List.length_drop]
    omega
  rw [← hsplit, climb_append] at hclimb
  obtain ⟨level, hlevel, hnode⟩ | hclash := mem_of_climb combine (hstacked.drop _ _) hlast hlength hclimb
  · refine .inl ⟨level, ?_, hnode⟩
    rw [List.head?_drop] at hlevel
    exact hlevel
  · refine .inr (hclash.mono (List.append_subset.mpr ⟨?_, ?_⟩))
    · exact List.subset_append_of_subset_left _ (levelPairs_drop_subset _ _)
    · rw [← hsplit, climbPairs_append]
      exact List.subset_append_of_subset_right _ (List.subset_append_right _ _)

/-! ## Lists of one length -/

theorem map_eq_or_ne {β : Type} {f : α → β} {first second : List α} (h : first.map f = second.map f) :
    first = second ∨ ∃ a ∈ first, ∃ b ∈ second, a ≠ b ∧ f a = f b := by
  induction first generalizing second with
  | nil => exact .inl (List.map_eq_nil_iff.mp h.symm).symm
  | cons a rest ih =>
    cases second with
    | nil => cases h
    | cons b more =>
      obtain ⟨hhead, htail⟩ := List.cons.inj h
      by_cases hab : a = b
      · obtain rfl | ⟨x, hx, y, hy, hne, heq⟩ := ih htail
        · exact .inl (congrArg (· :: rest) hab)
        · exact .inr ⟨x, List.mem_cons_of_mem _ hx, y, List.mem_cons_of_mem _ hy, hne, heq⟩
      · exact .inr ⟨a, List.mem_cons_self, b, List.mem_cons_self, hab, hhead⟩

/-- A level of even width is the one its neighbours stand in. -/
theorem eq_of_neighbours_eq {first second : List α} (hlength : first.length = second.length)
    (heven : first.length % 2 = 0) (h : neighbours first = neighbours second) : first = second := by
  induction first using pairUp.induct generalizing second with
  | case1 a b rest ih =>
    rcases second with _ | ⟨c, _ | ⟨d, more⟩⟩
    · cases hlength
    · cases hlength
    · rw [neighbours, neighbours] at h
      obtain ⟨hpair, hrest⟩ := List.cons.inj h
      obtain ⟨rfl, rfl⟩ := Prod.mk.inj hpair
      simp only [List.length_cons] at hlength heven
      rw [ih (by omega) (by omega) hrest]
  | case2 level hshort =>
    rcases level with _ | ⟨a, _ | ⟨b, rest⟩⟩
    · exact (List.length_eq_zero_iff.mp hlength.symm).symm
    · cases heven
    · exact absurd rfl (hshort a b rest)

theorem eq_of_pad_eq {first second : List α} (hlength : first.length = second.length) (h : pad first = pad second) :
    first = second := by
  apply List.ext_getElem?
  intro index
  by_cases hindex : index < first.length
  · calc first[index]? = (pad first)[index]? := (getElem?_pad hindex).symm
      _ = (pad second)[index]? := by rw [h]
      _ = second[index]? := getElem?_pad (by omega)
  · rw [List.getElem?_eq_none (by omega), List.getElem?_eq_none (by omega)]

/-- Levels of one width with the same top are the same, or their trees clash. -/
theorem eq_of_getLast?_levelsWith {fuel : ℕ} {first second : List α} (hlength : first.length = second.length)
    (hfuel : first.length ≤ fuel)
    (htop : (levelsWith combine fuel first).getLast? = (levelsWith combine fuel second).getLast?) :
    first = second ∨
      Clash combine (levelPairs (levelsWith combine fuel first) ++ levelPairs (levelsWith combine fuel second)) := by
  induction fuel generalizing first second with
  | zero =>
    rw [levelsWith, levelsWith, List.getLast?_singleton, List.getLast?_singleton] at htop
    exact .inl (Option.some.inj htop)
  | succ fuel ih =>
    rw [levelsWith, levelsWith, ← hlength] at htop ⊢
    by_cases hshort : first.length ≤ 1
    · rw [if_pos hshort, if_pos hshort, List.getLast?_singleton, List.getLast?_singleton] at htop
      exact .inl (Option.some.inj htop)
    · rw [if_neg hshort, if_neg hshort] at htop ⊢
      have hpad : (pad first).length = (pad second).length := by rw [length_pad, length_pad, hlength]
      have hupper : (pairUp combine (pad first)).length = (pairUp combine (pad second)).length := by
        rw [length_pairUp, length_pairUp, hpad]
      have hwidth : (pairUp combine (pad first)).length ≤ fuel := by
        rw [length_pairUp, length_pad]
        omega
      rw [List.getLast?_cons_of_ne_nil (levelsWith_ne_nil combine _ _),
        List.getLast?_cons_of_ne_nil (levelsWith_ne_nil combine _ _)] at htop
      simp only [levelPairs, List.flatMap_cons]
      obtain hsame | hclash := ih hupper hwidth htop
      · rw [pairUp_eq_map, pairUp_eq_map] at hsame
        obtain hneighbours | ⟨a, ha, b, hb, hne, heq⟩ := map_eq_or_ne hsame
        · left
          apply eq_of_pad_eq hlength
          apply eq_of_neighbours_eq hpad _ hneighbours
          rw [length_pad]
          omega
        · right
          exact ⟨a, List.mem_append_left _ (List.mem_append_left _ ha), b,
            List.mem_append_right _ (List.mem_append_left _ hb), hne, heq⟩
      · right
        refine hclash.mono (List.append_subset.mpr ⟨?_, ?_⟩)
        · exact List.subset_append_of_subset_left _ (List.subset_append_right _ _)
        · exact List.subset_append_of_subset_right _ (List.subset_append_right _ _)

/-- Two lists of leaves of one length with the same root are the same, or their trees clash. -/
theorem eq_of_getLast?_levels {first second : List α} (hlength : first.length = second.length)
    (htop : (levels combine first).getLast? = (levels combine second).getLast?) :
    first = second ∨ Clash combine (levelPairs (levels combine first) ++ levelPairs (levels combine second)) := by
  unfold levels at htop ⊢
  rw [← hlength] at htop ⊢
  exact eq_of_getLast?_levelsWith combine hlength le_rfl htop

end DecisionCore.MerkleTree
