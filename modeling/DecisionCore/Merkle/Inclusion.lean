import DecisionCore.Application.Merkle
import DecisionCore.Lib.MerkleBinding
import DecisionCore.Lib.Sha256

/-!
# What an accepted inclusion proof shows

The proofs of a closed batch are complete, and a proof that the verifier accepts binds the leaf at the
position it spells.  The statements about accepted proofs end in a collision of the pair hash otherwise,
and the collision is found among the pairs that `close` and the verifier have hashed.
-/

namespace DecisionCore

open MerkleTree

/-- Two different inputs of 64 bytes with the same hash, among the pairs that were hashed. -/
def PairCollision (sha256 : Bytes → Bytes) (pairs : List (Bytes × Bytes)) : Prop :=
  ∃ first ∈ pairs, ∃ second ∈ pairs, (first.1 ++ first.2).length = 64 ∧ (second.1 ++ second.2).length = 64 ∧
    first.1 ++ first.2 ≠ second.1 ++ second.2 ∧
    hashPair sha256 first.1 first.2 = hashPair sha256 second.1 second.2

instance (sha256 : Bytes → Bytes) (pairs : List (Bytes × Bytes)) : Decidable (PairCollision sha256 pairs) := by
  unfold PairCollision
  infer_instance

/-- The side and the sibling of a step. -/
def ProofStep.toStep (step : ProofStep) : Side × Bytes := (step.position.toSide, step.siblingHash)

/-- The pairs that `close` has hashed. -/
def MerkleBatch.hashedPairs (batch : MerkleBatch) : List (Bytes × Bytes) := levelPairs batch.levels

/-- What the loop of the verifier ends with. -/
def proofRoot (sha256 : Bytes → Bytes) (leafHash : Bytes) (proof : List ProofStep) : Bytes :=
  climb (hashPair sha256) leafHash (proof.map ProofStep.toStep)

/-- The pairs that the verifier hashes. -/
def proofPairs (sha256 : Bytes → Bytes) (leafHash : Bytes) (proof : List ProofStep) : List (Bytes × Bytes) :=
  climbPairs (hashPair sha256) leafHash (proof.map ProofStep.toStep)

variable {sha256 : Bytes → Bytes}

/-- A clash of pairs of 32 bytes each is a collision. -/
theorem PairCollision.of_clash {before after : List (Bytes × Bytes)}
    (hbefore : ∀ pair ∈ before, pair.1.length = 32 ∧ pair.2.length = 32)
    (hafter : ∀ pair ∈ after, pair.1.length = 32 ∧ pair.2.length = 32)
    (h : Clash (hashPair sha256) (before ++ after)) : PairCollision sha256 (before ++ after) := by
  have hsize : ∀ pair ∈ before ++ after, pair.1.length = 32 ∧ pair.2.length = 32 := by
    intro pair hpair
    exact (List.mem_append.mp hpair).elim (hbefore pair) (hafter pair)
  obtain ⟨first, hfirst, second, hsecond, hne, hhash⟩ := h
  obtain ⟨hleft, hright⟩ := hsize first hfirst
  obtain ⟨hleft', hright'⟩ := hsize second hsecond
  refine ⟨first, hfirst, second, hsecond, ?_, ?_, ?_, hhash⟩
  · rw [List.length_append, hleft, hright]
  · rw [List.length_append, hleft', hright']
  · intro happend
    obtain ⟨heq, heq'⟩ := List.append_inj happend (hleft.trans hleft'.symm)
    exact hne (Prod.ext heq heq')

theorem verifyInclusionProof_iff {leafHash root : Bytes} {proof : List ProofStep} :
    verifyInclusionProof sha256 leafHash proof root = true ↔ proofRoot sha256 leafHash proof = root := by
  rw [verifyInclusionProof, decide_eq_true_iff, proofRoot, climb, List.foldl_map]
  apply iff_of_eq
  congr 2
  funext current step
  obtain ⟨sibling, position⟩ := step
  cases position
  · rfl
  · rfl

/-! ## Closed batches -/

section Closed

variable {leaves : List Bytes} {batch : MerkleBatch} {root : Bytes}

theorem MerkleBatch.close_ok (h : (MerkleBatch.ofLeaves leaves).close sha256 = .ok (batch, root)) :
    leaves ≠ [] ∧ batch = ⟨leaves, MerkleTree.levels (hashPair sha256) leaves⟩ ∧
      (MerkleTree.levels (hashPair sha256) leaves).getLast? = some [root] := by
  have hne : leaves ≠ [] := by
    rintro rfl
    simp [close, ofLeaves] at h
  obtain ⟨top, htop⟩ := exists_top (hashPair sha256) le_rfl hne
  rw [← MerkleTree.levels] at htop
  have hempty : leaves.isEmpty = false := by simpa using hne
  simp only [close, ofLeaves, hempty, Bool.false_eq_true, if_false, htop] at h
  obtain ⟨rfl, rfl⟩ := Prod.mk.inj (Except.ok.inj h)
  exact ⟨hne, rfl, htop⟩

theorem MerkleBatch.close_ok_pairs_length (hsize : ∀ data, (sha256 data).length = 32)
    (hleaves : ∀ leaf ∈ leaves, leaf.length = 32)
    (h : (MerkleBatch.ofLeaves leaves).close sha256 = .ok (batch, root)) :
    ∀ pair ∈ batch.hashedPairs, pair.1.length = 32 ∧ pair.2.length = 32 := by
  obtain ⟨-, rfl, -⟩ := close_ok h
  apply (stacked_levelsWith (hashPair sha256) leaves.length leaves).forall_mem_levelPairs
    (p := fun node ↦ node.length = 32)
  · intro first second
    exact hsize _
  · intro level hlevel node hnode
    obtain ⟨rest, hrest⟩ := List.head?_eq_some_iff.mp hlevel
    exact hleaves node ((mem_head_levelsWith _ hrest).mp hnode)

theorem proofPairs_length (hsize : ∀ data, (sha256 data).length = 32) {leafHash : Bytes}
    (hleaf : leafHash.length = 32) {proof : List ProofStep}
    (hproof : ∀ step ∈ proof, step.siblingHash.length = 32) :
    ∀ pair ∈ proofPairs sha256 leafHash proof, pair.1.length = 32 ∧ pair.2.length = 32 := by
  apply forall_mem_climbPairs (p := fun node : Bytes ↦ node.length = 32) _ (fun _ _ ↦ hsize _) hleaf
  intro step hstep
  obtain ⟨original, horiginal, rfl⟩ := List.mem_map.mp hstep
  exact hproof original horiginal

/-- The climb behind the proof of a leaf. -/
theorem MerkleBatch.exists_path (h : (MerkleBatch.ofLeaves leaves).close sha256 = .ok (batch, root)) {index : ℕ}
    {leaf : Bytes} (hleaf : leaves[index]? = some leaf) :
    ∃ steps, batch.proofFor index = .ok (steps.map fun step ↦ ⟨step.2, .ofSide step.1⟩) ∧
      climb (hashPair sha256) leaf steps = root ∧ steps.length = Nat.clog 2 leaves.length ∧
      steps.map Prod.fst = sides (Nat.clog 2 leaves.length) index ∧
      climbPairs (hashPair sha256) leaf steps ⊆ batch.hashedPairs := by
  obtain ⟨-, rfl, hroot⟩ := close_ok h
  obtain ⟨steps, top, hpath, htop, hclimb, hlength⟩ := levels_complete (hashPair sha256) hleaf
  obtain rfl : root = top := by simpa using hroot.symm.trans htop
  have hindex : index < leaves.length := (List.getElem?_eq_some_iff.mp hleaf).1
  have hlevels : (MerkleTree.levels (hashPair sha256) leaves).isEmpty = false := by
    rw [List.isEmpty_eq_false_iff]
    exact levelsWith_ne_nil _ _ _
  have hsides := path_sides hpath
  have hheight := congrArg List.length hsides
  rw [List.length_map, length_sides, hlength] at hheight
  refine ⟨steps, ?_, hclimb, hlength, ?_, climbPairs_path_subset _ le_rfl hleaf hpath⟩
  · simp [proofFor, hlevels, hindex, hpath]
  · rw [hsides, hheight]

end Closed

/-! ## Completeness -/

/-- Every non-empty batch closes, and its root accepts the proof of each of its leaves. -/
theorem closed_batch_proves_leaves (sha256 : Bytes → Bytes) {leaves : List Bytes} (hne : leaves ≠ []) :
    ∃ batch root, (MerkleBatch.ofLeaves leaves).close sha256 = .ok (batch, root) ∧
      ∀ (index : ℕ) (hindex : index < leaves.length), ∃ proof, batch.proofFor index = .ok proof ∧
        proof.length = Nat.clog 2 leaves.length ∧
        verifyInclusionProof sha256 leaves[index] proof root = true := by
  obtain ⟨batch, root, hclose, -, hproofs⟩ := MerkleBatch.close_complete sha256 hne
  refine ⟨batch, root, hclose, ?_⟩
  intro index hindex
  exact hproofs index leaves[index] (List.getElem?_eq_getElem hindex)

/-- Three leaves of 32 bytes. -/
def threeLeaves : List Bytes := [List.replicate 32 1, List.replicate 32 2, List.replicate 32 3]

theorem closed_batch_proves_three_leaves : ∃ batch root,
    (MerkleBatch.ofLeaves threeLeaves).close Sha256.digest = .ok (batch, root) ∧
      ∀ (index : ℕ) (hindex : index < threeLeaves.length), ∃ proof, batch.proofFor index = .ok proof ∧
        proof.length = Nat.clog 2 threeLeaves.length ∧
        verifyInclusionProof Sha256.digest threeLeaves[index] proof root = true :=
  closed_batch_proves_leaves Sha256.digest (by decide)

/-! ## Binding of positions -/

section Binding

variable {leaves : List Bytes} {batch : MerkleBatch} {root : Bytes}

/-- The positions of a proof spell an index: a sibling on the left stands for a set bit. -/
def Spells (proof : List ProofStep) (index : ℕ) : Prop :=
  ∀ height step, proof[height]? = some step → (step.position = .left ↔ index.testBit height = true)

theorem Spells.sides {proof : List ProofStep} {index : ℕ} (h : Spells proof index) :
    (proof.map ProofStep.toStep).map Prod.fst = MerkleTree.sides proof.length index := by
  have hspelled : (proof.map ProofStep.toStep).map Prod.fst =
      MerkleTree.sides ((proof.map ProofStep.toStep).map Prod.fst).length index := by
    apply eq_sides
    intro height side hside
    rw [List.map_map, List.getElem?_map, Option.map_eq_some_iff] at hside
    obtain ⟨step, hstep, rfl⟩ := hside
    rw [← h height step hstep]
    obtain ⟨sibling, position⟩ := step
    cases position
    · exact iff_of_true rfl rfl
    · exact iff_of_false Side.noConfusion ProofPosition.noConfusion
  rwa [List.length_map, List.length_map] at hspelled

theorem toStep_ofSide (proof : List ProofStep) :
    (proof.map ProofStep.toStep).map (fun step ↦ (⟨step.2, .ofSide step.1⟩ : ProofStep)) = proof := by
  rw [List.map_map]
  calc proof.map _ = proof.map id := by
        apply List.map_congr_left
        intro step _
        obtain ⟨sibling, position⟩ := step
        cases position
        · rfl
        · rfl
    _ = proof := List.map_id _

/-- Climbs from two leaves at one index of two batches of one size, to the same root. -/
theorem leaf_eq_of_root_eq {others : List Bytes} {other : MerkleBatch}
    (hclose : (MerkleBatch.ofLeaves leaves).close sha256 = .ok (batch, root))
    (hclose' : (MerkleBatch.ofLeaves others).close sha256 = .ok (other, root))
    (hlength : leaves.length = others.length) {index : ℕ} {leaf leaf' : Bytes}
    (hleaf : leaves[index]? = some leaf) (hleaf' : others[index]? = some leaf') :
    leaf = leaf' ∨ Clash (hashPair sha256) (batch.hashedPairs ++ other.hashedPairs) := by
  obtain ⟨steps, -, hclimb, -, hsides, hpairs⟩ := MerkleBatch.exists_path hclose hleaf
  obtain ⟨steps', -, hclimb', -, hsides', hpairs'⟩ := MerkleBatch.exists_path hclose' hleaf'
  rw [← hlength, ← hsides] at hsides'
  obtain ⟨heq, -⟩ | hclash := climb_binding _ hsides'.symm (hclimb.trans hclimb'.symm)
  · exact .inl heq
  · exact .inr (hclash.mono (List.append_subset.mpr
      ⟨List.subset_append_of_subset_left _ hpairs, List.subset_append_of_subset_right _ hpairs'⟩))

/-- An accepted proof of the height of the tree whose positions spell the index of a leaf is the proof of that
leaf, or there is a collision; and a batch of the same size with the same root has the same leaves, or there
is a collision. -/
theorem accepted_proof_binds_position (hsize : ∀ data, (sha256 data).length = 32)
    (hleaves : ∀ leaf ∈ leaves, leaf.length = 32)
    (hclose : (MerkleBatch.ofLeaves leaves).close sha256 = .ok (batch, root)) :
    (∀ (x : Bytes) (proof : List ProofStep) (index : ℕ), x.length = 32 →
      (∀ step ∈ proof, step.siblingHash.length = 32) → proof.length = Nat.clog 2 leaves.length →
      index < leaves.length → Spells proof index → verifyInclusionProof sha256 x proof root = true →
      (leaves[index]? = some x ∧ batch.proofFor index = .ok proof) ∨
        PairCollision sha256 (batch.hashedPairs ++ proofPairs sha256 x proof)) ∧
    ∀ (others : List Bytes) (other : MerkleBatch), others.length = leaves.length →
      (∀ leaf ∈ others, leaf.length = 32) →
      (MerkleBatch.ofLeaves others).close sha256 = .ok (other, root) →
      leaves = others ∨ PairCollision sha256 (batch.hashedPairs ++ other.hashedPairs) := by
  have hbatch := MerkleBatch.close_ok_pairs_length hsize hleaves hclose
  constructor
  · intro x proof index hx hsiblings hlength hindex hspells hverify
    rw [verifyInclusionProof_iff] at hverify
    have hleaf : leaves[index]? = some leaves[index] := List.getElem?_eq_getElem hindex
    obtain ⟨steps, hproof, hclimb, -, hsides, hpairs⟩ := MerkleBatch.exists_path hclose hleaf
    have hsame : (proof.map ProofStep.toStep).map Prod.fst = steps.map Prod.fst := by
      rw [hspells.sides, hlength, hsides]
    obtain ⟨rfl, rfl⟩ | hclash := climb_binding _ hsame (hverify.trans hclimb.symm)
    · left
      rw [toStep_ofSide] at hproof
      exact ⟨hleaf, hproof⟩
    · right
      exact PairCollision.of_clash hbatch (proofPairs_length hsize hx hsiblings) (hclash.mono
        (List.append_subset.mpr ⟨List.subset_append_right _ _, List.subset_append_of_subset_left _ hpairs⟩))
  · intro others other hlength hothers hclose'
    by_cases hclash : Clash (hashPair sha256) (batch.hashedPairs ++ other.hashedPairs)
    · exact .inr (PairCollision.of_clash hbatch (MerkleBatch.close_ok_pairs_length hsize hothers hclose') hclash)
    · left
      apply List.ext_getElem hlength.symm
      intro index hindex hindex'
      have hleaf := leaf_eq_of_root_eq hclose hclose' hlength.symm (List.getElem?_eq_getElem hindex)
        (List.getElem?_eq_getElem hindex')
      exact hleaf.resolve_right hclash

/-- The proof of the second of three leaves. -/
def secondLeafProof : List ProofStep :=
  [⟨List.replicate 32 1, .left⟩,
    ⟨hashPair Sha256.digest (List.replicate 32 3) (List.replicate 32 3), .right⟩]

theorem secondLeafProof_spells : Spells secondLeafProof 1 := by
  rintro (_ | _ | height) step hstep
  · obtain rfl := Option.some.inj hstep
    decide
  · obtain rfl := Option.some.inj hstep
    decide
  · cases hstep

theorem secondLeafProof_siblings : ∀ step ∈ secondLeafProof, step.siblingHash.length = 32 := by
  intro step hstep
  obtain rfl | hstep := List.mem_cons.mp hstep
  · rfl
  · obtain rfl := List.mem_singleton.mp hstep
    exact Sha256.digest_length _

theorem close_three (sha256 : Bytes → Bytes) (a b c : Bytes) : ∃ batch,
    (MerkleBatch.ofLeaves [a, b, c]).close sha256 =
      .ok (batch, hashPair sha256 (hashPair sha256 a b) (hashPair sha256 c c)) := by
  refine ⟨⟨[a, b, c], MerkleTree.levels (hashPair sha256) [a, b, c]⟩, ?_⟩
  simp [MerkleBatch.close, MerkleBatch.ofLeaves, MerkleTree.levels, levelsWith, pad, pairUp]

theorem exists_secondLeafProof : ∃ batch root,
    (MerkleBatch.ofLeaves threeLeaves).close Sha256.digest = .ok (batch, root) ∧
      verifyInclusionProof Sha256.digest (List.replicate 32 2) secondLeafProof root = true := by
  obtain ⟨batch, hclose⟩ :=
    close_three Sha256.digest (List.replicate 32 1) (List.replicate 32 2) (List.replicate 32 3)
  refine ⟨batch, _, hclose, ?_⟩
  rw [verifyInclusionProof_iff, secondLeafProof, proofRoot]
  simp only [List.map_cons, List.map_nil, climb_cons, ProofStep.toStep, ProofPosition.toSide, climbStep]
  rfl

theorem secondLeafProof_binds_position : ∃ batch root,
    (MerkleBatch.ofLeaves threeLeaves).close Sha256.digest = .ok (batch, root) ∧
      verifyInclusionProof Sha256.digest (List.replicate 32 2) secondLeafProof root = true ∧
      ((threeLeaves[1]? = some (List.replicate 32 2) ∧ batch.proofFor (1 : ℕ) = .ok secondLeafProof) ∨
        PairCollision Sha256.digest
          (batch.hashedPairs ++ proofPairs Sha256.digest (List.replicate 32 2) secondLeafProof)) := by
  obtain ⟨batch, root, hclose, hverify⟩ := exists_secondLeafProof
  refine ⟨batch, root, hclose, hverify, ?_⟩
  exact (accepted_proof_binds_position Sha256.digest_length (by decide) hclose).1 _ _ 1 rfl
    secondLeafProof_siblings (by decide) (by decide) secondLeafProof_spells hverify

end Binding

/-! ## Accepted proofs of other lengths -/

section Reaching

variable {leaves : List Bytes} {batch : MerkleBatch} {root : Bytes}

/-- An accepted proof that is not longer than the tree is high shows a node of the level it starts at; the
first steps of one that is not shorter lead to a leaf; or there is a collision. -/
theorem accepted_proof_reaches_tree (hsize : ∀ data, (sha256 data).length = 32)
    (hleaves : ∀ leaf ∈ leaves, leaf.length = 32)
    (hclose : (MerkleBatch.ofLeaves leaves).close sha256 = .ok (batch, root)) {x : Bytes} (hx : x.length = 32)
    {proof : List ProofStep} (hproof : ∀ step ∈ proof, step.siblingHash.length = 32)
    (hverify : verifyInclusionProof sha256 x proof root = true) :
    ((proof.length ≤ Nat.clog 2 leaves.length →
        ∃ level, batch.levels[Nat.clog 2 leaves.length - proof.length]? = some level ∧ x ∈ level) ∧
      (Nat.clog 2 leaves.length ≤ proof.length →
        proofRoot sha256 x (proof.take (proof.length - Nat.clog 2 leaves.length)) ∈ leaves)) ∨
      PairCollision sha256 (batch.hashedPairs ++ proofPairs sha256 x proof) := by
  rw [verifyInclusionProof_iff] at hverify
  have hbatch := MerkleBatch.close_ok_pairs_length hsize hleaves hclose
  obtain ⟨hne, rfl, htop⟩ := MerkleBatch.close_ok hclose
  have hheight := length_levelsWith (hashPair sha256) (le_refl leaves.length) hne
  rw [← MerkleTree.levels] at hheight
  obtain ⟨level, hlevel, hnode⟩ | hclash :=
    climb_reaches _ (stacked_levelsWith (hashPair sha256) leaves.length leaves) htop hverify
  · left
    rw [← MerkleTree.levels, hheight, Nat.add_sub_cancel, List.length_map] at hlevel hnode
    rw [← List.map_take] at hnode
    constructor
    · intro hshort
      refine ⟨level, hlevel, ?_⟩
      rw [Nat.sub_eq_zero_of_le hshort] at hnode
      exact hnode
    · intro hlong
      rw [Nat.sub_eq_zero_of_le hlong] at hlevel
      rw [← List.head?_eq_getElem?] at hlevel
      obtain ⟨rest, hrest⟩ := List.head?_eq_some_iff.mp hlevel
      exact (mem_head_levelsWith _ hrest).mp hnode
  · exact .inr (PairCollision.of_clash hbatch (proofPairs_length hsize hx hproof) hclash)

theorem secondLeafProof_reaches_tree : ∃ batch root,
    (MerkleBatch.ofLeaves threeLeaves).close Sha256.digest = .ok (batch, root) ∧
      verifyInclusionProof Sha256.digest (List.replicate 32 2) secondLeafProof root = true ∧
      (((2 ≤ 2 → ∃ level, batch.levels[2 - 2]? = some level ∧ List.replicate 32 2 ∈ level) ∧
        (2 ≤ 2 → proofRoot Sha256.digest (List.replicate 32 2) (secondLeafProof.take (2 - 2)) ∈ threeLeaves)) ∨
      PairCollision Sha256.digest
        (batch.hashedPairs ++ proofPairs Sha256.digest (List.replicate 32 2) secondLeafProof)) := by
  obtain ⟨batch, root, hclose, hverify⟩ := exists_secondLeafProof
  exact ⟨batch, root, hclose, hverify,
    accepted_proof_reaches_tree Sha256.digest_length (by decide) hclose rfl secondLeafProof_siblings hverify⟩

/-- The root of two leaves passes for a leaf of theirs: the verifier accepts it with the empty proof. -/
theorem root_passes_for_leaf : ∃ batch root,
    (MerkleBatch.ofLeaves [List.replicate 32 1, List.replicate 32 2]).close Sha256.digest = .ok (batch, root) ∧
      verifyInclusionProof Sha256.digest root [] root = true ∧ root.length = 32 ∧ root ∉ batch.leaves ∧
      ¬ PairCollision Sha256.digest (batch.hashedPairs ++ proofPairs Sha256.digest root []) := by
  refine ⟨_, _, rfl, verifyInclusionProof_iff.mpr rfl, Sha256.digest_length _, ?_, ?_⟩
  · decide +kernel
  · decide +kernel

end Reaching

end DecisionCore
