import DecisionCore.Lib.MerkleTerm
import DecisionCore.Merkle.Inclusion

/-!
# What the root of a batch determines

Two batches have one root when their trees, with the copies of the padding written out, are the same tree
at the height of the lower one.  Up to a collision of the pair hash there is no other case, so that the
root determines a batch among those whose trees differ there.
-/

namespace DecisionCore

open MerkleTree

variable {sha256 : Bytes → Bytes}

/-- The trees of two batches, with the copies of the padding written out and the higher one cut at the height
of the lower one, are the same. -/
def SameTree (sha256 : Bytes → Bytes) (leaves others : List Bytes) : Prop :=
  let height := min (Nat.clog 2 leaves.length) (Nat.clog 2 others.length)
  (term? leaves).map (Term.cut (hashPair sha256) height) = (term? others).map (Term.cut (hashPair sha256) height)

instance (sha256 : Bytes → Bytes) (leaves others : List Bytes) : Decidable (SameTree sha256 leaves others) :=
  inferInstanceAs (Decidable (_ = _))

/-- The pairs hashed for the roots of two batches. -/
def bothPairs (sha256 : Bytes → Bytes) (leaves others : List Bytes) : List (Bytes × Bytes) :=
  levelPairs (MerkleTree.levels (hashPair sha256) leaves) ++ levelPairs (MerkleTree.levels (hashPair sha256) others)

/-- Two batches that close with the same root have the same leaves, up to a collision. -/
def RootDetermines (sha256 : Bytes → Bytes) (leaves others : List Bytes) : Prop :=
  ∀ batch other root, (MerkleBatch.ofLeaves leaves).close sha256 = .ok (batch, root) →
    (MerkleBatch.ofLeaves others).close sha256 = .ok (other, root) →
    leaves = others ∨ PairCollision sha256 (batch.hashedPairs ++ other.hashedPairs)

section Roots

variable {leaves others : List Bytes}

/-- Batches with the same tree have the same root. -/
theorem SameTree.root_eq {batch other : MerkleBatch} {root root' : Bytes} (h : SameTree sha256 leaves others)
    (hclose : (MerkleBatch.ofLeaves leaves).close sha256 = .ok (batch, root))
    (hclose' : (MerkleBatch.ofLeaves others).close sha256 = .ok (other, root')) : root = root' := by
  obtain ⟨term, hterm, hroot, -⟩ := exists_term (hashPair sha256) (MerkleBatch.close_ok hclose).1
  obtain ⟨term', hterm', hroot', -⟩ := exists_term (hashPair sha256) (MerkleBatch.close_ok hclose').1
  rw [(MerkleBatch.close_ok hclose).2.2] at hroot
  rw [(MerkleBatch.close_ok hclose').2.2] at hroot'
  rw [SameTree, hterm, hterm', Option.map_some, Option.map_some, Option.some.injEq] at h
  calc root = term.value (hashPair sha256) := List.singleton_inj.mp (Option.some.inj hroot)
    _ = (term.cut (hashPair sha256) _).value (hashPair sha256) := (Term.value_cut _ _ _).symm
    _ = (term'.cut (hashPair sha256) _).value (hashPair sha256) := by rw [h]
    _ = term'.value (hashPair sha256) := Term.value_cut _ _ _
    _ = root' := (List.singleton_inj.mp (Option.some.inj hroot')).symm

/-- Batches with the same root have the same tree, or their hashed pairs clash. -/
theorem sameTree_or_clash {batch other : MerkleBatch} {root : Bytes}
    (hclose : (MerkleBatch.ofLeaves leaves).close sha256 = .ok (batch, root))
    (hclose' : (MerkleBatch.ofLeaves others).close sha256 = .ok (other, root)) :
    SameTree sha256 leaves others ∨ Clash (hashPair sha256) (batch.hashedPairs ++ other.hashedPairs) := by
  obtain ⟨hne, rfl, hlast⟩ := MerkleBatch.close_ok hclose
  obtain ⟨hne', rfl, hlast'⟩ := MerkleBatch.close_ok hclose'
  obtain ⟨term, hterm, hroot, hperfect, hpairs⟩ := exists_term (hashPair sha256) hne
  obtain ⟨term', hterm', hroot', hperfect', hpairs'⟩ := exists_term (hashPair sha256) hne'
  rw [SameTree, hterm, hterm', Option.map_some, Option.map_some, Option.some.injEq]
  -- The cut trees have one height and the root as their values.
  have hvalues (height : ℕ) : (term.cut (hashPair sha256) height).value (hashPair sha256) =
      (term'.cut (hashPair sha256) height).value (hashPair sha256) := by
    have hsame := (hroot.symm.trans hlast).trans (hlast'.symm.trans hroot')
    rw [Term.value_cut, Term.value_cut]
    exact List.singleton_inj.mp (Option.some.inj hsame)
  obtain hsame | hclash := Term.eq_of_value_eq _ (hperfect.cut _ (min_le_left _ _))
    (hperfect'.cut _ (min_le_right _ _)) (hvalues _)
  · exact .inl hsame
  · right
    refine hclash.mono (List.append_subset.mpr ⟨?_, ?_⟩)
    · exact List.subset_append_of_subset_left _ (List.Subset.trans (Term.pairs_cut_subset _ _ _) hpairs)
    · exact List.subset_append_of_subset_right _ (List.Subset.trans (Term.pairs_cut_subset _ _ _) hpairs')

/-- The root determines a batch against another one if and only if they are the same, a collision is among
their hashed pairs, or their trees differ at the height of the lower one. -/
theorem root_determines_iff (hsize : ∀ data, (sha256 data).length = 32) (hne : leaves ≠ []) (hne' : others ≠ [])
    (hleaves : ∀ leaf ∈ leaves, leaf.length = 32) (hothers : ∀ leaf ∈ others, leaf.length = 32) :
    RootDetermines sha256 leaves others ↔
      leaves = others ∨ PairCollision sha256 (bothPairs sha256 leaves others) ∨
        ¬ SameTree sha256 leaves others := by
  obtain ⟨batch, root, hclose, -⟩ := MerkleBatch.close_complete sha256 hne
  obtain ⟨other, root', hclose', -⟩ := MerkleBatch.close_complete sha256 hne'
  obtain ⟨-, rfl, -⟩ := MerkleBatch.close_ok hclose
  obtain ⟨-, rfl, -⟩ := MerkleBatch.close_ok hclose'
  constructor
  · intro hdetermines
    by_cases hsame : SameTree sha256 leaves others
    · obtain rfl := hsame.root_eq hclose hclose'
      exact (hdetermines _ _ _ hclose hclose').imp_right Or.inl
    · exact .inr (.inr hsame)
  · rintro hcondition batch other root'' hbatch hother
    obtain heq | hcollision | hdiffer := hcondition
    · exact .inl heq
    · right
      obtain ⟨-, rfl, -⟩ := MerkleBatch.close_ok hbatch
      obtain ⟨-, rfl, -⟩ := MerkleBatch.close_ok hother
      exact hcollision
    · right
      exact PairCollision.of_clash (MerkleBatch.close_ok_pairs_length hsize hleaves hbatch)
        (MerkleBatch.close_ok_pairs_length hsize hothers hother)
        ((sameTree_or_clash hbatch hother).resolve_left hdiffer)

theorem three_leaves_root_determines :
    RootDetermines Sha256.digest threeLeaves (threeLeaves.take 2) := by
  have hdiffer : ¬ SameTree Sha256.digest threeLeaves (threeLeaves.take 2) := by decide +kernel
  exact (root_determines_iff Sha256.digest_length (by decide) (by decide) (by decide) (by decide)).mpr
    (.inr (.inr hdiffer))

/-- A batch of odd width has the tree of the batch with its last leaf repeated. -/
theorem sameTree_pad (sha256 : Bytes → Bytes) (hlong : 1 < leaves.length) :
    SameTree sha256 leaves (pad leaves) := by
  rw [SameTree, term?_pad hlong]

/-- Repeating the last of three leaves keeps the root. -/
theorem repeated_leaf_keeps_root :
    ¬ RootDetermines Sha256.digest threeLeaves (threeLeaves ++ [List.replicate 32 3]) := by
  intro hdetermines
  obtain ⟨batch, root, hclose, -⟩ := MerkleBatch.close_complete Sha256.digest (show threeLeaves ≠ [] by decide)
  obtain ⟨other, root', hclose', -⟩ := MerkleBatch.close_complete Sha256.digest
    (show threeLeaves ++ [List.replicate 32 3] ≠ [] by decide)
  obtain rfl := (sameTree_pad Sha256.digest (show 1 < threeLeaves.length by decide)).root_eq hclose hclose'
  have hnone : ¬ PairCollision Sha256.digest
      (bothPairs Sha256.digest threeLeaves (threeLeaves ++ [List.replicate 32 3])) := by
    decide +kernel
  obtain heq | hcollision := hdetermines _ _ _ hclose hclose'
  · exact absurd heq (by decide)
  · obtain ⟨-, rfl, -⟩ := MerkleBatch.close_ok hclose
    obtain ⟨-, rfl, -⟩ := MerkleBatch.close_ok hclose'
    exact hnone hcollision

end Roots

end DecisionCore
