import DecisionCore.Infrastructure.DerTree
import DecisionCore.Infrastructure.Rfc3161Client

/-!
# The encoders as trees

What each encoder of the client writes is an encoded tree, and reading the node of that tree gives the
encoded value back.
-/

namespace DecisionCore.Rfc3161

open BigEndian DerTree PyText

/-! ## Constructed values -/

theorem derSequence_encode (trees : List DerTree) :
    derSequence (trees.map encode) = (sequence trees).encode := by
  rw [derSequence, encode, encodeAll_eq_flatten]
  rfl

theorem derExplicit_zero (inner : Bytes) : derExplicit 0 inner = .ok (tlv (tagByte 2 true 0) inner) := rfl

theorem derExplicit_one (inner : Bytes) : derExplicit 1 inner = .ok (tlv (tagByte 2 true 1) inner) := rfl

/-- A child is not longer than the encoding of the children. -/
theorem length_encode_le_of_mem {tree : DerTree} {trees : List DerTree} (h : tree ∈ trees) :
    tree.encode.length ≤ (encodeAll trees).length := by
  induction trees with
  | nil => cases h
  | cons first rest ih =>
    rw [encodeAll, List.length_append]
    rcases List.mem_cons.mp h with rfl | hrest
    · exact Nat.le_add_right _ _
    · exact (ih hrest).trans (Nat.le_add_left _ _)

/-! ## Primitive values -/

/-- The tree of a number. -/
def integerTree (n : ℕ) : DerTree := integer (if n = 0 then [0x00] else integerContent n)

theorem derInteger_eq (n : ℕ) : derInteger n = .ok (integerTree n).encode := by
  unfold derInteger integerTree
  by_cases h : n = 0
  · subst h
    rfl
  · have hne : ¬ (n : ℤ) = 0 := by omega
    have hnonneg : ¬ (n : ℤ) < 0 := by omega
    rw [if_neg hne, if_neg hnonneg, if_neg h, Int.toNat_natCast]
    rfl

/-- The content of a positive number is not empty, has a clear top bit and stands for the number. -/
theorem integerContent_spec {n : ℕ} (h : n ≠ 0) :
    integerContent n ≠ [] ∧ topBit (integerContent n) = false ∧ fromBytes (integerContent n) = n := by
  obtain ⟨first, rest, hraw, -⟩ := head_toBytes_byteLength_ne h
  have hread := fromBytes_toBytes_byteLength n
  unfold integerContent
  simp only [hraw] at hread ⊢
  split
  · exact ⟨List.cons_ne_nil _ _, rfl, by rw [fromBytes_zero_cons, hread]⟩
  · rename_i htop
    exact ⟨List.cons_ne_nil _ _, Bool.eq_false_iff.mpr htop, hread⟩

/-- Numbers come back from their trees. -/
theorem derDecodeInteger_integerTree (n : ℕ) : derDecodeInteger (integerTree n).node = .ok (n : ℤ) := by
  by_cases h : n = 0
  · subst h
    rfl
  · obtain ⟨hne, htop, hread⟩ := integerContent_spec h
    simp only [integerTree, if_neg h, node, derDecodeInteger, expectUniversal, bind, Except.bind]
    simp [hne, htop, hread, pure, Except.pure]

theorem derOid_ok {dotted : String} {bytes : Bytes} (h : derOid dotted = .ok bytes) :
    ∃ content, bytes = (objectIdentifier content).encode := by
  unfold derOid at h
  obtain ⟨arcs, -, h⟩ := bind_eq_ok.mp h
  split at h
  · split at h
    · cases h
    · obtain ⟨head, -, h⟩ := bind_eq_ok.mp h
      obtain ⟨tail, -, h⟩ := bind_eq_ok.mp h
      obtain rfl := Except.ok.inj h
      exact ⟨_, rfl⟩
  · cases h

/-- The bytes of the identifier, which are read back as the same dotted text. -/
structure OidContent (dotted : String) where
  content : Bytes
  encodes : derOid dotted = .ok (objectIdentifier content).encode
  decodes : derDecodeOid (objectIdentifier content).node = .ok dotted

def oidContentSignedData : OidContent oidSignedData where
  content := [42, 134, 72, 134, 247, 13, 1, 7, 2]
  encodes := by decide +kernel
  decodes := by decide +kernel

def oidContentTstInfo : OidContent oidTstInfo where
  content := [42, 134, 72, 134, 247, 13, 1, 9, 16, 1, 4]
  encodes := by decide +kernel
  decodes := by decide +kernel

namespace HashName

/-- The content bytes of a hash OID. -/
def oidBytes : HashName → Bytes
  | sha1 => [43, 14, 3, 2, 26]
  | sha256 => [96, 134, 72, 1, 101, 3, 4, 2, 1]
  | sha384 => [96, 134, 72, 1, 101, 3, 4, 2, 2]
  | sha512 => [96, 134, 72, 1, 101, 3, 4, 2, 3]

theorem derOid_oid (hash : HashName) : derOid hash.oid = .ok (objectIdentifier hash.oidBytes).encode := by
  cases hash <;> decide +kernel

theorem derDecodeOid_oidBytes (hash : HashName) :
    derDecodeOid (objectIdentifier hash.oidBytes).node = .ok hash.oid := by
  cases hash <;> decide +kernel

def oidContent (hash : HashName) : OidContent hash.oid := ⟨hash.oidBytes, hash.derOid_oid, hash.derDecodeOid_oidBytes⟩

end HashName

theorem derGeneralizedTime_ok {text : String} {bytes : Bytes} (h : derGeneralizedTime text = .ok bytes) :
    ∃ content, bytes = (generalizedTime content).encode ∧
      derDecodeGeneralizedTime (generalizedTime content).node = .ok text := by
  unfold derGeneralizedTime at h
  split at h
  · rename_i content hcontent
    obtain rfl := Except.ok.inj h
    refine ⟨content, rfl, ?_⟩
    simp only [derDecodeGeneralizedTime, expectUniversal, node, bind, Except.bind]
    simp [decodeAscii?_of_encodeAscii? hcontent, pure, Except.pure]
  · cases h

end DecisionCore.Rfc3161
