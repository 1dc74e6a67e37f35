import Mathlib.Data.List.Induction
import Mathlib.Tactic.NormNum
import Mathlib.Tactic.Ring

/-!
# Big-endian byte strings

Natural numbers as bytes, most significant first: `int.to_bytes` and `int.from_bytes` on unsigned
numbers, and the shortest byte string of a number.
-/

namespace BigEndian

/-- The last `length` base-256 digits of a number. -/
def toBytes : ℕ → ℕ → List UInt8
  | 0, _ => []
  | length + 1, n => toBytes length (n / 256) ++ [UInt8.ofNat n]

/-- The number whose digits are the bytes. -/
def fromBytes (bytes : List UInt8) : ℕ := bytes.foldl (fun n byte ↦ 256 * n + byte.toNat) 0

/-- `int.bit_length`. -/
def bitLength (n : ℕ) : ℕ := if n = 0 then 0 else n.log2 + 1

/-- The bytes that the bits of a number need. -/
def byteLength (n : ℕ) : ℕ := (bitLength n + 7) / 8

@[simp]
theorem length_toBytes (length n : ℕ) : (toBytes length n).length = length := by
  induction length generalizing n with
  | zero => rfl
  | succ length ih => rw [toBytes, List.length_append, ih, List.length_singleton]

@[simp]
theorem fromBytes_nil : fromBytes [] = 0 := rfl

@[simp]
theorem fromBytes_concat (bytes : List UInt8) (byte : UInt8) :
    fromBytes (bytes ++ [byte]) = 256 * fromBytes bytes + byte.toNat := by
  simp [fromBytes]

theorem fromBytes_append (first second : List UInt8) :
    fromBytes (first ++ second) = 256 ^ second.length * fromBytes first + fromBytes second := by
  induction second using List.reverseRecOn with
  | nil => simp
  | append_singleton second byte ih =>
    rw [← List.append_assoc, fromBytes_concat, fromBytes_concat, ih, List.length_append, List.length_singleton,
      pow_succ]
    ring

theorem fromBytes_singleton (byte : UInt8) : fromBytes [byte] = byte.toNat := by
  simp [fromBytes]

theorem fromBytes_cons (byte : UInt8) (bytes : List UInt8) :
    fromBytes (byte :: bytes) = 256 ^ bytes.length * byte.toNat + fromBytes bytes := by
  rw [← List.singleton_append, fromBytes_append, fromBytes_singleton]

/-- A leading zero byte does not change a number. -/
@[simp]
theorem fromBytes_zero_cons (bytes : List UInt8) : fromBytes (0 :: bytes) = fromBytes bytes := by
  rw [fromBytes_cons]
  simp

theorem fromBytes_lt (bytes : List UInt8) : fromBytes bytes < 256 ^ bytes.length := by
  induction bytes using List.reverseRecOn with
  | nil => decide
  | append_singleton bytes byte ih =>
    have hbyte : byte.toNat < 256 := byte.toNat_lt
    rw [fromBytes_concat, List.length_append, List.length_singleton, pow_succ]
    omega

/-- Reading the last digits of a number gives the number, when they are enough. -/
theorem fromBytes_toBytes {length n : ℕ} (h : n < 256 ^ length) : fromBytes (toBytes length n) = n := by
  induction length generalizing n with
  | zero =>
    obtain rfl : n = 0 := by simpa using h
    rfl
  | succ length ih =>
    have hdiv : n / 256 < 256 ^ length := by
      rw [pow_succ] at h
      exact (Nat.div_lt_iff_lt_mul (by decide)).mpr h
    rw [toBytes, fromBytes_concat, ih hdiv, UInt8.toNat_ofNat']
    exact Nat.div_add_mod n 256

/-- The bytes of a number are the only ones of their count that stand for it. -/
theorem toBytes_fromBytes (bytes : List UInt8) : toBytes bytes.length (fromBytes bytes) = bytes := by
  induction bytes using List.reverseRecOn with
  | nil => rfl
  | append_singleton bytes byte ih =>
    have hbyte : byte.toNat < 256 := byte.toNat_lt
    have hdiv : (256 * fromBytes bytes + byte.toNat) / 256 = fromBytes bytes := by omega
    rw [List.length_append, List.length_singleton, fromBytes_concat, toBytes, hdiv, ih]
    congr 2
    apply UInt8.toNat_inj.mp
    rw [UInt8.toNat_ofNat']
    omega

/-! ## The shortest bytes of a number -/

theorem lt_two_pow_bitLength (n : ℕ) : n < 2 ^ bitLength n := by
  unfold bitLength
  split
  · omega
  · exact Nat.lt_log2_self

theorem two_pow_le_of_ne_zero {n : ℕ} (h : n ≠ 0) : 2 ^ (bitLength n - 1) ≤ n := by
  rw [bitLength, if_neg h]
  exact Nat.log2_self_le h

theorem bitLength_pos {n : ℕ} (h : n ≠ 0) : 0 < bitLength n := by
  rw [bitLength, if_neg h]
  omega

theorem byteLength_pos {n : ℕ} (h : n ≠ 0) : 0 < byteLength n := by
  have hpos := bitLength_pos h
  unfold byteLength
  omega

theorem lt_pow_byteLength (n : ℕ) : n < 256 ^ byteLength n := by
  calc n < 2 ^ bitLength n := lt_two_pow_bitLength n
    _ ≤ 2 ^ (8 * byteLength n) := Nat.pow_le_pow_right (by decide) (by unfold byteLength; omega)
    _ = 256 ^ byteLength n := by rw [pow_mul]; norm_num

/-- A number that fits into some bytes needs no more. -/
theorem byteLength_le {n length : ℕ} (h : n < 256 ^ length) : byteLength n ≤ length := by
  by_cases hzero : n = 0
  · simp [byteLength, bitLength, hzero]
  · have hlt : 2 ^ (bitLength n - 1) < 2 ^ (8 * length) := by
      calc 2 ^ (bitLength n - 1) ≤ n := two_pow_le_of_ne_zero hzero
        _ < 256 ^ length := h
        _ = 2 ^ (8 * length) := by rw [pow_mul]; norm_num
    have hbits := (Nat.pow_lt_pow_iff_right (by decide)).mp hlt
    have hpos := bitLength_pos hzero
    unfold byteLength
    omega

theorem fromBytes_toBytes_byteLength (n : ℕ) : fromBytes (toBytes (byteLength n) n) = n :=
  fromBytes_toBytes (lt_pow_byteLength n)

/-- The first of the shortest bytes of a positive number is not zero. -/
theorem head_toBytes_byteLength_ne {n : ℕ} (h : n ≠ 0) :
    ∃ first rest, toBytes (byteLength n) n = first :: rest ∧ first ≠ 0 := by
  cases hbytes : toBytes (byteLength n) n with
  | nil =>
    have hlength := length_toBytes (byteLength n) n
    rw [hbytes] at hlength
    exact absurd hlength.symm (byteLength_pos h).ne'
  | cons first rest =>
    refine ⟨first, rest, rfl, ?_⟩
    rintro rfl
    have hread := fromBytes_toBytes_byteLength n
    have hlength := length_toBytes (byteLength n) n
    rw [hbytes, fromBytes_zero_cons] at hread
    rw [hbytes, List.length_cons] at hlength
    have hfewer : byteLength n ≤ rest.length := byteLength_le (by rw [← hread]; exact fromBytes_lt rest)
    omega

/-- Bytes without a leading zero are as many as their number needs. -/
theorem byteLength_fromBytes {bytes : List UInt8} (h : bytes.head? ≠ some 0) :
    byteLength (fromBytes bytes) = bytes.length := by
  apply le_antisymm (byteLength_le (fromBytes_lt bytes))
  cases bytes with
  | nil => exact Nat.zero_le _
  | cons first rest =>
    have hfirst : 1 ≤ first.toNat := by
      apply Nat.one_le_iff_ne_zero.mpr
      intro hzero
      exact h (congrArg some (UInt8.toNat_inj.mp hzero))
    have hlarge : 256 ^ rest.length ≤ fromBytes (first :: rest) := by
      calc 256 ^ rest.length = 256 ^ rest.length * 1 := (Nat.mul_one _).symm
        _ ≤ 256 ^ rest.length * first.toNat := Nat.mul_le_mul_left _ hfirst
        _ ≤ 256 ^ rest.length * first.toNat + fromBytes rest := Nat.le_add_right _ _
        _ = fromBytes (first :: rest) := (fromBytes_cons first rest).symm
    have hlt := hlarge.trans_lt (lt_pow_byteLength (fromBytes (first :: rest)))
    exact (Nat.pow_lt_pow_iff_right (by decide)).mp hlt

end BigEndian
