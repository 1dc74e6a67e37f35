import DecisionCore.Timestamp.Encoders

/-!
# Contents of numbers and object identifiers

A natural number has the shortest content with a clear top bit, and is read back from it.  The further arcs
of an object identifier are written in base 128, most significant first, with the top bit set on all bytes of
an arc but its last; the accumulator of the reader takes up one arc after the other.
-/

namespace DecisionCore.Rfc3161

open BigEndian DerTree PyText

/-! ## Integers -/

/-- The shortest two's complement content of a natural number: the top bit is clear, and a leading zero byte stands
alone or before a set top bit. -/
def MinimalContent (content : Bytes) : Prop :=
  content ≠ [] ∧ topBit content = false ∧ ∀ rest, content = 0x00 :: rest → rest = [] ∨ topBit rest = true

theorem integerContent_minimal {n : ℕ} (h : n ≠ 0) : MinimalContent (integerContent n) := by
  obtain ⟨hne, htop, -⟩ := integerContent_spec h
  refine ⟨hne, htop, ?_⟩
  obtain ⟨first, rest, hraw, hfirst⟩ := head_toBytes_byteLength_ne h
  simp only [integerContent, hraw]
  split
  · rename_i hset
    intro tail htail
    rw [← (List.cons.inj htail).2]
    exact .inr hset
  · intro tail htail
    exact absurd (List.cons.inj htail).1 hfirst

/-- The content of a number, which is its minimal one. -/
theorem derInteger_content (n : ℕ) : ∃ content, derInteger n = .ok (tlv 0x02 content) ∧ MinimalContent content ∧
    derDecodeInteger (integer content).node = .ok (n : ℤ) := by
  have hread := derDecodeInteger_integerTree n
  by_cases h : n = 0
  · subst h
    refine ⟨[0x00], rfl, ⟨List.cons_ne_nil _ _, rfl, ?_⟩, hread⟩
    intro rest hrest
    exact .inl (List.cons.inj hrest).2.symm
  · refine ⟨integerContent n, ?_, integerContent_minimal h, ?_⟩
    · rw [derInteger_eq, integerTree, if_neg h]
      rfl
    · rwa [integerTree, if_neg h] at hread

/-! ## Arcs -/

theorem low7_clear {n : ℕ} (h : n < 128) : UInt8.ofNat n &&& 0x80 = 0 ∧ (UInt8.ofNat n &&& 0x7f).toNat = n := by
  interval_cases n <;> decide

theorem low7_set {n : ℕ} (h : n < 128) :
    (UInt8.ofNat n ||| 0x80) &&& 0x80 ≠ 0 ∧ ((UInt8.ofNat n ||| 0x80) &&& 0x7f).toNat = n := by
  interval_cases n <;> decide

theorem low7_and_lt (n : ℕ) : n &&& 0x7f < 128 := Nat.and_lt_two_pow n (by decide : 0x7f < 2 ^ 7)

/-- A number is put together again from its high bits and its low seven. -/
theorem shift_or_low7 (n : ℕ) : (n >>> 7) <<< 7 ||| (n &&& 0x7f) = n := by
  calc (n >>> 7) <<< 7 ||| (n &&& 0x7f)
      = (n >>> 7) <<< 7 + (n &&& 0x7f) := (Nat.shiftLeft_add_eq_or_of_lt (low7_and_lt n) _).symm
    _ = n / 128 * 128 + n % 128 := by
      rw [Nat.shiftLeft_eq, Nat.shiftRight_eq_div_pow, Nat.and_two_pow_sub_one_eq_mod n 7]
    _ = n := Nat.div_add_mod' n 128

/-- The reader has the high bits of an arc before it comes to the last byte. -/
theorem decodeArcs_arcHigh (arcs : List ℕ) (n : ℕ) (rest : Bytes) :
    decodeArcs arcs 0 (arcHigh n ++ rest) = decodeArcs arcs n rest := by
  induction n using arcHigh.induct generalizing rest with
  | case1 =>
    rw [arcHigh, if_pos rfl]
    rfl
  | case2 n hne ih =>
    obtain ⟨hset, hlow⟩ := low7_set (low7_and_lt n)
    rw [arcHigh, if_neg hne, List.append_assoc, ih, List.singleton_append, decodeArcs, if_neg hset, hlow,
      shift_or_low7]

/-- The bytes of an arc. -/
def arcContent (arc : ℕ) : Bytes := arcHigh (arc >>> 7) ++ [UInt8.ofNat (arc &&& 0x7f)]

/-- The reader takes up an arc of any size. -/
theorem decodeArcs_arcContent (arcs : List ℕ) (arc : ℕ) (rest : Bytes) :
    decodeArcs arcs 0 (arcContent arc ++ rest) = decodeArcs (arcs ++ [arc]) 0 rest := by
  obtain ⟨hclear, hlow⟩ := low7_clear (low7_and_lt arc)
  rw [arcContent, List.append_assoc, decodeArcs_arcHigh, List.singleton_append, decodeArcs, if_pos hclear, hlow,
    shift_or_low7]

theorem decodeArcs_flatMap (arcs rest : List ℕ) :
    decodeArcs arcs 0 (rest.flatMap arcContent) = (arcs ++ rest, 0) := by
  induction rest generalizing arcs with
  | nil => simp [decodeArcs]
  | cons arc rest ih => rw [List.flatMap_cons, decodeArcs_arcContent, ih, List.append_assoc, List.singleton_append]

/-! ## Object identifiers -/

/-- The arcs that `der_oid` writes: the first two fit into one byte, and no arc is longer than a number in a text may
be. -/
def Writable (arcs : List ℕ) : Prop :=
  ∃ first second rest, arcs = first :: second :: rest ∧ first ≤ 2 ∧ second ≤ 39 ∧
    ∀ arc ∈ rest, arc < 10 ^ maxStrDigits

/-- The content of an object identifier. -/
def oidBytes : List ℕ → Bytes
  | first :: second :: rest => UInt8.ofNat (40 * first + second) :: rest.flatMap arcContent
  | _ => []

theorem int_repr {n : ℕ} {value : ℤ} : int n.repr = .ok value ↔ n < 10 ^ maxStrDigits ∧ value = n := by
  rw [int, int?_repr]
  by_cases h : n < 10 ^ maxStrDigits <;> simp [h, eq_comm]

theorem mapM_int_repr {numbers : List ℕ} {values : List ℤ} : (numbers.map Nat.repr).mapM int = .ok values ↔
    (∀ n ∈ numbers, n < 10 ^ maxStrDigits) ∧ values = numbers.map Nat.cast := by
  induction numbers generalizing values with
  | nil => simp [pure, Except.pure, eq_comm]
  | cons n rest ih =>
    rw [List.map_cons, List.mapM_cons]
    simp only [bind_eq_ok, int_repr, ih, List.forall_mem_cons]
    constructor
    · rintro ⟨value, ⟨hfits, rfl⟩, others, ⟨hrest, rfl⟩, hvalues⟩
      exact ⟨⟨hfits, hrest⟩, (Except.ok.inj hvalues).symm⟩
    · rintro ⟨⟨hfits, hrest⟩, rfl⟩
      exact ⟨n, ⟨hfits, rfl⟩, _, ⟨hrest, rfl⟩, rfl⟩

theorem arcBytes_natCast (dotted : String) (arc : ℕ) : arcBytes dotted arc = .ok (arcContent arc) := by
  have hnonneg : ¬ (arc : ℤ) < 0 := by omega
  rw [arcBytes, if_neg hnonneg, Int.toNat_natCast, arcContent]

theorem mapM_arcBytes (dotted : String) (arcs : List ℕ) :
    (arcs.map Nat.cast).mapM (arcBytes dotted) = .ok (arcs.map arcContent) := by
  induction arcs with
  | nil => rfl
  | cons arc rest ih =>
    rw [List.map_cons, List.mapM_cons, arcBytes_natCast, ih]
    rfl

theorem lt_pow_maxStrDigits {n : ℕ} (h : n < 100) : n < 10 ^ maxStrDigits := by
  calc n < 10 ^ 2 := h
    _ ≤ 10 ^ maxStrDigits := Nat.pow_le_pow_right (by decide) (by decide)

theorem derOid_of_fits {first second : ℕ} {rest : List ℕ}
    (h : ∀ arc ∈ first :: second :: rest, arc < 10 ^ maxStrDigits) :
    derOid (dottedText (first :: second :: rest)) =
      if first > 2 ∨ second > 39 then
        .error (.derError ("bad OID: " ++ reprText (dottedText (first :: second :: rest))))
      else .ok (tlv 0x06 (oidBytes (first :: second :: rest))) := by
  rw [derOid, splitDots_dottedText (List.cons_ne_nil _ _), mapM_int_repr.mpr ⟨h, rfl⟩]
  simp only [bind, Except.bind, List.map_cons]
  by_cases hlarge : first > 2 ∨ second > 39
  · rw [if_pos hlarge, if_pos (by omega)]
  · have hbyte : byteOf (40 * (first : ℤ) + second) = .ok (UInt8.ofNat (40 * first + second)) := by
      rw [byteOf, if_pos (by omega)]
      rfl
    rw [if_neg hlarge, if_neg (by omega), hbyte]
    simp only [mapM_arcBytes]
    rw [oidBytes, List.flatMap_def]
    rfl

/-- The writer takes the writable arcs and no others. -/
theorem derOid_dottedText {arcs : List ℕ} {bytes : Bytes} :
    derOid (dottedText arcs) = .ok bytes ↔ Writable arcs ∧ bytes = tlv 0x06 (oidBytes arcs) := by
  constructor
  · intro h
    have hne : arcs ≠ [] := by
      rintro rfl
      have hraises : derOid (dottedText []) = .error (.valueError none) := by decide
      rw [hraises] at h
      cases h
    have hparse := h
    rw [derOid, splitDots_dottedText hne] at hparse
    obtain ⟨values, hvalues, hrest⟩ := bind_eq_ok.mp hparse
    obtain ⟨hfits, rfl⟩ := mapM_int_repr.mp hvalues
    match arcs with
    | [_] => cases hrest
    | first :: second :: rest =>
      rw [derOid_of_fits hfits] at h
      split at h
      · cases h
      · obtain rfl := Except.ok.inj h
        refine ⟨⟨first, second, rest, rfl, by omega, by omega, ?_⟩, rfl⟩
        intro arc harc
        exact hfits arc (List.mem_cons_of_mem _ (List.mem_cons_of_mem _ harc))
  · rintro ⟨⟨first, second, rest, rfl, hfirst, hsecond, hrest⟩, rfl⟩
    have hfits : ∀ arc ∈ first :: second :: rest, arc < 10 ^ maxStrDigits :=
      List.forall_mem_cons.mpr ⟨lt_pow_maxStrDigits (by omega),
        List.forall_mem_cons.mpr ⟨lt_pow_maxStrDigits (by omega), hrest⟩⟩
    rw [derOid_of_fits hfits, if_neg (by omega)]

/-- The loop of the reader takes up all arcs, whatever their size. -/
theorem decodeArcs_oidBytes {first second : ℕ} (hfirst : first ≤ 2) (hsecond : second ≤ 39) (rest : List ℕ) :
    ∃ head tail, oidBytes (first :: second :: rest) = head :: tail ∧
      decodeArcs [head.toNat / 40, head.toNat % 40] 0 tail = (first :: second :: rest, 0) := by
  refine ⟨_, _, rfl, ?_⟩
  have hhead : (UInt8.ofNat (40 * first + second)).toNat = 40 * first + second := by
    rw [UInt8.toNat_ofNat']
    omega
  have hdiv : (40 * first + second) / 40 = first := by omega
  have hmod : (40 * first + second) % 40 = second := by omega
  rw [hhead, hdiv, hmod, decodeArcs_flatMap]
  rfl

/-- The last byte of the content ends an arc. -/
theorem getLast_oidBytes {first second : ℕ} (hfirst : first ≤ 2) (hsecond : second ≤ 39) (rest : List ℕ) {last : UInt8}
    (h : (oidBytes (first :: second :: rest)).getLast? = some last) : last &&& 0x80 = 0 := by
  induction rest using List.reverseRecOn with
  | nil =>
    obtain rfl := Option.some.inj h
    exact (low7_clear (by omega)).1
  | append_singleton rest arc ih =>
    rw [oidBytes, List.flatMap_append, List.flatMap_singleton, arcContent, ← List.append_assoc, ← List.cons_append,
      List.getLast?_concat] at h
    obtain rfl := Option.some.inj h
    exact (low7_clear (low7_and_lt arc)).1

theorem mapM_str {arcs : List ℕ} (h : ∀ arc ∈ arcs, arc < 10 ^ maxStrDigits) :
    ((arcs.map Nat.cast).mapM fun number : ℤ ↦ str number) = .ok (arcs.map Nat.repr) := by
  induction arcs with
  | nil => rfl
  | cons arc rest ih =>
    obtain ⟨hfits, hrest⟩ := List.forall_mem_cons.mp h
    rw [List.map_cons, List.mapM_cons, ih hrest, str, str?_natCast, if_pos hfits]
    rfl

/-- The arcs are read back from the content. -/
theorem derDecodeOid_oidBytes {arcs : List ℕ} (h : Writable arcs) :
    derDecodeOid (objectIdentifier (oidBytes arcs)).node = .ok (dottedText arcs) := by
  obtain ⟨first, second, rest, rfl, hfirst, hsecond, hrest⟩ := h
  obtain ⟨head, tail, hbytes, harcs⟩ := decodeArcs_oidBytes hfirst hsecond rest
  have hlast : ((head :: tail).getLast?.any fun byte ↦ decide (byte &&& 0x80 ≠ 0)) = false := by
    rw [← hbytes]
    cases hend : (oidBytes (first :: second :: rest)).getLast? with
    | none => rfl
    | some last => simp [getLast_oidBytes hfirst hsecond rest hend]
  have htexts := mapM_str (List.forall_mem_cons.mpr ⟨lt_pow_maxStrDigits (show first < 100 by omega),
    List.forall_mem_cons.mpr ⟨lt_pow_maxStrDigits (show second < 100 by omega), hrest⟩⟩)
  have hcast : (do let arc ← first :: second :: rest; pure (arc : ℤ)) = (first :: second :: rest).map Nat.cast :=
    List.flatMap_pure_eq_map _ _
  simp only [derDecodeOid, expectUniversal, node_primitive, hbytes, harcs, hlast]
  rw [hcast, htexts]
  rfl

/-! ## Both kinds of contents -/

/-- Numbers come back from their contents, which are minimal.  Object identifiers come back from theirs; the writer
takes exactly those whose first two arcs fit into a byte and whose further arcs fit into a text, and the loop of the
reader takes up arcs of any size. -/
theorem contents_round_trip :
    (∀ n : ℕ, ∃ content, derInteger n = .ok (tlv 0x02 content) ∧ MinimalContent content ∧
      (content.length < 2 ^ 64 → ∃ root, derDecode (tlv 0x02 content) = .ok root ∧ root.content = content ∧
        derDecodeInteger root = .ok (n : ℤ))) ∧
    (∀ arcs : List ℕ, ((∃ bytes, derOid (dottedText arcs) = .ok bytes) ↔ Writable arcs) ∧
      ∀ bytes, derOid (dottedText arcs) = .ok bytes → ∃ content, bytes = tlv 0x06 content ∧
        (content.length < 2 ^ 64 → ∃ root, derDecode bytes = .ok root ∧ root.content = content ∧
          derDecodeOid root = .ok (dottedText arcs))) ∧
    ∀ first second : ℕ, first ≤ 2 → second ≤ 39 → ∀ rest : List ℕ, ∃ head tail,
      oidBytes (first :: second :: rest) = head :: tail ∧
        decodeArcs [head.toNat / 40, head.toNat % 40] 0 tail = (first :: second :: rest, 0) := by
  refine ⟨?_, ?_, fun first second hfirst hsecond rest ↦ decodeArcs_oidBytes hfirst hsecond rest⟩
  · intro n
    obtain ⟨content, hwritten, hminimal, hread⟩ := derInteger_content n
    refine ⟨content, hwritten, hminimal, ?_⟩
    intro hsmall
    refine ⟨(integer content).node, ?_, by rw [node_primitive], hread⟩
    have hdecoded := derDecode_encode (integer content) hsmall
    rwa [encode] at hdecoded
  · intro arcs
    refine ⟨?_, ?_⟩
    · constructor
      · rintro ⟨bytes, h⟩
        exact (derOid_dottedText.mp h).1
      · intro h
        exact ⟨_, derOid_dottedText.mpr ⟨h, rfl⟩⟩
    · intro bytes h
      obtain ⟨hwritable, rfl⟩ := derOid_dottedText.mp h
      refine ⟨oidBytes arcs, rfl, ?_⟩
      intro hsmall
      refine ⟨(objectIdentifier (oidBytes arcs)).node, ?_, by rw [node_primitive], derDecodeOid_oidBytes hwritable⟩
      have hdecoded := derDecode_encode (objectIdentifier (oidBytes arcs)) hsmall
      rwa [encode] at hdecoded

end DecisionCore.Rfc3161
