import DecisionCore.Infrastructure.DerTree

/-!
# Encoding and decoding DER

The decoder undoes the encoder on all trees of the supported format, at any offset.  The other way round
it accepts more than the encoder writes: re-encoding what was decoded gives the same bytes if and only if
every length field in them is minimal.
-/

namespace DecisionCore.Rfc3161

open BigEndian Pieces

/-! ## Decoding what was encoded -/

namespace DerTree

def tagClass : DerTree → ℕ
  | primitive tagClass _ _ => tagClass
  | constructed tagClass _ _ => tagClass

def tagNumber : DerTree → ℕ
  | primitive _ tagNumber _ => tagNumber
  | constructed _ tagNumber _ => tagNumber

def isConstructed : DerTree → Bool
  | primitive .. => false
  | constructed .. => true

def children : DerTree → List DerTree
  | primitive .. => []
  | constructed _ _ children => children

theorem length_content_of_mem {tree child : DerTree} (h : child ∈ tree.children) :
    child.content.length ≤ tree.content.length := by
  cases tree with
  | primitive tagClass tagNumber content => cases h
  | constructed tagClass tagNumber children =>
    have hpiece : child.encode.length ≤ (children.map encode).flatten.length :=
      (List.sublist_flatten_of_mem (List.mem_map_of_mem h)).length_le
    rw [content, encodeAll_eq_flatten]
    exact child.length_content_le.trans hpiece

/-- The children of a tree are decoded from their own encodings. -/
theorem children_decoded {tree : DerTree} (hsmall : tree.content.length < 2 ^ 64) :
    List.Forall₂ (fun child node ↦ derDecode child.encode = .ok node) tree.children tree.node.children := by
  have hchildren : tree.node.children = tree.children.map node := by
    cases tree with
    | primitive tagClass tagNumber content => rw [node_primitive, children, List.map_nil]
    | constructed tagClass tagNumber children => rw [node_constructed, nodes_eq_map, DerTree.children]
  rw [hchildren, List.forall₂_map_right_iff, List.forall₂_same]
  intro child hchild
  exact derDecode_encode child ((length_content_of_mem hchild).trans_lt hsmall)

end DerTree

/-- Decoding the encoding of a tree gives its node, whose children are the decodings of its children; and so does
parsing it between any other bytes, where it ends at the first byte behind it. -/
theorem decode_undoes_encode (tree : DerTree) (hsmall : tree.content.length < 2 ^ 64) :
    ∃ root, derDecode tree.encode = .ok root ∧ root.tagClass = tree.tagClass ∧ root.tagNumber = tree.tagNumber ∧
      root.constructed = tree.isConstructed ∧ root.content = tree.content ∧
      List.Forall₂ (fun child node ↦ derDecode child.encode = .ok node) tree.children root.children ∧
      ∀ before after, ∃ parsed : Parsed (before ++ tree.encode ++ after) before.length,
        parseTlv (before ++ tree.encode ++ after) before.length = .ok parsed ∧ parsed.node = root ∧
          parsed.next = (before ++ tree.encode).length := by
  refine ⟨tree.node, derDecode_encode tree hsmall, ?_, ?_, ?_, ?_, DerTree.children_decoded hsmall, ?_⟩
  · cases tree <;> simp [DerTree.tagClass]
  · cases tree <;> simp [DerTree.tagNumber]
  · cases tree <;> simp [DerTree.isConstructed]
  · cases tree <;> simp [DerTree.content]
  · intro before after
    obtain ⟨parsed, hparsed, hnode, hnext⟩ := parseTlv_encode tree hsmall (At.of_append before tree.encode after)
    exact ⟨parsed, hparsed, hnode, by rw [hnext, List.length_append]⟩

/-- A sequence with a content beyond the short form of lengths. -/
def longSequence : DerTree := .sequence [.octetString (List.replicate 200 7), .null]

theorem longSequence_decoded :
    ∃ root, derDecode longSequence.encode = .ok root ∧ root.tagClass = longSequence.tagClass ∧
      root.tagNumber = longSequence.tagNumber ∧ root.constructed = longSequence.isConstructed ∧
      root.content = longSequence.content ∧
      List.Forall₂ (fun child node ↦ derDecode child.encode = .ok node) longSequence.children root.children ∧
      ∀ before after, ∃ parsed : Parsed (before ++ longSequence.encode ++ after) before.length,
        parseTlv (before ++ longSequence.encode ++ after) before.length = .ok parsed ∧ parsed.node = root ∧
          parsed.next = (before ++ longSequence.encode).length :=
  decode_undoes_encode longSequence (by decide +kernel)

/-! ## Encoding what was decoded -/

mutual

/-- A node encoded again: a constructed one over its encoded children, a primitive one over its content. -/
def DerNode.encode : DerNode → Bytes
  | ⟨tagClass, tagNumber, constructed, content, children⟩ =>
    tlv (UInt8.ofNat (64 * tagClass + (if constructed then 32 else 0) + tagNumber))
      (if constructed then DerNode.encodeAll children else content)

def DerNode.encodeAll : List DerNode → Bytes
  | [] => []
  | node :: rest => node.encode ++ DerNode.encodeAll rest

end

theorem length_derLength (n : ℕ) : (derLength n).length = if n < 128 then 1 else byteLength n + 1 := by
  unfold derLength
  split
  · rfl
  · simp only [List.length_cons, length_toBytes]

theorem length_derLength_mono {n m : ℕ} (h : n ≤ m) : (derLength n).length ≤ (derLength m).length := by
  have hbytes : byteLength n ≤ byteLength m := byteLength_le (h.trans_lt (lt_pow_byteLength m))
  rw [length_derLength, length_derLength]
  split <;> split <;> omega

namespace LengthField

theorem length_bytes (field : LengthField) :
    (derLength field.value).length ≤ field.bytes.length ∧
      ((derLength field.value).length = field.bytes.length → field.Minimal) := by
  cases field with
  | short value =>
    have hshort : (short value).value < 128 := value.isLt
    rw [length_derLength, if_pos hshort]
    exact ⟨le_rfl, fun _ ↦ trivial⟩
  | long more hcount =>
    have hbytes : byteLength (fromBytes more) ≤ more.length := byteLength_le (fromBytes_lt more)
    rw [value, bytes, length_derLength, List.length_cons]
    split
    · exact ⟨by omega, fun hequal ↦ by omega⟩
    · rename_i hlong
      refine ⟨by omega, fun hequal ↦ ⟨by omega, ?_⟩⟩
      intro hzero
      obtain ⟨rest, rfl⟩ := List.head?_eq_some_iff.mp hzero
      -- A leading zero leaves a byte out of the shortest form.
      have hfewer : byteLength (fromBytes (0 :: rest)) ≤ rest.length := by
        apply byteLength_le
        rw [fromBytes_zero_cons]
        exact fromBytes_lt rest
      rw [List.length_cons] at hequal
      omega

end LengthField

namespace BerTree

mutual

/-- Encoding the node of a tree again never makes it longer, and keeps its length only where all length fields
are minimal. -/
theorem length_encode_node (tree : BerTree) (hvalid : tree.Valid) :
    tree.node.encode.length ≤ tree.write.length ∧
      (tree.node.encode.length = tree.write.length → ∀ field ∈ tree.fields, field.Minimal) := by
  match tree with
  | .primitive tagClass tagNumber field content =>
    rw [Valid] at hvalid
    obtain ⟨hle, hequal⟩ := field.length_bytes
    rw [hvalid] at hle hequal
    rw [node, DerNode.encode, write, fields, length_tlv, List.length_cons, List.length_append]
    simp only [Bool.false_eq_true, if_false]
    refine ⟨by omega, fun hsame ↦ ?_⟩
    exact List.forall_mem_singleton.mpr (hequal (by omega))
  | .constructed tagClass tagNumber field children =>
    rw [Valid] at hvalid
    obtain ⟨hle, hequal⟩ := field.length_bytes
    obtain ⟨hles, hequals⟩ := length_encodeAll_nodes children hvalid.2
    have hmono := length_derLength_mono hles
    rw [hvalid.1] at hle hequal
    rw [node, DerNode.encode, write, fields, length_tlv, List.length_cons, List.length_append]
    simp only [if_true]
    refine ⟨by omega, fun hsame ↦ ?_⟩
    exact List.forall_mem_cons.mpr ⟨hequal (by omega), hequals (by omega)⟩

theorem length_encodeAll_nodes (trees : List BerTree) (hvalid : ValidAll trees) :
    (DerNode.encodeAll (nodes trees)).length ≤ (writeAll trees).length ∧
      ((DerNode.encodeAll (nodes trees)).length = (writeAll trees).length →
        ∀ field ∈ fieldsAll trees, field.Minimal) := by
  match trees with
  | [] =>
    rw [nodes, DerNode.encodeAll, writeAll, fieldsAll]
    exact ⟨le_rfl, fun _ ↦ List.forall_mem_nil _⟩
  | tree :: rest =>
    rw [ValidAll] at hvalid
    obtain ⟨hle, hequal⟩ := length_encode_node tree hvalid.1
    obtain ⟨hles, hequals⟩ := length_encodeAll_nodes rest hvalid.2
    rw [nodes, DerNode.encodeAll, writeAll, fieldsAll, List.length_append, List.length_append]
    refine ⟨by omega, fun hsame ↦ ?_⟩
    exact List.forall_mem_append.mpr ⟨hequal (by omega), hequals (by omega)⟩

end

mutual

/-- With minimal length fields, encoding the node of a tree again gives the bytes it was written as. -/
theorem encode_node (tree : BerTree) (hvalid : tree.Valid) (hminimal : ∀ field ∈ tree.fields, field.Minimal) :
    tree.node.encode = tree.write := by
  match tree with
  | .primitive tagClass tagNumber field content =>
    rw [Valid] at hvalid
    rw [fields] at hminimal
    have hfield := (hminimal field List.mem_cons_self).bytes_eq
    rw [node, DerNode.encode, write, hfield, hvalid, tlv, List.cons_append]
    rfl
  | .constructed tagClass tagNumber field children =>
    rw [Valid] at hvalid
    rw [fields, List.forall_mem_cons] at hminimal
    have hfield := hminimal.1.bytes_eq
    rw [node, DerNode.encode, write, hfield, hvalid.1, encodeAll_nodes children hvalid.2 hminimal.2, tlv,
      List.cons_append]
    rfl

theorem encodeAll_nodes (trees : List BerTree) (hvalid : ValidAll trees)
    (hminimal : ∀ field ∈ fieldsAll trees, field.Minimal) : DerNode.encodeAll (nodes trees) = writeAll trees := by
  match trees with
  | [] => rfl
  | tree :: rest =>
    rw [ValidAll] at hvalid
    rw [fieldsAll, List.forall_mem_append] at hminimal
    rw [nodes, DerNode.encodeAll, writeAll, encode_node tree hvalid.1 hminimal.1,
      encodeAll_nodes rest hvalid.2 hminimal.2]

end

end BerTree

/-- Every length field in the bytes, at every depth of the trees they are written as, is minimal. -/
def MinimalLengths (data : Bytes) : Prop :=
  ∀ tree : BerTree, tree.Valid → tree.write = data → ∀ field ∈ tree.fields, field.Minimal

theorem MinimalLengths.reencodes {data : Bytes} (h : MinimalLengths data) {root : DerNode}
    (hroot : derDecode data = .ok root) : root.encode = data := by
  obtain ⟨tree, hvalid, hwrite, rfl⟩ := derDecode_iff.mp hroot
  rw [tree.encode_node hvalid (h tree hvalid hwrite), hwrite]

/-- What the decoder makes of the bytes stands for them alone. -/
structure DecodesAsDer (data : Bytes) : Prop where
  /-- Encoding the decoded node again gives the bytes back. -/
  reencodes : ∀ root, derDecode data = .ok root → root.encode = data
  /-- No other bytes with minimal length fields are decoded to the node. -/
  unique : ∀ root other, derDecode data = .ok root → derDecode other = .ok root → MinimalLengths other → other = data
  /-- Every length field that was accepted is the one that the encoder writes. -/
  lengths : ∀ tree : BerTree, tree.Valid → tree.write = data → ∀ field ∈ tree.fields,
    field.bytes = derLength field.value

/-- Decoding keeps the bytes if and only if all length fields in them are minimal. -/
theorem decodes_as_der_iff (data : Bytes) : DecodesAsDer data ↔ MinimalLengths data := by
  constructor
  · intro h tree hvalid hwrite
    have hdecode : derDecode data = .ok tree.node := derDecode_iff.mpr ⟨tree, hvalid, hwrite, rfl⟩
    have hencode := h.reencodes _ hdecode
    exact (tree.length_encode_node hvalid).2 (by rw [hencode, hwrite])
  · intro h
    refine ⟨fun root hroot ↦ h.reencodes hroot, ?_, ?_⟩
    · intro root other hroot hother hminimal
      rw [← hminimal.reencodes hother, h.reencodes hroot]
    · intro tree hvalid hwrite field hfield
      exact (h tree hvalid hwrite field hfield).bytes_eq

/-- An octet string of one byte with a length field in the long form is accepted. -/
theorem long_form_accepted : ¬ DecodesAsDer [0x04, 0x81, 0x01, 0xaa] := by
  intro h
  have hdecode : derDecode [0x04, 0x81, 0x01, 0xaa] = .ok ⟨0, 4, false, [0xaa], []⟩ :=
    derDecode_iff.mpr ⟨.primitive 0 4 (.long [0x01] (by decide)) [0xaa], rfl, by decide, rfl⟩
  exact absurd (h.reencodes _ hdecode) (by decide +kernel)

end DecisionCore.Rfc3161
