import DecisionCore.Infrastructure.BerTree

/-!
# DER trees

The supported format as trees: primitive nodes with any content, and constructed nodes whose content is
the concatenation of their encoded children.  An encoded tree is one that is written with minimal length
fields, so that parsing where it stands in the data gives its node and the offset behind it.
-/

namespace DecisionCore.Rfc3161

open BigEndian Pieces

/-- A tree of the supported format; classes and tag numbers are in the range of a single tag byte. -/
inductive DerTree where
  | primitive (tagClass : Fin 4) (tagNumber : Fin 31) (content : Bytes)
  | constructed (tagClass : Fin 4) (tagNumber : Fin 31) (children : List DerTree)

namespace DerTree

mutual

def encode : DerTree → Bytes
  | primitive tagClass tagNumber content => tlv (tagByte tagClass false tagNumber) content
  | constructed tagClass tagNumber children => tlv (tagByte tagClass true tagNumber) (encodeAll children)

def encodeAll : List DerTree → Bytes
  | [] => []
  | tree :: rest => encode tree ++ encodeAll rest

end

/-- The content of the root. -/
def content : DerTree → Bytes
  | primitive _ _ content => content
  | constructed _ _ children => encodeAll children

mutual

/-- The node that a tree is parsed as. -/
def node : DerTree → DerNode
  | primitive tagClass tagNumber content => ⟨tagClass, tagNumber, false, content, []⟩
  | constructed tagClass tagNumber children => ⟨tagClass, tagNumber, true, encodeAll children, nodes children⟩

def nodes : List DerTree → List DerNode
  | [] => []
  | tree :: rest => node tree :: nodes rest

end

@[simp]
theorem node_primitive (tagClass : Fin 4) (tagNumber : Fin 31) (content : Bytes) :
    (primitive tagClass tagNumber content).node = ⟨tagClass, tagNumber, false, content, []⟩ := by
  rw [node]

@[simp]
theorem node_constructed (tagClass : Fin 4) (tagNumber : Fin 31) (children : List DerTree) :
    (constructed tagClass tagNumber children).node =
      ⟨tagClass, tagNumber, true, encodeAll children, nodes children⟩ := by
  rw [node]

@[simp]
theorem nodes_eq_map (trees : List DerTree) : nodes trees = trees.map node := by
  induction trees with
  | nil => rfl
  | cons tree rest ih => rw [nodes, ih, List.map_cons]

theorem encodeAll_eq_flatten (trees : List DerTree) : encodeAll trees = (trees.map encode).flatten := by
  induction trees with
  | nil => rfl
  | cons tree rest ih => rw [encodeAll, ih, List.map_cons, List.flatten_cons]

end DerTree

/-! ## The trees of the encoders -/

namespace DerTree

abbrev boolean (value : Bool) : DerTree := primitive 0 1 [if value then 0xff else 0x00]
abbrev integer (content : Bytes) : DerTree := primitive 0 2 content
abbrev octetString (content : Bytes) : DerTree := primitive 0 4 content
abbrev null : DerTree := primitive 0 5 []
abbrev objectIdentifier (content : Bytes) : DerTree := primitive 0 6 content
abbrev utf8String (content : Bytes) : DerTree := primitive 0 12 content
abbrev generalizedTime (content : Bytes) : DerTree := primitive 0 24 content
abbrev sequence (children : List DerTree) : DerTree := constructed 0 16 children
abbrev set (children : List DerTree) : DerTree := constructed 0 17 children
abbrev tagged0 (children : List DerTree) : DerTree := constructed 2 0 children
abbrev tagged1 (children : List DerTree) : DerTree := constructed 2 1 children

end DerTree

/-! ## The length field -/

/-- A minimal length field is the one that the encoder writes for its length. -/
theorem LengthField.Minimal.bytes_eq {field : LengthField} (h : field.Minimal) :
    field.bytes = derLength field.value := by
  cases field with
  | short value =>
    rw [bytes, LengthField.value, derLength, if_pos value.isLt]
  | long more hcount =>
    obtain ⟨hlong, hhead⟩ := h
    rw [bytes, LengthField.value, derLength, if_neg (by omega), byteLength_fromBytes hhead]
    simp only [toBytes_fromBytes]

/-- The encoder writes a minimal length field. -/
theorem exists_field {n : ℕ} (h : n < 256 ^ 127) :
    ∃ field : LengthField, field.value = n ∧ field.Minimal := by
  by_cases hshort : n < 128
  · exact ⟨.short ⟨n, hshort⟩, rfl, trivial⟩
  · have hpos := byteLength_pos (show n ≠ 0 by omega)
    have hle := byteLength_le h
    refine ⟨.long (toBytes (byteLength n) n) (by rw [length_toBytes]; omega), ?_, ?_⟩
    · exact fromBytes_toBytes_byteLength n
    · obtain ⟨first, rest, hbytes, hfirst⟩ := head_toBytes_byteLength_ne (show n ≠ 0 by omega)
      refine ⟨by rw [fromBytes_toBytes_byteLength]; omega, ?_⟩
      rw [hbytes, List.head?_cons]
      exact fun heq ↦ hfirst (Option.some.inj heq)

/-! ## Parsing encoded trees -/

theorem length_tlv (tag : UInt8) (content : Bytes) :
    (tlv tag content).length = 1 + (derLength content.length).length + content.length := by
  simp only [tlv, List.length_append, List.length_cons]
  omega

namespace DerTree

theorem length_content_le (tree : DerTree) : tree.content.length ≤ tree.encode.length := by
  cases tree with
  | primitive tagClass tagNumber content =>
    rw [encode, length_tlv, DerTree.content]
    omega
  | constructed tagClass tagNumber children =>
    rw [encode, length_tlv, content]
    omega

end DerTree

open DerTree

mutual

/-- An encoded tree is one written with minimal length fields. -/
theorem exists_written (tree : DerTree) (hsmall : tree.content.length < 256 ^ 127) :
    ∃ written : BerTree, written.Valid ∧ written.write = tree.encode ∧ written.node = tree.node ∧
      ∀ field ∈ written.fields, field.Minimal := by
  match tree with
  | .primitive tagClass tagNumber content =>
    obtain ⟨field, hvalue, hminimal⟩ := exists_field hsmall
    refine ⟨.primitive tagClass tagNumber field content, hvalue, ?_, ?_, ?_⟩
    · rw [BerTree.write, hminimal.bytes_eq, hvalue, encode, tlv, DerTree.content, List.cons_append]
    · rw [BerTree.node, node]
    · rw [BerTree.fields]
      exact List.forall_mem_singleton.mpr hminimal
  | .constructed tagClass tagNumber children =>
    rw [DerTree.content] at hsmall
    obtain ⟨field, hvalue, hminimal⟩ := exists_field hsmall
    obtain ⟨written, hvalid, hwrite, hnodes, hfields⟩ := exists_writtenAll children hsmall
    refine ⟨.constructed tagClass tagNumber field written, ?_, ?_, ?_, ?_⟩
    · rw [BerTree.Valid, hwrite]
      exact ⟨hvalue, hvalid⟩
    · rw [BerTree.write, hminimal.bytes_eq, hvalue, hwrite, encode, tlv, List.cons_append]
    · rw [BerTree.node, hwrite, hnodes, node]
    · rw [BerTree.fields]
      exact List.forall_mem_cons.mpr ⟨hminimal, hfields⟩

theorem exists_writtenAll (trees : List DerTree) (hsmall : (encodeAll trees).length < 256 ^ 127) :
    ∃ written : List BerTree, BerTree.ValidAll written ∧ BerTree.writeAll written = encodeAll trees ∧
      BerTree.nodes written = nodes trees ∧ ∀ field ∈ BerTree.fieldsAll written, field.Minimal := by
  match trees with
  | [] => exact ⟨[], trivial, rfl, rfl, List.forall_mem_nil _⟩
  | tree :: rest =>
    have hcontent := tree.length_content_le
    rw [encodeAll, List.length_append] at hsmall
    obtain ⟨first, hfirst, hwrite, hnode, hfields⟩ := exists_written tree (by omega)
    obtain ⟨others, hothers, hwrites, hnodes, hrest⟩ := exists_writtenAll rest (by omega)
    refine ⟨first :: others, ?_, ?_, ?_, ?_⟩
    · rw [BerTree.ValidAll]
      exact ⟨hfirst, hothers⟩
    · rw [BerTree.writeAll, hwrite, hwrites, encodeAll]
    · rw [BerTree.nodes, hnode, hnodes, nodes]
    · rw [BerTree.fieldsAll]
      exact List.forall_mem_append.mpr ⟨hfields, hrest⟩

end

/-- Parsing a tree where it stands gives its node and the offset behind it. -/
theorem parseTlv_encode (tree : DerTree) {data : Bytes} {off : ℕ} (hsmall : tree.content.length < 2 ^ 64)
    (hat : At data off tree.encode) : ∃ parsed : Parsed data off, parseTlv data off = .ok parsed ∧
      parsed.node = tree.node ∧ parsed.next = off + tree.encode.length := by
  have hbound : 2 ^ 64 ≤ 256 ^ 127 := by norm_num
  obtain ⟨written, hvalid, hwrite, hnode, -⟩ := exists_written tree (hsmall.trans_le hbound)
  rw [← hwrite] at hat ⊢
  rw [← hnode]
  exact parseTlv_write written hvalid hat

/-- Decoding an encoded tree gives its node. -/
theorem derDecode_encode (tree : DerTree) (hsmall : tree.content.length < 2 ^ 64) :
    derDecode tree.encode = .ok tree.node := by
  obtain ⟨parsed, hparsed, hnode, hnext⟩ := parseTlv_encode tree hsmall (At.self tree.encode)
  rw [derDecode, hparsed]
  simp only [hnext, hnode, Nat.zero_add, ne_eq, not_true_eq_false, if_false]

end DecisionCore.Rfc3161
