import DecisionCore.Infrastructure.Der

/-!
# What the parser accepts

Trees that keep the length field each of their nodes was written with, in the short form or in a long form
of up to 127 bytes.  The parser accepts exactly the byte strings that such trees are written as, and
answers with the node of the tree.
-/

namespace DecisionCore.Rfc3161

open BigEndian Pieces

/-- The tag byte of a node. -/
def tagByte (tagClass : Fin 4) (constructed : Bool) (tagNumber : Fin 31) : UInt8 :=
  UInt8.ofNat (64 * tagClass + (if constructed then 32 else 0) + tagNumber)

/-! ## The tag byte -/

section TagByte

variable (tagClass : Fin 4) (constructed : Bool) (tagNumber : Fin 31)

theorem tagByte_number : (tagByte tagClass constructed tagNumber &&& 0x1f).toNat = tagNumber := by
  revert tagClass constructed tagNumber
  decide

theorem tagByte_class : ((tagByte tagClass constructed tagNumber >>> 6) &&& 0x03).toNat = tagClass := by
  revert tagClass constructed tagNumber
  decide

theorem tagByte_constructed : decide (tagByte tagClass constructed tagNumber &&& 0x20 ≠ 0) = constructed := by
  revert tagClass constructed tagNumber
  decide

end TagByte

/-! ## Length fields and trees -/

/-- A length field that the parser can read. -/
inductive LengthField where
  | short (value : Fin 128)
  | long (more : Bytes) (count : 0 < more.length ∧ more.length < 128)

namespace LengthField

def value : LengthField → ℕ
  | short value => value
  | long more _ => fromBytes more

def bytes : LengthField → Bytes
  | short value => [UInt8.ofNat value]
  | long more _ => UInt8.ofNat (0x80 ||| more.length) :: more

/-- The short form is used below 128, and a long form has no leading zero. -/
def Minimal : LengthField → Prop
  | short _ => True
  | long more _ => 0x80 ≤ fromBytes more ∧ more.head? ≠ some 0

end LengthField

/-- A tree with the length fields of its nodes. -/
inductive BerTree where
  | primitive (tagClass : Fin 4) (tagNumber : Fin 31) (field : LengthField) (content : Bytes)
  | constructed (tagClass : Fin 4) (tagNumber : Fin 31) (field : LengthField) (children : List BerTree)

namespace BerTree

mutual

def write : BerTree → Bytes
  | primitive tagClass tagNumber field content => tagByte tagClass false tagNumber :: (field.bytes ++ content)
  | constructed tagClass tagNumber field children =>
    tagByte tagClass true tagNumber :: (field.bytes ++ writeAll children)

def writeAll : List BerTree → Bytes
  | [] => []
  | tree :: rest => write tree ++ writeAll rest

end

mutual

/-- Every length field is the length of its content. -/
def Valid : BerTree → Prop
  | primitive _ _ field content => field.value = content.length
  | constructed _ _ field children => field.value = (writeAll children).length ∧ ValidAll children

def ValidAll : List BerTree → Prop
  | [] => True
  | tree :: rest => Valid tree ∧ ValidAll rest

end

mutual

/-- The node that a tree is parsed as. -/
def node : BerTree → DerNode
  | primitive tagClass tagNumber _ content => ⟨tagClass, tagNumber, false, content, []⟩
  | constructed tagClass tagNumber _ children => ⟨tagClass, tagNumber, true, writeAll children, nodes children⟩

def nodes : List BerTree → List DerNode
  | [] => []
  | tree :: rest => node tree :: nodes rest

end

mutual

/-- The length fields of a tree, at every depth. -/
def fields : BerTree → List LengthField
  | primitive _ _ field _ => [field]
  | constructed _ _ field children => field :: fieldsAll children

def fieldsAll : List BerTree → List LengthField
  | [] => []
  | tree :: rest => fields tree ++ fieldsAll rest

end

end BerTree

/-! ## Reading length fields -/

theorem low7_ofNat {n : ℕ} (h : n < 128) : ((UInt8.ofNat (0x80 ||| n)) &&& 0x7f).toNat = n := by
  interval_cases n <;> rfl

theorem high_ofNat {n : ℕ} (h : n < 128) : (UInt8.ofNat (0x80 ||| n)) &&& 0x80 ≠ 0 := by
  interval_cases n <;> decide

theorem high_ofNat_short {n : ℕ} (h : n < 128) : (UInt8.ofNat n) &&& 0x80 = 0 := by
  interval_cases n <;> rfl

/-- The parser reads a length field where it stands. -/
theorem parseLength_field (field : LengthField) {data : Bytes} {off : ℕ} {first : UInt8} {more : Bytes}
    (hfield : field.bytes = first :: more) (hat : At data off more) :
    ∃ hle, parseLength data first off = .ok ⟨(off + more.length, field.value), hle⟩ := by
  refine ⟨Nat.le_add_right _ _, ?_⟩
  cases field with
  | short value =>
    obtain ⟨rfl, rfl⟩ := List.cons.inj hfield
    have hvalue : (UInt8.ofNat value).toNat = value := by
      rw [UInt8.toNat_ofNat']
      omega
    simp [parseLength, high_ofNat_short value.isLt, hvalue, LengthField.value]
  | long bytes hcount =>
    obtain ⟨rfl, rfl⟩ := List.cons.inj hfield
    have hle := hat.le
    have hfits : ¬ (bytes.length = 0 ∨ off + bytes.length > data.length) := by omega
    unfold parseLength
    rw [if_pos (high_ofNat hcount.2)]
    simp only [low7_ofNat hcount.2, if_neg hfits, hat.slice_eq, LengthField.value]

/-- A property of all bytes is one of the first 256 numbers. -/
theorem forall_byte {p : UInt8 → Prop} (h : ∀ n < 256, p (UInt8.ofNat n)) (byte : UInt8) : p byte := by
  have hbyte := h byte.toNat byte.toNat_lt
  rwa [UInt8.ofNat_toNat] at hbyte

/-- The top bit of a byte and its other bits. -/
theorem ofNat_high : ∀ byte : UInt8, byte &&& 0x80 ≠ 0 → UInt8.ofNat (0x80 ||| (byte &&& 0x7f).toNat) = byte :=
  forall_byte (by decide +kernel)

theorem toNat_lt_of_low : ∀ byte : UInt8, byte &&& 0x80 = 0 → byte.toNat < 128 :=
  forall_byte (by decide +kernel)

theorem low7_lt : ∀ byte : UInt8, (byte &&& 0x7f).toNat < 128 :=
  forall_byte (by decide +kernel)

/-- What the parser has read as a length is a length field in the data. -/
theorem parseLength_ok {data : Bytes} {first : UInt8} {off start length : ℕ} {hle : off ≤ start}
    (hoff : off ≤ data.length) (h : parseLength data first off = .ok ⟨(start, length), hle⟩) :
    ∃ field : LengthField, ∃ more, field.bytes = first :: more ∧ At data off more ∧
      start = off + more.length ∧ length = field.value := by
  unfold parseLength at h
  split at h
  · rename_i hhigh
    dsimp only at h
    split at h
    · cases h
    · rename_i hfits
      obtain ⟨rfl, rfl⟩ := Prod.mk.inj (Subtype.mk.inj (Except.ok.inj h))
      have hinRange : off + (first &&& 0x7f).toNat ≤ data.length := by omega
      have hlength := length_slice hinRange
      have hlow := low7_lt first
      refine ⟨.long (slice data off (first &&& 0x7f).toNat) (by omega), slice data off (first &&& 0x7f).toNat, ?_,
        at_slice hinRange, by rw [hlength], rfl⟩
      rw [LengthField.bytes, hlength, ofNat_high first hhigh]
  · rename_i hlow
    obtain ⟨rfl, rfl⟩ := Prod.mk.inj (Subtype.mk.inj (Except.ok.inj h))
    refine ⟨.short ⟨first.toNat, toNat_lt_of_low first (not_not.mp hlow)⟩, [], ?_, ⟨hoff, List.nil_prefix⟩, rfl, rfl⟩
    rw [LengthField.bytes, UInt8.ofNat_toNat]

theorem LengthField.bytes_ne_nil (field : LengthField) : ∃ first more, field.bytes = first :: more := by
  cases field with
  | short value => exact ⟨_, _, rfl⟩
  | long more hcount => exact ⟨_, _, rfl⟩

/-! ## Headers -/

/-- The parser reads the header of a TLV where the TLV stands. -/
theorem parseHeader_field {data : Bytes} {off : ℕ} {tagClass : Fin 4} {constructed : Bool} {tagNumber : Fin 31}
    {field : LengthField} {content : Bytes} (hlength : field.value = content.length)
    (hat : At data off (tagByte tagClass constructed tagNumber :: (field.bytes ++ content))) :
    ∃ header : Header data off, parseHeader data off = .ok header ∧ header.tagClass = tagClass ∧
      header.tagNumber = tagNumber ∧ header.constructed = constructed ∧
      slice data header.start header.length = content ∧
      header.start + header.length = off + (1 + field.bytes.length + content.length) := by
  obtain ⟨first, more, hfield⟩ := field.bytes_ne_nil
  rw [hfield, List.cons_append] at hat
  obtain ⟨htag, htagByte⟩ := hat.getElem
  obtain ⟨hlen, hfirst⟩ := hat.tail.getElem
  have hmore := hat.tail.tail
  have hstart := hmore.right
  have hend := hstart.le
  obtain ⟨hle, hread⟩ := parseLength_field field hfield hmore.left
  rw [hlength] at hread
  have hnumber : ¬ (tagNumber : ℕ) = 0x1f := by omega
  refine ⟨⟨tagClass, tagNumber, constructed, off + 1 + 1 + more.length, content.length, by omega, hend⟩, ?_, rfl,
    rfl, rfl, hstart.slice_eq, by dsimp only; rw [hfield, List.length_cons]; omega⟩
  rw [parseHeader, dif_pos (show off + 2 ≤ data.length by omega)]
  simp only [htagByte, hfirst, tagByte_number, tagByte_class, tagByte_constructed, if_neg hnumber]
  rw [hread]
  simp only [dif_pos hend]

/-- A byte is the tag byte of what the parser reads in it. -/
theorem tagByte_parts : ∀ byte : UInt8, (byte &&& 0x1f).toNat ≠ 0x1f →
    ∃ hclass : ((byte >>> 6) &&& 0x03).toNat < 4, ∃ hnumber : (byte &&& 0x1f).toNat < 31,
      tagByte ⟨_, hclass⟩ (byte &&& 0x20 ≠ 0) ⟨_, hnumber⟩ = byte :=
  forall_byte (by decide +kernel)

/-- What the parser has read as a header is a tag byte and a length field in the data. -/
theorem parseHeader_ok {data : Bytes} {off : ℕ} {header : Header data off} (h : parseHeader data off = .ok header) :
    ∃ (tagClass : Fin 4) (tagNumber : Fin 31) (field : LengthField), header.tagClass = tagClass ∧
      header.tagNumber = tagNumber ∧ header.length = field.value ∧
      header.start = off + (1 + field.bytes.length) ∧
      At data off (tagByte tagClass header.constructed tagNumber ::
        (field.bytes ++ slice data header.start header.length)) := by
  unfold parseHeader at h
  split at h
  · rename_i hroom
    dsimp only at h
    split at h
    · cases h
    · rename_i hnumber
      split at h
      · cases h
      · rename_i start length hstart hread
        split at h
        · rename_i hinRange
          obtain rfl := Except.ok.inj h
          obtain ⟨field, more, hfield, hmore, hend, hlength⟩ := parseLength_ok (by omega) hread
          obtain ⟨hclass, hlow, htag⟩ := tagByte_parts data[off] hnumber
          refine ⟨⟨_, hclass⟩, ⟨_, hlow⟩, field, rfl, rfl, hlength, ?_, ?_⟩
          · rw [hfield, List.length_cons]
            dsimp only
            omega
          · dsimp only
            rw [htag, hfield, List.cons_append]
            apply At.cons (by omega)
            apply At.cons (by omega)
            rw [hend] at hinRange ⊢
            exact at_append.mpr ⟨hmore, at_slice hinRange⟩
        · cases h
  · cases h

/-! ## Parsing -/

namespace BerTree

theorem write_eq (tree : BerTree) : ∃ first rest, tree.write = first :: rest := by
  cases tree with
  | primitive tagClass tagNumber field content =>
    rw [write]
    exact ⟨_, _, rfl⟩
  | constructed tagClass tagNumber field children =>
    rw [write]
    exact ⟨_, _, rfl⟩

theorem length_write_pos (tree : BerTree) : 0 < tree.write.length := by
  obtain ⟨first, rest, hwrite⟩ := tree.write_eq
  rw [hwrite]
  exact Nat.succ_pos _

end BerTree

open BerTree

mutual

/-- Parsing a tree where it stands gives its node and the offset behind it. -/
theorem parseTlv_write (tree : BerTree) {data : Bytes} {off : ℕ} (hvalid : tree.Valid)
    (hat : At data off tree.write) : ∃ parsed : Parsed data off, parseTlv data off = .ok parsed ∧
      parsed.node = tree.node ∧ parsed.next = off + tree.write.length := by
  match tree with
  | .primitive tagClass tagNumber field content =>
    rw [Valid] at hvalid
    rw [write] at hat
    obtain ⟨header, hheader, hclass, hnumber, hconstructed, hslice, hend⟩ := parseHeader_field hvalid hat
    rw [parseTlv, hheader]
    refine ⟨_, if_neg (by simp [hconstructed]), ?_, ?_⟩
    · simp only [node, hclass, hnumber, hslice]
    · rw [write, List.length_cons, List.length_append]
      dsimp only
      omega
  | .constructed tagClass tagNumber field children =>
    rw [Valid] at hvalid
    rw [write] at hat
    obtain ⟨header, hheader, hclass, hnumber, hconstructed, hslice, hend⟩ := parseHeader_field hvalid.1 hat
    have hchildren := parseChildren_writeAll children hvalid.2 (At.self (writeAll children)) (Nat.zero_add _)
    rw [parseTlv, hheader]
    simp only [hconstructed, if_true]
    rw [hslice, hchildren]
    refine ⟨_, rfl, ?_, ?_⟩
    · simp only [node, hclass, hnumber]
    · rw [write, List.length_cons, List.length_append]
      dsimp only
      omega

/-- The loop reads children one after the other to the end of the content. -/
theorem parseChildren_writeAll (trees : List BerTree) {content : Bytes} {pos : ℕ} (hvalid : ValidAll trees)
    (hat : At content pos (writeAll trees)) (hend : pos + (writeAll trees).length = content.length) :
    parseChildren (fun pos ↦ parseTlv content pos) pos = .ok (nodes trees) := by
  match trees with
  | [] =>
    rw [writeAll, List.length_nil] at hend
    rw [parseChildren, if_neg (by omega), nodes]
  | tree :: rest =>
    have hpos := tree.length_write_pos
    rw [ValidAll] at hvalid
    rw [writeAll] at hat hend
    rw [List.length_append] at hend
    obtain ⟨parsed, hparsed, hnode, hnext⟩ := parseTlv_write tree hvalid.1 hat.left
    have hrest : parseChildren (fun pos ↦ parseTlv content pos) parsed.next = .ok (nodes rest) := by
      rw [hnext]
      exact parseChildren_writeAll rest hvalid.2 hat.right (by omega)
    rw [parseChildren, if_pos (by omega), hparsed]
    simp only [hrest, hnode, nodes]

end

/-- What was parsed at an offset stands there as a written tree. -/
def Written {data : Bytes} {off : ℕ} (parsed : Parsed data off) : Prop :=
  ∃ tree : BerTree, tree.Valid ∧ At data off tree.write ∧ parsed.next = off + tree.write.length ∧
    parsed.node = tree.node

/-- The nodes that the loop has read are those of trees that fill the content. -/
theorem parseChildren_ok {content : Bytes} {parse : (pos : ℕ) → Except Error (Parsed content pos)}
    (hparse : ∀ pos parsed, parse pos = .ok parsed → Written parsed) {pos : ℕ} (hpos : pos ≤ content.length)
    {children : List DerNode} (h : parseChildren parse pos = .ok children) :
    ∃ trees, ValidAll trees ∧ At content pos (writeAll trees) ∧
      pos + (writeAll trees).length = content.length ∧ children = nodes trees := by
  induction hleft : content.length - pos using Nat.strong_induction_on generalizing pos children with
  | _ left ih =>
    rw [parseChildren] at h
    split at h
    · rename_i hmore
      split at h
      · cases h
      · rename_i child hchild
        split at h
        · cases h
        · rename_i rest hrest
          obtain rfl := Except.ok.inj h
          obtain ⟨tree, hvalid, hat, hnext, hnode⟩ := hparse pos child hchild
          have hprogress := child.progress
          obtain ⟨trees, hvalids, hats, hend, rfl⟩ := ih _ (by omega) child.inRange hrest rfl
          rw [hnext] at hats hend
          refine ⟨tree :: trees, ?_, ?_, ?_, ?_⟩
          · rw [ValidAll]
            exact ⟨hvalid, hvalids⟩
          · rw [writeAll]
            exact at_append.mpr ⟨hat, hats⟩
          · rw [writeAll, List.length_append]
            omega
          · rw [nodes, hnode]
    · obtain rfl := Except.ok.inj h
      refine ⟨[], trivial, ⟨hpos, List.nil_prefix⟩, ?_, rfl⟩
      rw [writeAll, List.length_nil]
      omega

/-- The parser answers with the node of a tree that stands at the offset. -/
theorem parseTlv_ok {data : Bytes} {off : ℕ} {parsed : Parsed data off} (h : parseTlv data off = .ok parsed) :
    Written parsed := by
  induction hlength : data.length using Nat.strong_induction_on generalizing data off with
  | _ length ih =>
    rw [parseTlv] at h
    split at h
    · cases h
    · rename_i header hheader
      obtain ⟨tagClass, tagNumber, field, hclass, hnumber, hfield, hstart, hat⟩ := parseHeader_ok hheader
      have hprogress := header.progress
      have hinRange := header.inRange
      have hcontent := length_slice hinRange
      dsimp only at h
      split at h
      · rename_i hconstructed
        rw [hconstructed] at hat
        split at h
        · cases h
        · rename_i children hchildren
          obtain rfl := Except.ok.inj h
          obtain ⟨trees, hvalids, hats, hend, rfl⟩ := parseChildren_ok
            (fun pos child hchild ↦ ih _ (by omega) hchild rfl) (Nat.zero_le _) hchildren
          have hwhole : writeAll trees = slice data header.start header.length := by
            have hsame := hats.slice_eq
            rw [Nat.zero_add] at hend
            rw [hend, slice, List.drop_zero, List.take_length] at hsame
            exact hsame.symm
          refine ⟨.constructed tagClass tagNumber field trees, ?_, ?_, ?_, ?_⟩
          · rw [Valid, hwhole, hcontent]
            exact ⟨hfield.symm, hvalids⟩
          · rw [write, hwhole]
            exact hat
          · rw [write, hwhole, List.length_cons, List.length_append, hcontent]
            dsimp only
            omega
          · rw [node, hwhole, hclass, hnumber]
      · rename_i hprimitive
        rw [Bool.not_eq_true] at hprimitive
        rw [hprimitive] at hat
        obtain rfl := Except.ok.inj h
        refine ⟨.primitive tagClass tagNumber field (slice data header.start header.length), ?_, ?_, ?_, ?_⟩
        · rw [Valid, hcontent, hfield]
        · rw [write]
          exact hat
        · rw [write, List.length_cons, List.length_append, hcontent]
          dsimp only
          omega
        · rw [node, hclass, hnumber]

/-- The decoder accepts the written trees and nothing else, and answers with their nodes. -/
theorem derDecode_iff {data : Bytes} {root : DerNode} :
    derDecode data = .ok root ↔ ∃ tree : BerTree, tree.Valid ∧ tree.write = data ∧ tree.node = root := by
  constructor
  · intro h
    unfold derDecode at h
    split at h
    · cases h
    · rename_i parsed hparsed
      split at h
      · cases h
      · rename_i hend
        obtain rfl := Except.ok.inj h
        obtain ⟨tree, hvalid, hat, hnext, hnode⟩ := parseTlv_ok hparsed
        rw [not_not, hnext, Nat.zero_add] at hend
        have hsame := hat.slice_eq
        rw [hend, slice, List.drop_zero, List.take_length] at hsame
        exact ⟨tree, hvalid, hsame.symm, hnode.symm⟩
  · rintro ⟨tree, hvalid, rfl, rfl⟩
    obtain ⟨parsed, hparsed, hnode, hnext⟩ := parseTlv_write tree hvalid (At.self tree.write)
    rw [derDecode, hparsed]
    simp only [hnext, hnode, Nat.zero_add, ne_eq, not_true_eq_false, if_false]

end DecisionCore.Rfc3161
