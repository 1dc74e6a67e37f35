import DecisionCore.Infrastructure.BerTree

/-!
# Tiling

The parser with its index accesses and its two loops written out: reading a byte beyond the data raises, and
a bound on the steps stands for a run that has not ended.  As many steps as bytes are left are enough, no
access is out of range, and the nodes that are answered tile the bytes they were read from.
-/

namespace DecisionCore.Rfc3161

open BigEndian Pieces

/-! ## The parser over indices -/

namespace Indexed

/-- What the parser can raise: its own exception, or that of an index beyond the data. -/
inductive Fault where
  | derError (text : String)
  | indexError
  deriving DecidableEq, Repr

/-- `data[off]`. -/
def byteAt (data : Bytes) (off : ℕ) : Except Fault UInt8 :=
  match data[off]? with
  | some byte => .ok byte
  | none => .error .indexError

/-- The start and the length of the content, from the first byte of the length field. -/
def contentBounds (data : Bytes) (firstLen : UInt8) (off : ℕ) : Except Fault (ℕ × ℕ) :=
  if firstLen &&& 0x80 ≠ 0 then
    let nbytes := (firstLen &&& 0x7f).toNat
    if nbytes = 0 ∨ off + nbytes > data.length then .error (.derError "bad DER length")
    else .ok (off + nbytes, fromBytes (slice data off nbytes))
  else .ok (off, firstLen.toNat)

/-- The tag class, the tag number, the constructed flag, and the start and the length of the content. -/
def header (data : Bytes) (off : ℕ) : Except Fault (ℕ × ℕ × Bool × ℕ × ℕ) :=
  if off + 2 > data.length then .error (.derError "truncated TLV header")
  else do
    let tagByte ← byteAt data off
    let tagNumber := (tagByte &&& 0x1f).toNat
    if tagNumber = 0x1f then .error (.derError "multi-byte tag numbers not supported")
    else do
      let firstLen ← byteAt data (off + 1)
      let (start, length) ← contentBounds data firstLen (off + 2)
      if start + length > data.length then .error (.derError "truncated TLV content")
      else return (((tagByte >>> 6) &&& 0x03).toNat, tagNumber, decide (tagByte &&& 0x20 ≠ 0), start, length)

mutual

/-- `_parse_tlv(data, off)`, none where the steps do not suffice. -/
def parseTlv : ℕ → Bytes → ℕ → Option (Except Fault (DerNode × ℕ))
  | 0, _, _ => none
  | steps + 1, data, off =>
    match header data off with
    | .error fault => some (.error fault)
    | .ok (tagClass, tagNumber, constructed, start, length) =>
      let content := slice data start length
      if constructed then
        match parseChildren steps content 0 with
        | none => none
        | some (.error fault) => some (.error fault)
        | some (.ok children) => some (.ok (⟨tagClass, tagNumber, constructed, content, children⟩, start + length))
      else some (.ok (⟨tagClass, tagNumber, constructed, content, []⟩, start + length))

/-- The loop `while pos < len(content)`. -/
def parseChildren : ℕ → Bytes → ℕ → Option (Except Fault (List DerNode))
  | 0, _, _ => none
  | steps + 1, content, pos =>
    if pos < content.length then
      match parseTlv steps content pos with
      | none => none
      | some (.error fault) => some (.error fault)
      | some (.ok (child, pos)) =>
        match parseChildren steps content pos with
        | none => none
        | some (.error fault) => some (.error fault)
        | some (.ok rest) => some (.ok (child :: rest))
    else some (.ok [])

end

/-! ## Agreement with the parser over checked offsets -/

/-- Both raise the same `DerError`, or both return, the one what is seen of the other's value. -/
def Agrees {α β : Type} (view : β → α) (indexed : Except Fault α) (checked : Except Error β) : Prop :=
  (∃ text, indexed = .error (.derError text) ∧ checked = .error (.derError text)) ∨
    ∃ value, indexed = .ok (view value) ∧ checked = .ok value

theorem byteAt_eq {data : Bytes} {off : ℕ} (h : off < data.length) : byteAt data off = .ok data[off] := by
  simp [byteAt, h]

theorem contentBounds_agrees (data : Bytes) (firstLen : UInt8) (off : ℕ) :
    Agrees Subtype.val (contentBounds data firstLen off) (parseLength data firstLen off) := by
  unfold contentBounds parseLength
  by_cases hlong : firstLen &&& 0x80 ≠ 0
  · rw [if_pos hlong, if_pos hlong]
    dsimp only
    split
    · exact .inl ⟨_, rfl, rfl⟩
    · exact .inr ⟨_, rfl, rfl⟩
  · rw [if_neg hlong, if_neg hlong]
    exact .inr ⟨_, rfl, rfl⟩

theorem header_agrees (data : Bytes) (off : ℕ) :
    Agrees (fun found ↦ (found.tagClass, found.tagNumber, found.constructed, found.start, found.length))
      (header data off) (parseHeader data off) := by
  unfold header parseHeader
  by_cases hroom : off + 2 ≤ data.length
  · rw [if_neg (Nat.not_lt.mpr hroom), dif_pos hroom, byteAt_eq (by omega)]
    simp only [bind, Except.bind]
    by_cases hnumber : (data[off] &&& 0x1f).toNat = 0x1f
    · rw [if_pos hnumber, if_pos hnumber]
      exact .inl ⟨_, rfl, rfl⟩
    · rw [if_neg hnumber, if_neg hnumber, byteAt_eq (show off + 1 < data.length by omega)]
      dsimp only
      obtain ⟨text, hindexed, hchecked⟩ | ⟨⟨⟨start, length⟩, hstart⟩, hindexed, hchecked⟩ :=
        contentBounds_agrees data data[off + 1] (off + 2)
      · rw [hindexed, hchecked]
        exact .inl ⟨_, rfl, rfl⟩
      · rw [hindexed, hchecked]
        dsimp only
        by_cases hlength : start + length ≤ data.length
        · rw [if_neg (Nat.not_lt.mpr hlength), dif_pos hlength]
          exact .inr ⟨_, rfl, rfl⟩
        · rw [if_pos (Nat.not_le.mp hlength), dif_neg hlength]
          exact .inl ⟨_, rfl, rfl⟩
  · rw [if_pos (Nat.not_le.mp hroom), dif_neg hroom]
    exact .inl ⟨_, rfl, rfl⟩

mutual

/-- A step for every byte that is left, and one more, lead to the end of a parse. -/
theorem parseTlv_agrees {steps : ℕ} {data : Bytes} {off : ℕ} (h : data.length - off < steps) :
    ∃ outcome, parseTlv steps data off = some outcome ∧
      Agrees (fun found ↦ (found.node, found.next)) outcome (Rfc3161.parseTlv data off) := by
  match steps with
  | steps + 1 =>
    rw [parseTlv, Rfc3161.parseTlv]
    obtain ⟨text, hindexed, hchecked⟩ | ⟨found, hindexed, hchecked⟩ := header_agrees data off
    · rw [hindexed, hchecked]
      exact ⟨_, rfl, .inl ⟨_, rfl, rfl⟩⟩
    · have hprogress := found.progress
      have hcontent := length_slice found.inRange
      rw [hindexed, hchecked]
      dsimp only
      cases hconstructed : found.constructed with
      | false => exact ⟨_, rfl, .inr ⟨_, rfl, rfl⟩⟩
      | true =>
        have hfewer : (slice data found.start found.length).length - 0 + 1 < steps := by
          have hinRange := found.inRange
          omega
        obtain ⟨outcome, hloop, hagrees⟩ := parseChildren_agrees hfewer
        rw [if_pos rfl, if_pos rfl, hloop]
        obtain ⟨text, rfl, hchildren⟩ | ⟨children, rfl, hchildren⟩ := hagrees
        · rw [hchildren]
          exact ⟨_, rfl, .inl ⟨_, rfl, rfl⟩⟩
        · rw [hchildren]
          exact ⟨_, rfl, .inr ⟨_, rfl, rfl⟩⟩

theorem parseChildren_agrees {steps : ℕ} {content : Bytes} {pos : ℕ} (h : content.length - pos + 1 < steps) :
    ∃ outcome, parseChildren steps content pos = some outcome ∧
      Agrees id outcome (Rfc3161.parseChildren (fun pos ↦ Rfc3161.parseTlv content pos) pos) := by
  match steps with
  | steps + 1 =>
    rw [parseChildren, Rfc3161.parseChildren]
    by_cases hmore : pos < content.length
    · rw [if_pos hmore, if_pos hmore]
      obtain ⟨outcome, hparse, hagrees⟩ := parseTlv_agrees (show content.length - pos < steps by omega)
      rw [hparse]
      obtain ⟨text, rfl, hchild⟩ | ⟨child, rfl, hchild⟩ := hagrees
      · rw [hchild]
        exact ⟨_, rfl, .inl ⟨_, rfl, rfl⟩⟩
      · have hprogress := child.progress
        obtain ⟨outcome, hloop, hagrees⟩ :=
          parseChildren_agrees (show content.length - child.next + 1 < steps by omega)
        rw [hchild]
        dsimp only
        rw [hloop]
        obtain ⟨text, rfl, hrest⟩ | ⟨rest, rfl, hrest⟩ := hagrees
        · rw [hrest]
          exact ⟨_, rfl, .inl ⟨_, rfl, rfl⟩⟩
        · rw [hrest]
          exact ⟨_, rfl, .inr ⟨_, rfl, rfl⟩⟩
    · rw [if_neg hmore, if_neg hmore]
      exact ⟨_, rfl, .inr ⟨_, rfl, rfl⟩⟩

end

end Indexed

/-! ## Tiles -/

mutual

/-- The node was read from the bytes between the offsets: behind its header stands its content, up to the second
offset, and the children of a constructed node tile it. -/
inductive Tiles : Bytes → ℕ → DerNode → ℕ → Prop
  | primitive {data content : Bytes} {off start tagClass tagNumber : ℕ} : off + 2 ≤ start → At data start content →
    Tiles data off ⟨tagClass, tagNumber, false, content, []⟩ (start + content.length)
  | constructed {data content : Bytes} {off start tagClass tagNumber : ℕ} {children : List DerNode} :
    off + 2 ≤ start → At data start content → TilesAll content 0 children →
    Tiles data off ⟨tagClass, tagNumber, true, content, children⟩ (start + content.length)

/-- The nodes were read one behind the other, from the offset to the end. -/
inductive TilesAll : Bytes → ℕ → List DerNode → Prop
  | nil {content : Bytes} : TilesAll content content.length []
  | cons {content : Bytes} {pos next : ℕ} {child : DerNode} {rest : List DerNode} : Tiles content pos child next →
    TilesAll content next rest → TilesAll content pos (child :: rest)

end

theorem LengthField.length_bytes_pos (field : LengthField) : 0 < field.bytes.length := by
  obtain ⟨first, more, hfield⟩ := field.bytes_ne_nil
  rw [hfield]
  exact Nat.succ_pos _

mutual

/-- A written tree is tiled by its nodes. -/
theorem tiles_write (tree : BerTree) {data : Bytes} {off : ℕ} (hat : At data off tree.write) :
    Tiles data off tree.node (off + tree.write.length) := by
  match tree with
  | .primitive tagClass tagNumber field content =>
    rw [BerTree.write] at hat ⊢
    have hend : off + (tagByte tagClass false tagNumber :: (field.bytes ++ content)).length =
        off + 1 + field.bytes.length + content.length := by
      rw [List.length_cons, List.length_append]
      omega
    rw [hend, BerTree.node]
    have hpos := field.length_bytes_pos
    exact .primitive (by omega) hat.tail.right
  | .constructed tagClass tagNumber field children =>
    rw [BerTree.write] at hat ⊢
    have hend : off + (tagByte tagClass true tagNumber :: (field.bytes ++ BerTree.writeAll children)).length =
        off + 1 + field.bytes.length + (BerTree.writeAll children).length := by
      rw [List.length_cons, List.length_append]
      omega
    rw [hend, BerTree.node]
    have hpos := field.length_bytes_pos
    exact .constructed (by omega) hat.tail.right (tilesAll_write children (At.self _) (Nat.zero_add _))

theorem tilesAll_write (trees : List BerTree) {content : Bytes} {pos : ℕ}
    (hat : At content pos (BerTree.writeAll trees))
    (hend : pos + (BerTree.writeAll trees).length = content.length) : TilesAll content pos (BerTree.nodes trees) := by
  match trees with
  | [] =>
    rw [BerTree.writeAll, List.length_nil, Nat.add_zero] at hend
    rw [BerTree.nodes, hend]
    exact .nil
  | tree :: rest =>
    rw [BerTree.writeAll] at hat hend
    rw [List.length_append, ← Nat.add_assoc] at hend
    rw [BerTree.nodes]
    exact .cons (tiles_write tree hat.left) (tilesAll_write rest hat.right hend)

end

/-- The parser ends within as many steps as bytes are left, and one more: it raises a `DerError`, or it returns a node
that is tiled by what it was read from. -/
theorem parser_terminates_and_tiles (data : Bytes) (off : ℕ) :
    ∃ outcome, (∀ steps, data.length - off < steps → Indexed.parseTlv steps data off = some outcome) ∧
      ((∃ text, outcome = .error (.derError text)) ∨
        ∃ node next, outcome = .ok (node, next) ∧ off + 2 ≤ next ∧ next ≤ data.length ∧ Tiles data off node next) := by
  have hends (steps : ℕ) (h : data.length - off < steps) := Indexed.parseTlv_agrees h
  cases hchecked : parseTlv data off with
  | error error =>
    have hraises (steps : ℕ) (h : data.length - off < steps) :
        ∃ text, error = .derError text ∧ Indexed.parseTlv steps data off = some (.error (.derError text)) := by
      obtain ⟨outcome, hparse, ⟨text, rfl, hraised⟩ | ⟨parsed, -, hreturned⟩⟩ := hends steps h
      · rw [hchecked] at hraised
        exact ⟨text, Except.error.inj hraised, hparse⟩
      · rw [hchecked] at hreturned
        cases hreturned
    obtain ⟨text, rfl, -⟩ := hraises _ (Nat.lt_succ_self _)
    refine ⟨.error (.derError text), ?_, .inl ⟨text, rfl⟩⟩
    intro steps h
    obtain ⟨same, hsame, hparse⟩ := hraises steps h
    rw [hparse, Error.derError.inj hsame]
  | ok parsed =>
    obtain ⟨tree, -, hat, hnext, hnode⟩ := parseTlv_ok hchecked
    refine ⟨.ok (parsed.node, parsed.next), ?_,
      .inr ⟨parsed.node, parsed.next, rfl, parsed.progress, parsed.inRange, ?_⟩⟩
    · intro steps h
      obtain ⟨outcome, hparse, ⟨text, -, hraised⟩ | ⟨same, rfl, hreturned⟩⟩ := hends steps h
      · rw [hchecked] at hraised
        cases hraised
      · rw [hchecked] at hreturned
        rw [hparse, Except.ok.inj hreturned]
    · rw [hnode, hnext]
      exact tiles_write tree hat

end DecisionCore.Rfc3161
