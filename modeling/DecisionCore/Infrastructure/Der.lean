import DecisionCore.Domain.PyText
import DecisionCore.Lib.BigEndian
import DecisionCore.Lib.Pieces

/-!
# The DER codec

The handwritten codec of the RFC 3161 client: encoders that build a TLV from its content, and a
recursive parser over offsets.  What the parser returns carries the bounds of the bytes it consumed,
which is what its own recursion and its loop terminate by.
-/

namespace DecisionCore.Rfc3161

open BigEndian PyText Pieces

/-- The exceptions of the client, with their texts where the client writes them. -/
inductive Error where
  | derError (text : String)
  | tsaError (text : String)
  | valueError (text : Option String)
  deriving DecidableEq, Repr

/-- `str(n)`. -/
def str (n : ℤ) : Except Error String :=
  match str? n with
  | some text => .ok text
  | none => .error (.valueError none)

/-- `int(text)`. -/
def int (text : String) : Except Error ℤ :=
  match int? text with
  | some n => .ok n
  | none => .error (.valueError none)

/-! ## Encoders -/

/-- `_der_length(n)`. -/
def derLength (n : ℕ) : Bytes :=
  if n < 0x80 then [UInt8.ofNat n]
  else
    let raw := toBytes (byteLength n) n
    UInt8.ofNat (0x80 ||| raw.length) :: raw

/-- `_tlv(tag, content)`. -/
def tlv (tag : UInt8) (content : Bytes) : Bytes := tag :: derLength content.length ++ content

def derBoolean (value : Bool) : Bytes := tlv 0x01 [if value then 0xff else 0x00]

/-- The test `raw[0] & 0x80`. -/
def topBit (raw : Bytes) : Bool := raw.head?.any fun byte ↦ byte &&& 0x80 ≠ 0

/-- The content of a positive `INTEGER`. -/
def integerContent (value : ℕ) : Bytes :=
  let raw := toBytes (byteLength value) value
  if topBit raw then 0x00 :: raw else raw

def derInteger (value : ℤ) : Except Error Bytes :=
  if value = 0 then .ok (tlv 0x02 [0x00])
  else if value < 0 then .error (.derError "only non-negative INTEGER supported")
  else .ok (tlv 0x02 (integerContent value.toNat))

def derOctetString (data : Bytes) : Bytes := tlv 0x04 data

def derNull : Bytes := tlv 0x05 []

/-- The bytes that the `while arc` loop puts before the last byte of an arc. -/
def arcHigh (arc : ℕ) : Bytes :=
  if arc = 0 then [] else arcHigh (arc >>> 7) ++ [UInt8.ofNat (arc &&& 0x7f) ||| 0x80]
termination_by arc
decreasing_by
  rw [Nat.shiftRight_eq_div_pow]
  omega

/-- The base-128 bytes of a further arc. -/
def arcBytes (dotted : String) (arc : ℤ) : Except Error Bytes :=
  if arc < 0 then .error (.derError ("bad OID arc: " ++ reprText dotted))
  else .ok (arcHigh (arc.toNat >>> 7) ++ [UInt8.ofNat (arc.toNat &&& 0x7f)])

/-- `out.append(n)` on a `bytearray`. -/
def byteOf (n : ℤ) : Except Error UInt8 :=
  if 0 ≤ n ∧ n < 256 then .ok (UInt8.ofNat n.toNat) else .error (.valueError none)

def derOid (dotted : String) : Except Error Bytes := do
  let arcs ← (splitDots dotted).mapM int
  match arcs with
  | first :: second :: rest =>
    if first > 2 ∨ second > 39 then .error (.derError ("bad OID: " ++ reprText dotted))
    else do
      let head ← byteOf (40 * first + second)
      let tail ← rest.mapM (arcBytes dotted)
      return tlv 0x06 (head :: tail.flatten)
  | _ => .error (.derError ("bad OID: " ++ reprText dotted))

def derGeneralizedTime (value : String) : Except Error Bytes :=
  match encodeAscii? value with
  | some data => .ok (tlv 0x18 data)
  | none => .error (.valueError none)

def derSequence (children : List Bytes) : Bytes := tlv 0x30 children.flatten

def derSet (children : List Bytes) : Bytes := tlv 0x31 children.flatten

/-- Context-specific constructed wrapper. -/
def derExplicit (tagNo : ℤ) (inner : Bytes) : Except Error Bytes :=
  if 0 ≤ tagNo ∧ tagNo ≤ 30 then .ok (tlv (0xa0 ||| UInt8.ofNat tagNo.toNat) inner)
  else .error (.derError "context tag number out of range")

/-! ## The parser -/

/-- One parsed TLV. -/
structure DerNode where
  tagClass : ℕ
  tagNumber : ℕ
  constructed : Bool
  content : Bytes
  children : List DerNode

/-- What `_parse_tlv` reads of a TLV before its content; the content lies within the data. -/
structure Header (data : Bytes) (off : ℕ) where
  tagClass : ℕ
  tagNumber : ℕ
  constructed : Bool
  start : ℕ
  length : ℕ
  progress : off + 2 ≤ start
  inRange : start + length ≤ data.length

/-- A parsed TLV and the offset behind it. -/
structure Parsed (data : Bytes) (off : ℕ) where
  node : DerNode
  next : ℕ
  progress : off + 2 ≤ next
  inRange : next ≤ data.length

/-- The length field behind `off`, whose first byte has been read. -/
def parseLength (data : Bytes) (firstLen : UInt8) (off : ℕ) : Except Error {field : ℕ × ℕ // off ≤ field.1} :=
  if firstLen &&& 0x80 ≠ 0 then
    let nbytes := (firstLen &&& 0x7f).toNat
    if nbytes = 0 ∨ off + nbytes > data.length then .error (.derError "bad DER length")
    else .ok ⟨(off + nbytes, fromBytes (slice data off nbytes)), by omega⟩
  else .ok ⟨(off, firstLen.toNat), le_rfl⟩

/-- The header of `_parse_tlv`. -/
def parseHeader (data : Bytes) (off : ℕ) : Except Error (Header data off) :=
  if h : off + 2 ≤ data.length then
    let tagByte := data[off]
    let tagNumber := (tagByte &&& 0x1f).toNat
    if tagNumber = 0x1f then .error (.derError "multi-byte tag numbers not supported")
    else
      match parseLength data data[off + 1] (off + 2) with
      | .error error => .error error
      | .ok ⟨(start, length), hstart⟩ =>
        if hlength : start + length ≤ data.length then
          .ok { tagClass := ((tagByte >>> 6) &&& 0x03).toNat, tagNumber,
                constructed := tagByte &&& 0x20 ≠ 0, start, length,
                progress := hstart, inRange := hlength }
        else .error (.derError "truncated TLV content")
  else .error (.derError "truncated TLV header")

/-- The loop `while pos < len(content)` over the children of a content. -/
def parseChildren {content : Bytes} (parse : (pos : ℕ) → Except Error (Parsed content pos)) (pos : ℕ) :
    Except Error (List DerNode) :=
  if pos < content.length then
    match parse pos with
    | .error error => .error error
    | .ok child =>
      match parseChildren parse child.next with
      | .error error => .error error
      | .ok rest => .ok (child.node :: rest)
  else .ok []
termination_by content.length - pos
decreasing_by
  have hprogress := child.progress
  omega

/-- `_parse_tlv(data, off)`. -/
def parseTlv (data : Bytes) (off : ℕ) : Except Error (Parsed data off) :=
  match parseHeader data off with
  | .error error => .error error
  | .ok header =>
    let content := slice data header.start header.length
    let next := header.start + header.length
    have hnext : off + 2 ≤ next := header.progress.trans (Nat.le_add_right _ _)
    if header.constructed then
      match parseChildren (fun pos ↦ parseTlv content pos) 0 with
      | .error error => .error error
      | .ok children =>
        .ok ⟨⟨header.tagClass, header.tagNumber, true, content, children⟩, next, hnext, header.inRange⟩
    else .ok ⟨⟨header.tagClass, header.tagNumber, false, content, []⟩, next, hnext, header.inRange⟩
termination_by data.length
decreasing_by
  -- The content is shorter than the data by the header.
  have hprogress := header.progress
  have hinRange := header.inRange
  simp only [slice, List.length_take, List.length_drop]
  omega

/-- `der_decode(data)`. -/
def derDecode (data : Bytes) : Except Error DerNode :=
  match parseTlv data 0 with
  | .error error => .error error
  | .ok parsed =>
    if parsed.next ≠ data.length then .error (.derError "trailing bytes after top-level TLV")
    else .ok parsed.node

/-! ## Readers of nodes -/

def expectUniversal (node : DerNode) (tagNumber : ℕ) (what : String) : Except Error DerNode :=
  if node.tagClass = 0 ∧ node.tagNumber = tagNumber then .ok node
  else .error (.derError ("expected " ++ what ++ ", got class=" ++ toString node.tagClass ++ " tag=" ++
    toString node.tagNumber))

def expectContext (node : DerNode) (tagNumber : ℕ) (what : String) : Except Error DerNode :=
  if node.tagClass = 2 ∧ node.tagNumber = tagNumber ∧ node.constructed = true then .ok node
  else .error (.derError ("expected " ++ what ++ ", got class=" ++ toString node.tagClass ++ " tag=" ++
    toString node.tagNumber ++ " constructed=" ++ (if node.constructed then "True" else "False")))

def derDecodeInteger (node : DerNode) : Except Error ℤ := do
  let _ ← expectUniversal node 0x02 "INTEGER"
  if node.constructed = true ∨ node.content = [] then .error (.derError "bad INTEGER")
  else
    let value := fromBytes node.content
    if topBit node.content then return (value : ℤ) - 2 ^ (8 * node.content.length)
    else return value

/-- The loop of `der_decode_oid`: the arcs behind the first two, and what is left of an unfinished one. -/
def decodeArcs : List ℕ → ℕ → Bytes → List ℕ × ℕ
  | arcs, val, [] => (arcs, val)
  | arcs, val, byte :: rest =>
    let val := val <<< 7 ||| (byte &&& 0x7f).toNat
    if byte &&& 0x80 = 0 then decodeArcs (arcs ++ [val]) 0 rest else decodeArcs arcs val rest

def derDecodeOid (node : DerNode) : Except Error String := do
  let _ ← expectUniversal node 0x06 "OBJECT IDENTIFIER"
  match node.content with
  | [] => .error (.derError "empty OID")
  | first :: rest =>
    let (arcs, val) := decodeArcs [first.toNat / 40, first.toNat % 40] 0 rest
    if val ≠ 0 ∨ (first :: rest).getLast?.any (fun byte ↦ byte &&& 0x80 ≠ 0) then
      .error (.derError "truncated OID")
    else do
      let texts ← arcs.mapM fun arc ↦ str arc
      return ".".intercalate texts

def derDecodeOctetString (node : DerNode) : Except Error Bytes := do
  let _ ← expectUniversal node 0x04 "OCTET STRING"
  if node.constructed then .error (.derError "constructed OCTET STRING not supported")
  else return node.content

def derDecodeGeneralizedTime (node : DerNode) : Except Error String := do
  let _ ← expectUniversal node 0x18 "GeneralizedTime"
  match decodeAscii? node.content with
  | some text => return text
  | none => .error (.derError "non-ASCII GeneralizedTime")

end DecisionCore.Rfc3161
