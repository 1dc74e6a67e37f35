import DecisionCore.Infrastructure.GeneralizedTime

/-!
# The RFC 3161 client

Time-stamp requests, the structures of a response and the two methods of the client.  The HTTP
exchange is a function from the request to the bytes of the response.
-/

namespace DecisionCore.Rfc3161

open PyText

/-- The hash names that the client accepts. -/
inductive HashName where
  | sha1
  | sha256
  | sha384
  | sha512
  deriving DecidableEq, Repr

/-- `_HASH_OIDS`. -/
def HashName.oid : HashName → String
  | sha1 => "1.3.14.3.2.26"
  | sha256 => "2.16.840.1.101.3.4.2.1"
  | sha384 => "2.16.840.1.101.3.4.2.2"
  | sha512 => "2.16.840.1.101.3.4.2.3"

def HashName.name : HashName → String
  | sha1 => "sha1"
  | sha256 => "sha256"
  | sha384 => "sha384"
  | sha512 => "sha512"

def HashName.digestSize : HashName → ℕ
  | sha1 => 20
  | sha256 => 32
  | sha384 => 48
  | sha512 => 64

def oidSignedData : String := "1.2.840.113549.1.7.2"

def oidTstInfo : String := "1.2.840.113549.1.9.16.1.4"

/-- `_PKI_STATUS_NAMES.get(status, …)`; the default is formatted in any case. -/
def pkiStatusName (status : ℤ) : Except Error String := do
  let text ← str status
  return if status = 0 then "granted"
    else if status = 1 then "grantedWithMods"
    else if status = 2 then "rejection"
    else if status = 3 then "waiting"
    else if status = 4 then "revocationWarning"
    else if status = 5 then "revocationNotification"
    else "unknown(" ++ text ++ ")"

/-! ## Requests -/

def algorithmIdentifier (hashOid : String) : Except Error Bytes := do
  let oid ← derOid hashOid
  return derSequence [oid, derNull]

def messageImprint (hashOid : String) (digest : Bytes) : Except Error Bytes := do
  let algorithm ← algorithmIdentifier hashOid
  return derSequence [algorithm, derOctetString digest]

def buildTimestampReq (hashOid : String) (digest : Bytes) (nonce : ℤ) : Except Error Bytes := do
  let version ← derInteger 1
  let imprint ← messageImprint hashOid digest
  let nonce ← derInteger nonce
  return derSequence [version, imprint, nonce, derBoolean false]

/-! ## Responses -/

structure ParsedTstInfo where
  genTime : String
  hashedMessage : Bytes
  nonce : Option ℤ

/-- The first universal `INTEGER` of the fields behind `genTime`. -/
def nonceOf (extras : List DerNode) : Except Error (Option ℤ) :=
  match extras.find? fun extra ↦ extra.tagClass = 0 ∧ extra.tagNumber = 0x02 with
  | some extra => (derDecodeInteger extra).map some
  | none => .ok none

def parseTstInfo (node : DerNode) : Except Error ParsedTstInfo := do
  let _ ← expectUniversal node 0x10 "TSTInfo"
  match node.children with
  | _ :: policy :: imprint :: _ :: time :: extras => do
    let _ ← expectUniversal policy 0x06 "TSTInfo.policy"
    let _ ← expectUniversal imprint 0x10 "TSTInfo.messageImprint"
    match imprint.children with
    | [algorithm, message] => do
      let _ ← expectUniversal algorithm 0x10 "MessageImprint.hashAlgorithm"
      let hashed ← derDecodeOctetString message
      let _ ← expectUniversal time 0x18 "TSTInfo.genTime"
      let genTime ← derDecodeGeneralizedTime time
      let nonce ← nonceOf extras
      return ⟨genTime, hashed, nonce⟩
    | _ => .error (.derError "bad MessageImprint")
  | _ => .error (.derError "TSTInfo too short")

/-- One part of `statusString`. -/
def statusPart (node : DerNode) : String := (decodeUtf8? node.content).getD (reprData node.content)

def parsePkiStatusInfo (node : DerNode) : Except Error (ℤ × String) := do
  let _ ← expectUniversal node 0x10 "PKIStatusInfo"
  match node.children with
  | [] => .error (.derError "empty PKIStatusInfo")
  | first :: rest => do
    let _ ← expectUniversal first 0x02 "PKIStatus"
    let status ← derDecodeInteger first
    let detail := match rest with
      | [] => ""
      | text :: _ =>
        if text.tagClass = 0 ∧ text.tagNumber = 0x10 then "; ".intercalate (text.children.map statusPart) else ""
    return (status, detail)

/-- The TSTInfo octets of an encapsulated content. -/
def parseEncapContentInfo (node : DerNode) : Except Error Bytes := do
  let _ ← expectUniversal node 0x10 "EncapsulatedContentInfo"
  match node.children with
  | [contentType, wrapper] => do
    let _ ← expectUniversal contentType 0x06 "eContentType"
    let econtentType ← derDecodeOid contentType
    if econtentType ≠ oidTstInfo then .error (.derError ("unexpected eContentType " ++ econtentType))
    else do
      let _ ← expectContext wrapper 0 "eContent"
      match wrapper.children with
      | [] => .error (.derError "empty eContent")
      | octets :: _ => derDecodeOctetString octets
  | _ => .error (.derError "bad EncapsulatedContentInfo")

/-- The TSTInfo octets of a content info. -/
def parseContentInfo (node : DerNode) : Except Error Bytes := do
  let _ ← expectUniversal node 0x10 "ContentInfo"
  match node.children with
  | [contentType, wrapper] => do
    let _ ← expectUniversal contentType 0x06 "ContentInfo.contentType"
    let ctype ← derDecodeOid contentType
    if ctype ≠ oidSignedData then .error (.derError ("unexpected ContentInfo type " ++ ctype))
    else do
      let _ ← expectContext wrapper 0 "ContentInfo.content"
      match wrapper.children with
      | [] => .error (.derError "empty ContentInfo.content")
      | signedData :: _ => do
        let _ ← expectUniversal signedData 0x10 "SignedData"
        match signedData.children with
        | _ :: _ :: encap :: _ => parseEncapContentInfo encap
        | _ => .error (.derError "SignedData too short")
  | _ => .error (.derError "bad ContentInfo")

/-- The TSTInfo of the token behind the status. -/
def parseToken : List DerNode → Except Error (Option ParsedTstInfo)
  | [] => .ok none
  | contentInfo :: _ => do
    let tstDer ← parseContentInfo contentInfo
    let node ← derDecode tstDer
    let _ ← expectUniversal node 0x10 "TSTInfo"
    let tstInfo ← parseTstInfo node
    return some tstInfo

structure ParsedResponse where
  status : ℤ
  statusText : String
  tstInfo : Option ParsedTstInfo

/-- `parse_timestamp_resp(data)`. -/
def parseTimestampResp (data : Bytes) : Except Error ParsedResponse := do
  let root ← derDecode data
  let _ ← expectUniversal root 0x10 "TimeStampResp"
  match root.children with
  | [] => .error (.derError "empty TimeStampResp")
  | statusInfo :: rest => do
    let (status, detail) ← parsePkiStatusInfo statusInfo
    let tstInfo ← parseToken rest
    let name ← pkiStatusName status
    let text ← str status
    return { status, tstInfo,
             statusText := "PKIStatus=" ++ text ++ " (" ++ name ++ ")" ++ (if detail = "" then "" else ": " ++ detail) }

/-! ## The client -/

structure TsaToken where
  tokenBytes : Bytes
  timestampIso : String
  authorityId : String

structure Rfc3161TsaClient where
  authorityId : String
  hash : HashName

namespace Rfc3161TsaClient

/-- `build_request(digest)` with the nonce that was drawn, the first of the drawn numbers other than zero. -/
def buildRequest (client : Rfc3161TsaClient) (nonce : ℕ) (digest : Bytes) : Except Error Bytes :=
  if digest.length ≠ client.hash.digestSize then
    .error (.valueError (some ("digest must be " ++ toString client.hash.digestSize ++ " bytes for " ++
      client.hash.name ++ ", got " ++ toString digest.length)))
  else buildTimestampReq client.hash.oid digest nonce

/-- The `except DerError` of `timestamp`, with the text it puts before the error. -/
def asTsaError {α : Type} (text : String) : Except Error α → Except Error α
  | .error (.derError detail) => .error (.tsaError (text ++ detail))
  | outcome => outcome

/-- The checks of `timestamp` on a parsed response, and its token. -/
def accept (client : Rfc3161TsaClient) (nonce : ℕ) (digest raw : Bytes) (parsed : ParsedResponse) :
    Except Error TsaToken :=
  if ¬ (parsed.status = 0 ∨ parsed.status = 1) then
    .error (.tsaError ("TSA did not grant timestamp: " ++ parsed.statusText))
  else
    match parsed.tstInfo with
    | none => .error (.tsaError "granted TimeStampResp carries no TimeStampToken")
    | some info =>
      if info.hashedMessage ≠ digest then
        .error (.tsaError "response messageImprint does not match request digest")
      else if info.nonce = none then .error (.tsaError "response TSTInfo is missing the requested nonce")
      else if info.nonce ≠ some (nonce : ℤ) then .error (.tsaError "response nonce does not match request nonce")
      else do
        let timestampIso ← asTsaError "bad genTime in TSTInfo: " (generalizedTimeToIso info.genTime)
        return { tokenBytes := raw, timestampIso, authorityId := client.authorityId }

/-- `timestamp(digest)`. -/
def timestamp (client : Rfc3161TsaClient) (post : Bytes → Except Error Bytes) (nonce : ℕ) (digest : Bytes) :
    Except Error TsaToken := do
  let request ← client.buildRequest nonce digest
  let raw ← post request
  let parsed ← asTsaError "malformed TimeStampResp: " (parseTimestampResp raw)
  client.accept nonce digest raw parsed

/-- `verify(digest, token)`, which takes every exception of the parser for an answer. -/
def verify (_client : Rfc3161TsaClient) (digest : Bytes) (token : TsaToken) : Bool :=
  match parseTimestampResp token.tokenBytes with
  | .error _ => false
  | .ok parsed =>
    if ¬ (parsed.status = 0 ∨ parsed.status = 1) then false
    else
      match parsed.tstInfo with
      | none => false
      | some info => info.hashedMessage = digest

end Rfc3161TsaClient

end DecisionCore.Rfc3161
