import DecisionCore.Timestamp.Encoders

/-!
# Round trips of RFC 3161 messages

A request is read back as it was built, and so is every response built with the encoders, whatever
optional fields it has.  The client therefore accepts a granted response to its own request, and
verifies the token for the requested digest only.
-/

namespace DecisionCore.Rfc3161

open DerTree PyText

/-! ## Requests -/

/-- The version, the hash OID, the digest and the nonce of a request. -/
def readTimestampReq (data : Bytes) : Except Error (ℤ × String × Bytes × ℤ) := do
  let root ← derDecode data
  match root.children with
  | [version, imprint, nonce, _] =>
    match imprint.children with
    | [algorithm, message] =>
      match algorithm.children with
      | oid :: _ => do
        let version ← derDecodeInteger version
        let oid ← derDecodeOid oid
        let digest ← derDecodeOctetString message
        let nonce ← derDecodeInteger nonce
        return (version, oid, digest, nonce)
      | [] => .error (.derError "empty AlgorithmIdentifier")
    | _ => .error (.derError "bad MessageImprint")
  | _ => .error (.derError "bad TimeStampReq")

/-- The tree of a message imprint. -/
def imprintTree (oid digest : Bytes) : DerTree :=
  sequence [sequence [objectIdentifier oid, null], octetString digest]

theorem messageImprint_eq {hashOid : String} (oid : OidContent hashOid) (digest : Bytes) :
    messageImprint hashOid digest = .ok (imprintTree oid.content digest).encode := by
  have halgorithm : derSequence [(objectIdentifier oid.content).encode, derNull] =
      (sequence [objectIdentifier oid.content, null]).encode :=
    derSequence_encode [objectIdentifier oid.content, null]
  have himprint := derSequence_encode
    [sequence [objectIdentifier oid.content, null], octetString digest]
  simp only [messageImprint, algorithmIdentifier, oid.encodes, bind, Except.bind, pure, Except.pure, halgorithm]
  exact congrArg Except.ok himprint

/-- The tree of a request. -/
def requestTree (oid digest : Bytes) (nonce : ℕ) : DerTree :=
  sequence [integerTree 1, imprintTree oid digest, integerTree nonce, boolean false]

theorem buildTimestampReq_eq {hashOid : String} (oid : OidContent hashOid) (digest : Bytes) (nonce : ℕ) :
    buildTimestampReq hashOid digest nonce = .ok (requestTree oid.content digest nonce).encode := by
  have hversion : derInteger 1 = .ok (integerTree 1).encode := derInteger_eq 1
  have hrequest := derSequence_encode
    [integerTree 1, imprintTree oid.content digest, integerTree nonce, boolean false]
  simp only [buildTimestampReq, hversion, messageImprint_eq oid, derInteger_eq, bind, Except.bind, pure, Except.pure]
  exact congrArg Except.ok hrequest

theorem readTimestampReq_requestTree {hashOid : String} (oid : OidContent hashOid) (digest : Bytes) (nonce : ℕ)
    (hsmall : (requestTree oid.content digest nonce).encode.length < 2 ^ 64) :
    readTimestampReq (requestTree oid.content digest nonce).encode = .ok (1, hashOid, digest, nonce) := by
  have hcontent := (length_content_le (requestTree oid.content digest nonce)).trans_lt hsmall
  have hmessage : derDecodeOctetString (octetString digest).node = .ok digest := rfl
  have hversion : derDecodeInteger (integerTree 1).node = .ok 1 := derDecodeInteger_integerTree 1
  rw [readTimestampReq, derDecode_encode _ hcontent]
  simp only [requestTree, imprintTree, node_constructed, nodes, bind, Except.bind, pure, Except.pure]
  simp only [hversion, derDecodeInteger_integerTree, oid.decodes, hmessage]

/-! ## Responses -/

/-- The parts of a granted response that its request does not fix, with the optional ones. -/
structure ResponseFields where
  status : ℕ
  status_le : status ≤ 1
  statusString : Option (List DerTree)
  policy : String
  serial : ℕ
  genTime : String
  accuracy : Option (List DerTree)
  ordering : Option Bool
  tsa : Option (List DerTree)
  extensions : Option (List DerTree)
  version : DerTree
  digestAlgorithms : DerTree
  further : List DerTree

/-- An optional `SEQUENCE`. -/
def sequenceField (field : Option (List DerTree)) : List Bytes :=
  (field.map fun trees ↦ derSequence (trees.map encode)).toList

/-- An optional context-specific wrapper. -/
def explicitField (tagNo : ℤ) : Option (List DerTree) → Except Error (List Bytes)
  | none => .ok []
  | some trees => (derExplicit tagNo (encodeAll trees)).map fun field ↦ [field]

namespace ResponseFields

variable (fields : ResponseFields)

/-- The TSTInfo of the response. -/
def tstInfo (hashOid : String) (digest : Bytes) (nonce : ℕ) : Except Error Bytes := do
  let version ← derInteger 1
  let policy ← derOid fields.policy
  let imprint ← messageImprint hashOid digest
  let serial ← derInteger fields.serial
  let genTime ← derGeneralizedTime fields.genTime
  let nonce ← derInteger nonce
  let tsa ← explicitField 0 fields.tsa
  let extensions ← explicitField 1 fields.extensions
  return derSequence ([version, policy, imprint, serial, genTime] ++ (sequenceField fields.accuracy ++
    (fields.ordering.map derBoolean).toList) ++ nonce :: (tsa ++ extensions))

/-- The response that carries a TSTInfo. -/
def wrap (tstInfo : Bytes) : Except Error Bytes := do
  let status ← derInteger fields.status
  let tstOid ← derOid oidTstInfo
  let eContent ← derExplicit 0 (derOctetString tstInfo)
  let dataOid ← derOid oidSignedData
  let content ← derExplicit 0 (derSequence (fields.version.encode :: fields.digestAlgorithms.encode ::
    derSequence [tstOid, eContent] :: fields.further.map encode))
  return derSequence [derSequence (status :: sequenceField fields.statusString), derSequence [dataOid, content]]

/-- The response to a request for the digest with the nonce. -/
def response (hashOid : String) (digest : Bytes) (nonce : ℕ) : Except Error Bytes := do
  let tstInfo ← fields.tstInfo hashOid digest nonce
  fields.wrap tstInfo

/-! ### The TSTInfo -/

def beforeNonce : List DerTree :=
  (fields.accuracy.map sequence).toList ++
    (fields.ordering.map boolean).toList

def afterNonce : List DerTree :=
  (fields.tsa.map tagged0).toList ++ (fields.extensions.map tagged1).toList

/-- The tree of the TSTInfo, from the contents of its policy and its time. -/
def tstTree (oid policy genTime digest : Bytes) (nonce : ℕ) : DerTree :=
  sequence ([integerTree 1, objectIdentifier policy, imprintTree oid digest, integerTree fields.serial,
    generalizedTime genTime] ++ fields.beforeNonce ++ integerTree nonce :: fields.afterNonce)

theorem sequenceField_eq (field : Option (List DerTree)) :
    sequenceField field = ((field.map sequence).toList).map encode := by
  cases field with
  | none => rfl
  | some trees =>
    simp only [sequenceField, Option.map_some, Option.toList_some, List.map_cons, List.map_nil]
    rw [derSequence_encode]

theorem explicitField_zero (field : Option (List DerTree)) :
    explicitField 0 field = .ok (((field.map tagged0).toList).map encode) := by
  cases field with
  | none => rfl
  | some trees =>
    simp only [explicitField, derExplicit_zero, Except.map, Option.map_some, Option.toList_some, List.map_cons,
      List.map_nil, encode]

theorem explicitField_one (field : Option (List DerTree)) :
    explicitField 1 field = .ok (((field.map tagged1).toList).map encode) := by
  cases field with
  | none => rfl
  | some trees =>
    simp only [explicitField, derExplicit_one, Except.map, Option.map_some, Option.toList_some, List.map_cons,
      List.map_nil, encode]

theorem ordering_eq (ordering : Option Bool) : (ordering.map derBoolean).toList =
    ((ordering.map boolean).toList).map encode := by
  cases ordering with
  | none => rfl
  | some value =>
    simp only [Option.map_some, Option.toList_some, List.map_cons, List.map_nil, encode]
    rfl

/-- The TSTInfo is an encoded tree, and its time is read back. -/
theorem tstInfo_ok {hashOid : String} (oid : OidContent hashOid) {digest bytes : Bytes} {nonce : ℕ}
    (h : fields.tstInfo hashOid digest nonce = .ok bytes) : ∃ policy genTime,
      bytes = (fields.tstTree oid.content policy genTime digest nonce).encode ∧
      derDecodeGeneralizedTime (generalizedTime genTime).node = .ok fields.genTime := by
  have hversion : derInteger 1 = .ok (integerTree 1).encode := derInteger_eq 1
  simp only [tstInfo, bind_eq_ok, hversion, messageImprint_eq oid, derInteger_eq, explicitField_zero,
    explicitField_one, Except.ok.injEq, exists_eq_left'] at h
  obtain ⟨policyBytes, hpolicy, timeBytes, htime, h⟩ := h
  obtain ⟨policy, rfl⟩ := derOid_ok hpolicy
  obtain ⟨genTime, rfl, hread⟩ := derGeneralizedTime_ok htime
  refine ⟨policy, genTime, ?_, hread⟩
  rw [← Except.ok.inj h, tstTree, ← derSequence_encode, beforeNonce, afterNonce, sequenceField_eq, ordering_eq]
  simp only [List.map_append, List.map_cons, List.map_nil]

/-- The nonce is the first number behind the time. -/
theorem nonceOf_append {before : List DerNode}
    (h : ∀ extra ∈ before, ¬ (extra.tagClass = 0 ∧ extra.tagNumber = 0x02)) (nonce : ℕ) (after : List DerNode) :
    nonceOf (before ++ (integerTree nonce).node :: after) = .ok (some (nonce : ℤ)) := by
  have hnone : before.find? (fun extra ↦ extra.tagClass = 0 ∧ extra.tagNumber = 0x02) = none := by
    rw [List.find?_eq_none]
    simpa using h
  have hnonce : (integerTree nonce).node.tagClass = 0 ∧ (integerTree nonce).node.tagNumber = 0x02 := by
    simp [integerTree]
  rw [nonceOf, List.find?_append, hnone, Option.none_or, List.find?_cons_of_pos (by simpa using hnonce)]
  simp only [derDecodeInteger_integerTree]
  rfl

theorem beforeNonce_no_integer :
    ∀ extra ∈ fields.beforeNonce.map node, ¬ (extra.tagClass = 0 ∧ extra.tagNumber = 0x02) := by
  intro extra hextra
  obtain ⟨tree, htree, rfl⟩ := List.mem_map.mp hextra
  simp only [beforeNonce, List.mem_append, Option.mem_toList, Option.map_eq_some_iff] at htree
  rcases htree with ⟨trees, -, rfl⟩ | ⟨value, -, rfl⟩
  · simp
  · simp

theorem parseTstInfo_tstTree (oid policy : Bytes) {genTime : Bytes} (digest : Bytes) (nonce : ℕ)
    (htime : derDecodeGeneralizedTime (generalizedTime genTime).node = .ok fields.genTime) :
    parseTstInfo (fields.tstTree oid policy genTime digest nonce).node =
      .ok ⟨fields.genTime, digest, some nonce⟩ := by
  have hnonce := nonceOf_append fields.beforeNonce_no_integer nonce (fields.afterNonce.map node)
  have hmessage : derDecodeOctetString (octetString digest).node = .ok digest := rfl
  simp only [tstTree, imprintTree, node_constructed, nodes_eq_map, List.map_append, List.map_cons, List.map_nil,
    List.cons_append, List.nil_append, parseTstInfo, expectUniversal, bind, Except.bind, pure, Except.pure]
  simp only [hmessage, htime, hnonce]
  simp

/-! ### The response -/

def statusTree : DerTree :=
  sequence (integerTree fields.status :: (fields.statusString.map sequence).toList)

def encapTree (tstInfo : Bytes) : DerTree :=
  sequence [objectIdentifier oidContentTstInfo.content, tagged0 [octetString tstInfo]]

def signedTree (tstInfo : Bytes) : DerTree :=
  sequence (fields.version :: fields.digestAlgorithms :: encapTree tstInfo :: fields.further)

def contentInfoTree (tstInfo : Bytes) : DerTree :=
  sequence [objectIdentifier oidContentSignedData.content, tagged0 [fields.signedTree tstInfo]]

def responseTree (tstInfo : Bytes) : DerTree :=
  sequence [fields.statusTree, fields.contentInfoTree tstInfo]

theorem wrap_eq (tstInfo : Bytes) : fields.wrap tstInfo = .ok (fields.responseTree tstInfo).encode := by
  have hexplicit (inner : DerTree) : derExplicit 0 inner.encode = .ok (tagged0 [inner]).encode := by
    rw [derExplicit_zero, encode, encodeAll, encodeAll, List.append_nil]
  have hencap : derSequence [(objectIdentifier oidContentTstInfo.content).encode,
      (tagged0 [octetString tstInfo]).encode] = (encapTree tstInfo).encode :=
    derSequence_encode [objectIdentifier oidContentTstInfo.content, tagged0 [octetString tstInfo]]
  have hsigned : derSequence (fields.version.encode :: fields.digestAlgorithms.encode ::
      (encapTree tstInfo).encode :: fields.further.map encode) = (fields.signedTree tstInfo).encode :=
    derSequence_encode (fields.version :: fields.digestAlgorithms :: encapTree tstInfo :: fields.further)
  have hstatus : derSequence ((integerTree fields.status).encode :: sequenceField fields.statusString) =
      fields.statusTree.encode := by
    rw [sequenceField_eq]
    exact derSequence_encode (integerTree fields.status :: _)
  have hcontent : derSequence [(objectIdentifier oidContentSignedData.content).encode,
      (tagged0 [fields.signedTree tstInfo]).encode] = (fields.contentInfoTree tstInfo).encode :=
    derSequence_encode [objectIdentifier oidContentSignedData.content, tagged0 [fields.signedTree tstInfo]]
  have hoctets : derExplicit 0 (derOctetString tstInfo) = .ok (tagged0 [octetString tstInfo]).encode := by
    rw [← hexplicit, encode]
    rfl
  simp only [wrap, derInteger_eq, oidContentTstInfo.encodes, hoctets, oidContentSignedData.encodes, hencap, hsigned,
    hexplicit, hstatus, hcontent, bind, Except.bind, pure, Except.pure]
  exact congrArg Except.ok (derSequence_encode [fields.statusTree, fields.contentInfoTree tstInfo])

theorem parseStatus : ∃ detail,
    parsePkiStatusInfo fields.statusTree.node = .ok ((fields.status : ℤ), detail) := by
  simp only [statusTree, node_constructed, nodes_eq_map, List.map_cons, parsePkiStatusInfo, expectUniversal, bind,
    Except.bind, pure, Except.pure, derDecodeInteger_integerTree]
  simp [integerTree]

theorem parseContentInfo_eq (tstInfo : Bytes) :
    parseContentInfo (fields.contentInfoTree tstInfo).node = .ok tstInfo := by
  have hoctets : derDecodeOctetString (octetString tstInfo).node = .ok tstInfo := rfl
  simp only [contentInfoTree, signedTree, encapTree, node_constructed, nodes_eq_map, List.map_cons, List.map_nil,
    parseContentInfo, parseEncapContentInfo, expectUniversal, expectContext, bind, Except.bind,
    oidContentSignedData.decodes, oidContentTstInfo.decodes, hoctets]
  simp

/-- The TSTInfo is part of the response. -/
theorem length_tstInfo_le (tstInfo : Bytes) : tstInfo.length ≤ (fields.responseTree tstInfo).encode.length := by
  have hencap : encapTree tstInfo ∈
      fields.version :: fields.digestAlgorithms :: encapTree tstInfo :: fields.further := by simp
  calc tstInfo.length
      ≤ (octetString tstInfo).encode.length := length_content_le (octetString tstInfo)
    _ ≤ (tagged0 [octetString tstInfo]).content.length := length_encode_le_of_mem (by simp)
    _ ≤ (tagged0 [octetString tstInfo]).encode.length := length_content_le _
    _ ≤ (encapTree tstInfo).content.length := length_encode_le_of_mem (by simp)
    _ ≤ (encapTree tstInfo).encode.length := length_content_le _
    _ ≤ (fields.signedTree tstInfo).content.length := length_encode_le_of_mem hencap
    _ ≤ (fields.signedTree tstInfo).encode.length := length_content_le _
    _ ≤ (tagged0 [fields.signedTree tstInfo]).content.length := length_encode_le_of_mem (by simp)
    _ ≤ (tagged0 [fields.signedTree tstInfo]).encode.length := length_content_le _
    _ ≤ (fields.contentInfoTree tstInfo).content.length := length_encode_le_of_mem (by simp)
    _ ≤ (fields.contentInfoTree tstInfo).encode.length := length_content_le _
    _ ≤ (fields.responseTree tstInfo).content.length := length_encode_le_of_mem (by simp)
    _ ≤ (fields.responseTree tstInfo).encode.length := length_content_le _

theorem pkiStatusName_ok : ∃ name text, pkiStatusName fields.status = .ok name ∧ str fields.status = .ok text := by
  have hstatus : fields.status = 0 ∨ fields.status = 1 := by
    have hle := fields.status_le
    omega
  rcases hstatus with h | h
  · rw [h]
    exact ⟨_, _, rfl, rfl⟩
  · rw [h]
    exact ⟨_, _, rfl, rfl⟩

/-- A response is parsed into the values it was built from. -/
theorem parseTimestampResp_response {hashOid : String} (oid : OidContent hashOid) {digest bytes : Bytes} {nonce : ℕ}
    (h : fields.response hashOid digest nonce = .ok bytes) (hsmall : bytes.length < 2 ^ 64) :
    ∃ statusText, parseTimestampResp bytes =
      .ok ⟨fields.status, statusText, some ⟨fields.genTime, digest, some (nonce : ℤ)⟩⟩ := by
  obtain ⟨tstInfo, htst, hwrap⟩ := bind_eq_ok.mp h
  obtain ⟨policy, genTime, rfl, htime⟩ := fields.tstInfo_ok oid htst
  rw [wrap_eq] at hwrap
  obtain rfl := Except.ok.inj hwrap
  have hresponse := derDecode_encode _ ((length_content_le _).trans_lt hsmall)
  have hinner := derDecode_encode _ ((length_content_le _).trans_lt
    ((fields.length_tstInfo_le _).trans_lt hsmall))
  have htoken : parseToken [(fields.contentInfoTree
      (fields.tstTree oid.content policy genTime digest nonce).encode).node] =
        .ok (some ⟨fields.genTime, digest, some (nonce : ℤ)⟩) := by
    have hexpect : expectUniversal (fields.tstTree oid.content policy genTime digest nonce).node 0x10 "TSTInfo" =
        .ok (fields.tstTree oid.content policy genTime digest nonce).node := by
      simp [expectUniversal, tstTree]
    simp only [parseToken, parseContentInfo_eq, hinner, hexpect,
      fields.parseTstInfo_tstTree oid.content policy digest nonce htime, bind, Except.bind, pure, Except.pure]
  obtain ⟨detail, hstatus⟩ := fields.parseStatus
  obtain ⟨name, text, hname, htext⟩ := fields.pkiStatusName_ok
  rw [parseTimestampResp, hresponse]
  simp only [responseTree, node_constructed, nodes_eq_map, List.map_cons, List.map_nil, expectUniversal, bind,
    Except.bind, pure, Except.pure, hstatus, htoken, hname, htext]
  exact ⟨_, rfl⟩

end ResponseFields

/-! ## The client -/

namespace Rfc3161TsaClient

variable {client : Rfc3161TsaClient} {digest : Bytes} {nonce : ℕ} {fields : ResponseFields} {statusText : String}
  {raw : Bytes}

/-- A granted response of the digest is verified for it, and for no other digest. -/
theorem verify_of_parsed
    (hparsed : parseTimestampResp raw =
      .ok ⟨fields.status, statusText, some ⟨fields.genTime, digest, some (nonce : ℤ)⟩⟩)
    {token : TsaToken} (htoken : token.tokenBytes = raw) (other : Bytes) :
    client.verify other token = decide (other = digest) := by
  have hstatus : (fields.status : ℤ) = 0 ∨ (fields.status : ℤ) = 1 := by
    have hle := fields.status_le
    omega
  simp only [verify, htoken, hparsed, hstatus, not_true_eq_false, if_false, eq_comm (a := digest)]

/-- The client accepts a granted response to its request, with the time in ISO form. -/
theorem timestamp_of_parsed
    (hparsed : parseTimestampResp raw =
      .ok ⟨fields.status, statusText, some ⟨fields.genTime, digest, some (nonce : ℤ)⟩⟩)
    (hdigest : digest.length = client.hash.digestSize) {post : Bytes → Except Error Bytes}
    (hpost : ∀ request, client.buildRequest nonce digest = .ok request → post request = .ok raw)
    {groups : TimeGroups} {moment : DateTime} (hmatch : matchTime? fields.genTime = some groups)
    (hmoment : groups.datetime = .ok moment) :
    client.timestamp post nonce digest = .ok ⟨raw, moment.isoformat, client.authorityId⟩ := by
  have hstatus : (fields.status : ℤ) = 0 ∨ (fields.status : ℤ) = 1 := by
    have hle := fields.status_le
    omega
  have hrequest : client.buildRequest nonce digest =
      .ok (requestTree client.hash.oidContent.content digest nonce).encode := by
    rw [buildRequest, if_neg (not_not.mpr hdigest), buildTimestampReq_eq client.hash.oidContent]
  have hiso : generalizedTimeToIso fields.genTime = .ok moment.isoformat := by
    simp only [generalizedTimeToIso, hmatch, hmoment]
    rfl
  simp only [timestamp, hrequest, hpost _ hrequest, hparsed, accept, asTsaError, hstatus, hiso, bind, Except.bind,
    pure, Except.pure]
  simp

end Rfc3161TsaClient

/-- Requests and responses of the client round-trip.  A request is read back as version 1, hash OID,
digest and nonce.  A response with status 0 or 1 that was built for the same imprint and nonce is
parsed into its status, time, digest and nonce, and verified for that digest only; when its time has the
supported format and is a moment of the calendar, the client accepts it. -/
theorem timestamp_messages_round_trip (client : Rfc3161TsaClient) {digest : Bytes}
    (hdigest : digest.length = client.hash.digestSize) (nonce : ℕ) :
    (∃ request, buildTimestampReq client.hash.oid digest nonce = .ok request ∧
      (request.length < 2 ^ 64 → readTimestampReq request = .ok (1, client.hash.oid, digest, (nonce : ℤ)))) ∧
    ∀ (fields : ResponseFields) (raw : Bytes), fields.response client.hash.oid digest nonce = .ok raw →
      raw.length < 2 ^ 64 →
      (∃ statusText, parseTimestampResp raw =
        .ok ⟨fields.status, statusText, some ⟨fields.genTime, digest, some (nonce : ℤ)⟩⟩) ∧
      (∀ token : TsaToken, token.tokenBytes = raw →
        ∀ other, client.verify other token = decide (other = digest)) ∧
      ∀ (post : Bytes → Except Error Bytes) (groups : TimeGroups) (moment : DateTime),
        (∀ request, client.buildRequest nonce digest = .ok request → post request = .ok raw) →
        matchTime? fields.genTime = some groups → groups.datetime = .ok moment →
        client.timestamp post nonce digest = .ok ⟨raw, moment.isoformat, client.authorityId⟩ := by
  refine ⟨⟨_, buildTimestampReq_eq client.hash.oidContent digest nonce, ?_⟩, ?_⟩
  · exact readTimestampReq_requestTree client.hash.oidContent digest nonce
  · intro fields raw hraw hsmall
    obtain ⟨statusText, hparsed⟩ := fields.parseTimestampResp_response client.hash.oidContent hraw hsmall
    refine ⟨⟨statusText, hparsed⟩, fun token ↦ Rfc3161TsaClient.verify_of_parsed hparsed, ?_⟩
    intro post groups moment hpost hmatch hmoment
    exact Rfc3161TsaClient.timestamp_of_parsed hparsed hdigest hpost hmatch hmoment

/-- A digest, and a response with every optional field. -/
def sampleDigest : Bytes := List.replicate 32 7

def sampleFields : ResponseFields where
  status := 1
  status_le := le_rfl
  statusString := some [utf8String [111, 107]]
  policy := "1.2.3.4"
  serial := 42
  genTime := "20260923102030.5+0130"
  accuracy := some [integerTree 1, null]
  ordering := some true
  tsa := some [tagged0 []]
  extensions := some [sequence []]
  version := integerTree 1
  digestAlgorithms := set []
  further := [tagged0 [octetString [0]], set []]

def sampleClient : Rfc3161TsaClient := ⟨"stub", .sha256⟩

/-- The client accepts the sample response to its request. -/
theorem sample_response_accepted : ∃ raw,
    sampleFields.response sampleClient.hash.oid sampleDigest 123456789 = .ok raw ∧
    sampleClient.timestamp (fun _ ↦ .ok raw) 123456789 sampleDigest =
      .ok ⟨raw, "2026-09-23T10:20:30.500000+01:30", "stub"⟩ := by
  have hlength : (sampleFields.response sampleClient.hash.oid sampleDigest 123456789).map
      (fun raw ↦ decide (raw.length < 2 ^ 64)) = .ok true := by decide +kernel
  have htime : ((matchTime? sampleFields.genTime).map fun groups ↦ groups.datetime.map DateTime.isoformat) =
      some (.ok "2026-09-23T10:20:30.500000+01:30") := by decide +kernel
  obtain ⟨raw, hraw, hsmall⟩ := map_eq_ok.mp hlength
  obtain ⟨groups, hmatch, hiso⟩ := Option.map_eq_some_iff.mp htime
  obtain ⟨moment, hmoment, htext⟩ := map_eq_ok.mp hiso
  have hround := timestamp_messages_round_trip sampleClient (by decide : sampleDigest.length = _) 123456789
  obtain ⟨-, -, haccept⟩ := hround.2 sampleFields raw hraw (of_decide_eq_true hsmall)
  refine ⟨raw, hraw, ?_⟩
  rw [haccept (fun _ ↦ .ok raw) groups moment (fun _ _ ↦ rfl) hmatch hmoment, htext]
  rfl

end DecisionCore.Rfc3161
