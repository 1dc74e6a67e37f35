import DecisionCore.Timestamp.RoundTrip

/-!
# The imprint of an accepted token

The client compares the digest of a response with the requested one, and never reads the hash algorithm
that stands next to it.
-/

namespace DecisionCore.Rfc3161

open DerTree

/-! ## The imprint inside a token -/

/-- The TSTInfo inside a token. -/
def tstInfoNode? (token : Bytes) : Option DerNode := do
  let root ← (derDecode token).toOption
  let contentInfo ← root.children[1]?
  let wrapper ← contentInfo.children[1]?
  let signedData ← wrapper.children[0]?
  let encap ← signedData.children[2]?
  let eContent ← encap.children[1]?
  let octets ← eContent.children[0]?
  (derDecode octets.content).toOption

/-- The OID of a hash algorithm, none where its first field is not a readable OID. -/
def algorithmOid? (algorithm : DerNode) : Option String := do
  let oid ← algorithm.children[0]?
  (derDecodeOid oid).toOption

/-- The hash algorithm and the hashed message of a TSTInfo. -/
def imprintOf? (tstInfo : DerNode) : Option (Option String × Bytes) := do
  let imprint ← tstInfo.children[2]?
  let algorithm ← imprint.children[0]?
  let message ← imprint.children[1]?
  return (algorithmOid? algorithm, message.content)

/-- The message imprint inside a token. -/
def messageImprint? (token : Bytes) : Option (Option String × Bytes) :=
  (tstInfoNode? token).bind imprintOf?

/-- The hash algorithm that a token names in its imprint. -/
def imprintOid? (token : Bytes) : Option String := (messageImprint? token).bind Prod.fst

/-! ## What a successful parse has seen -/

theorem derDecodeOctetString_ok {node : DerNode} {data : Bytes} (h : derDecodeOctetString node = .ok data) :
    node.content = data := by
  obtain ⟨-, -, h⟩ := bind_eq_ok.mp h
  split at h
  · cases h
  · exact Except.ok.inj h

/-- The hashed message of a TSTInfo is the one in its imprint. -/
theorem parseTstInfo_ok {node : DerNode} {info : ParsedTstInfo} (h : parseTstInfo node = .ok info) :
    ∃ oid, imprintOf? node = some (oid, info.hashedMessage) := by
  obtain ⟨-, -, h⟩ := bind_eq_ok.mp h
  split at h
  · rename_i version policy imprint serial time extras hchildren
    obtain ⟨-, -, h⟩ := bind_eq_ok.mp h
    obtain ⟨-, -, h⟩ := bind_eq_ok.mp h
    split at h
    · rename_i algorithm message himprint
      obtain ⟨-, -, h⟩ := bind_eq_ok.mp h
      obtain ⟨hashed, hhashed, h⟩ := bind_eq_ok.mp h
      obtain ⟨-, -, h⟩ := bind_eq_ok.mp h
      obtain ⟨genTime, -, h⟩ := bind_eq_ok.mp h
      obtain ⟨nonce, -, h⟩ := bind_eq_ok.mp h
      obtain rfl := Except.ok.inj h
      refine ⟨algorithmOid? algorithm, ?_⟩
      simp [imprintOf?, hchildren, himprint, derDecodeOctetString_ok hhashed]
    · cases h
  · cases h

/-- The octets of an encapsulated content. -/
theorem parseEncapContentInfo_ok {node : DerNode} {tstDer : Bytes} (h : parseEncapContentInfo node = .ok tstDer) :
    ∃ eContent octets, node.children[1]? = some eContent ∧ eContent.children[0]? = some octets ∧
      octets.content = tstDer := by
  obtain ⟨-, -, h⟩ := bind_eq_ok.mp h
  split at h
  · rename_i contentType wrapper hchildren
    obtain ⟨-, -, h⟩ := bind_eq_ok.mp h
    obtain ⟨econtentType, -, h⟩ := bind_eq_ok.mp h
    split at h
    · cases h
    · obtain ⟨-, -, h⟩ := bind_eq_ok.mp h
      split at h
      · cases h
      · rename_i octets rest hwrapper
        exact ⟨wrapper, octets, by simp [hchildren], by simp [hwrapper], derDecodeOctetString_ok h⟩
  · cases h

/-- The octets of a content info, with the nodes on the way to them. -/
theorem parseContentInfo_ok {node : DerNode} {tstDer : Bytes} (h : parseContentInfo node = .ok tstDer) :
    ∃ wrapper signedData encap eContent octets, node.children[1]? = some wrapper ∧
      wrapper.children[0]? = some signedData ∧ signedData.children[2]? = some encap ∧
      encap.children[1]? = some eContent ∧ eContent.children[0]? = some octets ∧ octets.content = tstDer := by
  obtain ⟨-, -, h⟩ := bind_eq_ok.mp h
  split at h
  · rename_i contentType wrapper hchildren
    obtain ⟨-, -, h⟩ := bind_eq_ok.mp h
    obtain ⟨ctype, -, h⟩ := bind_eq_ok.mp h
    split at h
    · cases h
    · obtain ⟨-, -, h⟩ := bind_eq_ok.mp h
      split at h
      · cases h
      · rename_i signedData rest hwrapper
        obtain ⟨-, -, h⟩ := bind_eq_ok.mp h
        split at h
        · rename_i version algorithms encap further hsigned
          obtain ⟨eContent, octets, heContent, hoctets, hcontent⟩ := parseEncapContentInfo_ok h
          exact ⟨wrapper, signedData, encap, eContent, octets, by simp [hchildren], by simp [hwrapper],
            by simp [hsigned], heContent, hoctets, hcontent⟩
        · cases h
  · cases h

/-- The parsed digest of a response is the hashed message in its imprint. -/
theorem parseTimestampResp_imprint {raw : Bytes} {parsed : ParsedResponse} {info : ParsedTstInfo}
    (h : parseTimestampResp raw = .ok parsed) (hinfo : parsed.tstInfo = some info) :
    ∃ oid, messageImprint? raw = some (oid, info.hashedMessage) := by
  obtain ⟨root, hroot, h⟩ := bind_eq_ok.mp h
  obtain ⟨-, -, h⟩ := bind_eq_ok.mp h
  split at h
  · cases h
  · rename_i statusInfo rest hchildren
    obtain ⟨⟨status, detail⟩, -, h⟩ := bind_eq_ok.mp h
    obtain ⟨tstInfo, htoken, h⟩ := bind_eq_ok.mp h
    obtain ⟨name, -, h⟩ := bind_eq_ok.mp h
    obtain ⟨text, -, h⟩ := bind_eq_ok.mp h
    obtain rfl := Except.ok.inj h
    obtain rfl : tstInfo = some info := hinfo
    cases rest with
    | nil => cases htoken
    | cons contentInfo others =>
      obtain ⟨tstDer, hcontent, htoken⟩ := bind_eq_ok.mp htoken
      obtain ⟨node, hnode, htoken⟩ := bind_eq_ok.mp htoken
      obtain ⟨-, -, htoken⟩ := bind_eq_ok.mp htoken
      obtain ⟨found, hparse, htoken⟩ := bind_eq_ok.mp htoken
      obtain rfl := Option.some.inj (Except.ok.inj htoken)
      obtain ⟨wrapper, signedData, encap, eContent, octets, hwrapper, hsigned, hencap, heContent, hoctets, rfl⟩ :=
        parseContentInfo_ok hcontent
      obtain ⟨oid, himprint⟩ := parseTstInfo_ok hparse
      refine ⟨oid, ?_⟩
      simp [messageImprint?, tstInfoNode?, hroot, hchildren, hwrapper, hsigned, hencap, heContent, hoctets, hnode,
        himprint, Except.toOption]

/-! ## Acceptance -/

/-- The response is a granted one for the digest. -/
def Granted (digest raw : Bytes) : Prop :=
  ∃ parsed info, parseTimestampResp raw = .ok parsed ∧ (parsed.status = 0 ∨ parsed.status = 1) ∧
    parsed.tstInfo = some info ∧ info.hashedMessage = digest

theorem Granted.imprint {digest raw : Bytes} (h : Granted digest raw) :
    ∃ oid, messageImprint? raw = some (oid, digest) := by
  obtain ⟨parsed, info, hparsed, -, hinfo, rfl⟩ := h
  exact parseTimestampResp_imprint hparsed hinfo

namespace Rfc3161TsaClient

variable {client : Rfc3161TsaClient} {digest raw : Bytes} {nonce : ℕ}

theorem verify_iff (token : TsaToken) : client.verify digest token = true ↔ Granted digest token.tokenBytes := by
  unfold verify Granted
  cases hparsed : parseTimestampResp token.tokenBytes with
  | error error => simp
  | ok parsed =>
    by_cases hstatus : parsed.status = 0 ∨ parsed.status = 1
    · cases hinfo : parsed.tstInfo with
      | none => simp [hstatus, hinfo]
      | some info => simp [hstatus, hinfo]
    · simp [hstatus]

/-- A token is returned only for a granted response, and carries it. -/
theorem timestamp_ok {post : Bytes → Except Error Bytes} {token : TsaToken}
    (h : client.timestamp post nonce digest = .ok token) : Granted digest token.tokenBytes := by
  obtain ⟨request, -, h⟩ := bind_eq_ok.mp h
  obtain ⟨raw, -, h⟩ := bind_eq_ok.mp h
  obtain ⟨parsed, hparsed, h⟩ := bind_eq_ok.mp h
  have hok : parseTimestampResp raw = .ok parsed := by
    unfold asTsaError at hparsed
    split at hparsed
    · cases hparsed
    · exact hparsed
  unfold accept at h
  split at h
  · cases h
  · rename_i hstatus
    split at h
    · cases h
    · rename_i info hinfo
      split at h
      · cases h
      · rename_i hmessage
        split at h
        · cases h
        · split at h
          · cases h
          · obtain ⟨iso, -, h⟩ := bind_eq_ok.mp h
            obtain rfl := Except.ok.inj h
            exact ⟨parsed, info, hok, not_not.mp hstatus, hinfo, not_not.mp hmessage⟩

/-- Whatever the two methods accept of the response has the requested imprint. -/
def AcceptsRequestedImprint (client : Rfc3161TsaClient) (nonce : ℕ) (digest raw : Bytes) : Prop :=
  (∀ post token, client.timestamp post nonce digest = .ok token → token.tokenBytes = raw →
    messageImprint? raw = some (some client.hash.oid, digest)) ∧
  ∀ token : TsaToken, token.tokenBytes = raw → client.verify digest token = true →
    messageImprint? raw = some (some client.hash.oid, digest)

/-- What the client accepts of a response has the requested imprint if and only if the response is not
granted for the digest, or names the client's hash OID. -/
theorem accepted_imprint_iff (client : Rfc3161TsaClient) (nonce : ℕ) (digest raw : Bytes) :
    client.AcceptsRequestedImprint nonce digest raw ↔
      ¬ Granted digest raw ∨ imprintOid? raw = some client.hash.oid := by
  constructor
  · rintro ⟨-, hverify⟩
    by_cases hgranted : Granted digest raw
    · right
      have himprint := hverify ⟨raw, "", ""⟩ rfl ((verify_iff _).mpr hgranted)
      rw [imprintOid?, himprint]
      rfl
    · exact .inl hgranted
  · intro hcondition
    have himprint (hgranted : Granted digest raw) :
        messageImprint? raw = some (some client.hash.oid, digest) := by
      obtain ⟨oid, hfound⟩ := hgranted.imprint
      have hoid := hcondition.resolve_left (not_not.mpr hgranted)
      rw [imprintOid?, hfound, Option.bind_some] at hoid
      obtain rfl : oid = some client.hash.oid := hoid
      exact hfound
    refine ⟨?_, ?_⟩
    · rintro post token htoken rfl
      exact himprint (timestamp_ok htoken)
    · rintro token rfl hverify
      exact himprint ((verify_iff token).mp hverify)

end Rfc3161TsaClient

/-- The imprint inside a built response is the one it was built for. -/
theorem ResponseFields.messageImprint?_response (fields : ResponseFields) {hashOid : String}
    (oid : OidContent hashOid) {digest raw : Bytes} {nonce : ℕ}
    (h : fields.response hashOid digest nonce = .ok raw) (hsmall : raw.length < 2 ^ 64) :
    messageImprint? raw = some (some hashOid, digest) := by
  obtain ⟨tstInfo, htst, hwrap⟩ := bind_eq_ok.mp h
  obtain ⟨policy, genTime, rfl, -⟩ := fields.tstInfo_ok oid htst
  rw [wrap_eq] at hwrap
  obtain rfl := Except.ok.inj hwrap
  have hresponse := derDecode_encode _ ((length_content_le _).trans_lt hsmall)
  have hinner := derDecode_encode _ ((length_content_le _).trans_lt
    ((fields.length_tstInfo_le _).trans_lt hsmall))
  have hnode : tstInfoNode? (fields.responseTree
      (fields.tstTree oid.content policy genTime digest nonce).encode).encode =
        some (fields.tstTree oid.content policy genTime digest nonce).node := by
    rw [tstInfoNode?, hresponse]
    simp [responseTree, contentInfoTree, signedTree, encapTree, Except.toOption, hinner]
  have hoid : derDecodeOid ⟨0, 6, false, oid.content, []⟩ = .ok hashOid := by
    have hdecodes := oid.decodes
    rw [node_primitive] at hdecodes
    exact hdecodes
  rw [messageImprint?, hnode, Option.bind_some]
  simp [imprintOf?, algorithmOid?, tstTree, imprintTree, hoid, Except.toOption]

/-- A response that names SHA-1 for the digest of the SHA-256 client is accepted. -/
theorem other_algorithm_accepted : ∃ raw token,
    sampleClient.timestamp (fun _ ↦ .ok raw) 123456789 sampleDigest = .ok token ∧ token.tokenBytes = raw ∧
      ¬ sampleClient.AcceptsRequestedImprint 123456789 sampleDigest raw := by
  have hlength : (sampleFields.response HashName.sha1.oid sampleDigest 123456789).map
      (fun raw ↦ decide (raw.length < 2 ^ 64)) = .ok true := by decide +kernel
  have htime : ((matchTime? sampleFields.genTime).map fun groups ↦ groups.datetime.map DateTime.isoformat) =
      some (.ok "2026-09-23T10:20:30.500000+01:30") := by decide +kernel
  obtain ⟨raw, hraw, hsmall⟩ := map_eq_ok.mp hlength
  obtain ⟨groups, hmatch, hiso⟩ := Option.map_eq_some_iff.mp htime
  obtain ⟨moment, hmoment, -⟩ := map_eq_ok.mp hiso
  obtain ⟨statusText, hparsed⟩ :=
    sampleFields.parseTimestampResp_response HashName.sha1.oidContent hraw (of_decide_eq_true hsmall)
  have haccepted : sampleClient.timestamp (fun _ ↦ .ok raw) 123456789 sampleDigest =
      .ok ⟨raw, moment.isoformat, sampleClient.authorityId⟩ :=
    Rfc3161TsaClient.timestamp_of_parsed hparsed (by decide) (fun _ _ ↦ rfl) hmatch hmoment
  refine ⟨raw, _, haccepted, rfl, ?_⟩
  rintro ⟨htimestamp, -⟩
  have himprint := htimestamp (fun _ ↦ .ok raw) _ haccepted rfl
  rw [sampleFields.messageImprint?_response HashName.sha1.oidContent hraw (of_decide_eq_true hsmall)] at himprint
  have hoid : HashName.sha1.oid = sampleClient.hash.oid := by simpa using himprint
  exact absurd hoid (by decide)

end DecisionCore.Rfc3161
