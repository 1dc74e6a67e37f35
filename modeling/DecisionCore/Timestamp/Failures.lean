import DecisionCore.Timestamp.RoundTrip

/-!
# Errors of the client

The client turns a `DerError` into its `TsaError`; any other exception of the parser or of the calendar
escapes.  The parser raises one only where a number is too long to be written in decimal, and the conversion
of the time only where the text has the supported format and is no moment of the calendar.
-/

namespace DecisionCore.Rfc3161

open PyText Pieces

/-! ## Errors that escape -/

/-- The error is a `DerError` or a `TsaError`. -/
def Error.OfClient : Error → Prop
  | derError _ => True
  | tsaError _ => True
  | valueError _ => False

/-- The computation raises neither a `DerError` nor a `TsaError`, but something else. -/
def Escapes {α : Type} (outcome : Except Error α) : Prop := ∃ error, outcome = .error error ∧ ¬ error.OfClient

section Escapes

variable {α β : Type}

@[simp] theorem escapes_ok (value : α) : ¬ Escapes (.ok value) := by
  rintro ⟨error, h, -⟩
  cases h

@[simp] theorem escapes_error (error : Error) : Escapes (.error error : Except Error α) ↔ ¬ error.OfClient := by
  simp [Escapes]

@[simp] theorem Error.ofClient_derError (text : String) : (derError text).OfClient := trivial

@[simp] theorem Error.ofClient_tsaError (text : String) : (tsaError text).OfClient := trivial

@[simp] theorem Error.ofClient_valueError (text : Option String) : ¬ (valueError text).OfClient := id

/-- An error that is passed on escapes only where it did before. -/
theorem not_escapes_passed {first : Except Error α} (h : ¬ Escapes first) {error : Error}
    (herror : first = .error error) : ¬ Escapes (.error error : Except Error β) := by
  rw [herror] at h
  simpa using h

/-- A sequence of two steps fails in the first one, or in the second one on what the first one returned. -/
theorem escapes_bind {first : Except Error α} {rest : α → Except Error β} :
    Escapes (first >>= rest) ↔ Escapes first ∨ ∃ value, first = .ok value ∧ Escapes (rest value) := by
  cases first with
  | error error => simp [bind, Except.bind]
  | ok value => simp [bind, Except.bind]

/-- A step from which nothing escapes leaves what escapes to the steps behind it. -/
theorem escapes_bind_of_not {first : Except Error α} {rest : α → Except Error β} (h : ¬ Escapes first) :
    Escapes (first >>= rest) ↔ ∃ value, first = .ok value ∧ Escapes (rest value) := by
  rw [escapes_bind]
  exact or_iff_right h

/-- What escapes behind a check. -/
theorem escapes_check {p : Prop} [Decidable p] {error : Error} (herror : error.OfClient) {rest : Except Error α} :
    Escapes (if p then .error error else rest) ↔ ¬ p ∧ Escapes rest := by
  split_ifs with h <;> simp [h, herror]

end Escapes

/-! ## The decoder -/

theorem not_escapes_parseLength (data : Bytes) (firstLen : UInt8) (off : ℕ) :
    ¬ Escapes (parseLength data firstLen off) := by
  unfold parseLength
  split
  · dsimp only
    split <;> simp
  · simp

theorem not_escapes_parseHeader (data : Bytes) (off : ℕ) : ¬ Escapes (parseHeader data off) := by
  unfold parseHeader
  split
  · dsimp only
    split
    · simp
    · split
      · rename_i error hlength
        exact not_escapes_passed (not_escapes_parseLength _ _ _) hlength
      · split <;> simp
  · simp

theorem not_escapes_parseChildren {content : Bytes} {parse : (pos : ℕ) → Except Error (Parsed content pos)}
    (hparse : ∀ pos, ¬ Escapes (parse pos)) (pos : ℕ) : ¬ Escapes (parseChildren parse pos) := by
  induction hmeasure : content.length - pos using Nat.strong_induction_on generalizing pos with
  | _ measure ih =>
    rw [parseChildren]
    split
    · split
      · rename_i error hchild
        exact not_escapes_passed (hparse pos) hchild
      · rename_i child hchild
        have hprogress := child.progress
        split
        · rename_i error hrest
          exact not_escapes_passed (ih _ (by omega) child.next rfl) hrest
        · simp
    · simp

theorem not_escapes_parseTlv (data : Bytes) (off : ℕ) : ¬ Escapes (parseTlv data off) := by
  induction hlength : data.length using Nat.strong_induction_on generalizing data off with
  | _ length ih =>
    rw [parseTlv]
    split
    · rename_i error hheader
      exact not_escapes_passed (not_escapes_parseHeader data off) hheader
    · rename_i header hheader
      have hprogress := header.progress
      have hinRange := header.inRange
      have hshorter : (slice data header.start header.length).length < length := by
        rw [length_slice hinRange]
        omega
      dsimp only
      split
      · split
        · rename_i error hchildren
          have hchild (pos : ℕ) := ih _ hshorter (slice data header.start header.length) pos rfl
          exact not_escapes_passed (not_escapes_parseChildren hchild 0) hchildren
        · simp
      · simp

@[simp] theorem not_escapes_derDecode (data : Bytes) : ¬ Escapes (derDecode data) := by
  unfold derDecode
  split
  · rename_i error hparse
    exact not_escapes_passed (not_escapes_parseTlv data 0) hparse
  · split <;> simp

/-! ## Readers of nodes -/

/-- The node is a universal one with the tag number. -/
def DerNode.Universal (node : DerNode) (tagNumber : ℕ) : Prop := node.tagClass = 0 ∧ node.tagNumber = tagNumber

/-- The node is an explicit wrapper with the tag number. -/
def DerNode.Context (node : DerNode) (tagNumber : ℕ) : Prop :=
  node.tagClass = 2 ∧ node.tagNumber = tagNumber ∧ node.constructed = true

theorem expectUniversal_ok {node same : DerNode} {tagNumber : ℕ} {what : String} :
    expectUniversal node tagNumber what = .ok same ↔ node.Universal tagNumber ∧ node = same := by
  unfold expectUniversal DerNode.Universal
  split <;> simp_all

theorem expectContext_ok {node same : DerNode} {tagNumber : ℕ} {what : String} :
    expectContext node tagNumber what = .ok same ↔ node.Context tagNumber ∧ node = same := by
  unfold expectContext DerNode.Context
  split <;> simp_all

section Readers

variable {α : Type} (node : DerNode) (tagNumber : ℕ) (what : String)

@[simp] theorem not_escapes_expectUniversal : ¬ Escapes (expectUniversal node tagNumber what) := by
  unfold expectUniversal
  split <;> simp

@[simp] theorem not_escapes_expectContext : ¬ Escapes (expectContext node tagNumber what) := by
  unfold expectContext
  split <;> simp

/-- What escapes behind a check of the tag. -/
theorem escapes_expectUniversal_bind (rest : Except Error α) :
    Escapes (do let _ ← expectUniversal node tagNumber what; rest) ↔ node.Universal tagNumber ∧ Escapes rest := by
  rw [escapes_bind_of_not (not_escapes_expectUniversal node tagNumber what)]
  simp [expectUniversal_ok]

theorem escapes_expectContext_bind (rest : Except Error α) :
    Escapes (do let _ ← expectContext node tagNumber what; rest) ↔ node.Context tagNumber ∧ Escapes rest := by
  rw [escapes_bind_of_not (not_escapes_expectContext node tagNumber what)]
  simp [expectContext_ok]

@[simp] theorem not_escapes_derDecodeInteger : ¬ Escapes (derDecodeInteger node) := by
  rw [derDecodeInteger, escapes_expectUniversal_bind]
  rintro ⟨-, h⟩
  split at h
  · simp at h
  · dsimp only at h
    split at h <;> simp [pure, Except.pure] at h

@[simp] theorem not_escapes_derDecodeOctetString : ¬ Escapes (derDecodeOctetString node) := by
  rw [derDecodeOctetString, escapes_expectUniversal_bind]
  rintro ⟨-, h⟩
  split at h <;> simp [pure, Except.pure] at h

@[simp] theorem not_escapes_derDecodeGeneralizedTime : ¬ Escapes (derDecodeGeneralizedTime node) := by
  rw [derDecodeGeneralizedTime, escapes_expectUniversal_bind]
  rintro ⟨-, h⟩
  split at h <;> simp [pure, Except.pure] at h

@[simp] theorem not_escapes_nonceOf (extras : List DerNode) : ¬ Escapes (nonceOf extras) := by
  unfold nonceOf
  split
  · rename_i extra hextra
    cases hnonce : derDecodeInteger extra with
    | error error => exact not_escapes_passed (not_escapes_derDecodeInteger extra) hnonce
    | ok nonce => exact escapes_ok _
  · exact escapes_ok _

end Readers

/-! ## Numbers that are too long -/

/-- The number has more decimal digits than the interpreter writes. -/
def Oversized (n : ℤ) : Prop := 10 ^ maxStrDigits ≤ n.natAbs

theorem str_eq (n : ℤ) : (¬ Oversized n ∧ str n = .ok (toString n)) ∨
    (Oversized n ∧ str n = .error (.valueError none)) := by
  have hdigits : (toString n.natAbs).length ≤ maxStrDigits ↔ ¬ Oversized n := by
    rw [Nat.toString_eq_ofList_toDigits, String.length_ofList, Oversized, not_le]
    exact Nat.length_toDigits_le_iff (by decide) (by decide)
  unfold str str?
  by_cases h : (toString n.natAbs).length ≤ maxStrDigits
  · exact .inl ⟨hdigits.mp h, by rw [if_pos h]⟩
  · exact .inr ⟨not_not.mp (mt hdigits.mpr h), by rw [if_neg h]⟩

@[simp] theorem escapes_str {n : ℤ} : Escapes (str n) ↔ Oversized n := by
  obtain ⟨h, hstr⟩ | ⟨h, hstr⟩ := str_eq n <;> simp [hstr, h]

/-- The arcs of a complete OID. -/
def oidArcs? : Bytes → Option (List ℕ)
  | [] => none
  | first :: rest =>
    let (arcs, val) := decodeArcs [first.toNat / 40, first.toNat % 40] 0 rest
    if val ≠ 0 ∨ (first :: rest).getLast?.any (fun byte ↦ byte &&& 0x80 ≠ 0) then none else some arcs

/-- The node is an OID with an arc of too many digits. -/
def DerNode.OversizedOid (node : DerNode) : Prop :=
  node.Universal 0x06 ∧ ∃ arcs, oidArcs? node.content = some arcs ∧ ∃ arc ∈ arcs, Oversized (arc : ℕ)

theorem escapes_mapM_str {numbers : List ℤ} :
    Escapes (numbers.mapM fun number ↦ str number) ↔ ∃ number ∈ numbers, Oversized number := by
  induction numbers with
  | nil => simp [pure, Except.pure]
  | cons number rest ih =>
    rw [List.mapM_cons, escapes_bind, escapes_str, List.exists_mem_cons_iff, ← ih]
    obtain ⟨hnumber, hstr⟩ | ⟨hnumber, -⟩ := str_eq number
    · simp [hstr, hnumber, escapes_bind, pure, Except.pure]
    · simp [hnumber]

/-- What escapes from reading an OID comes from an arc that is too long. -/
theorem escapes_derDecodeOid {node : DerNode} : Escapes (derDecodeOid node) ↔ node.OversizedOid := by
  rw [derDecodeOid, escapes_expectUniversal_bind, DerNode.OversizedOid]
  apply and_congr_right
  intro _
  cases hcontent : node.content with
  | nil => simp [oidArcs?]
  | cons first rest =>
    unfold oidArcs?
    dsimp only
    split
    · simp
    · rw [escapes_bind, escapes_mapM_str]
      simp [pure, Except.pure]

/-! ## Responses -/

/-- The node is a sequence of two fields, the first of them an OID with an arc of too many digits. -/
def DerNode.OversizedType (node : DerNode) : Prop :=
  node.Universal 0x10 ∧ ∃ contentType wrapper, node.children = [contentType, wrapper] ∧ contentType.OversizedOid

/-- The encapsulated content of a content info whose content type is the one of signed data. -/
def DerNode.Encapsulates (node encap : DerNode) : Prop :=
  ∃ contentType wrapper signedData version digestAlgorithms others further,
    node.Universal 0x10 ∧ node.children = [contentType, wrapper] ∧ contentType.Universal 0x06 ∧
    derDecodeOid contentType = .ok oidSignedData ∧ wrapper.Context 0 ∧ wrapper.children = signedData :: others ∧
    signedData.Universal 0x10 ∧ signedData.children = version :: digestAlgorithms :: encap :: further

theorem not_escapes_parseTstInfo (node : DerNode) : ¬ Escapes (parseTstInfo node) := by
  rw [parseTstInfo, escapes_expectUniversal_bind]
  rintro ⟨-, h⟩
  split at h
  · rw [escapes_expectUniversal_bind, escapes_expectUniversal_bind] at h
    obtain ⟨-, -, h⟩ := h
    split at h
    · rw [escapes_expectUniversal_bind] at h
      simp [escapes_bind, pure, Except.pure] at h
    · simp at h
  · simp at h

theorem not_escapes_parsePkiStatusInfo (node : DerNode) : ¬ Escapes (parsePkiStatusInfo node) := by
  rw [parsePkiStatusInfo, escapes_expectUniversal_bind]
  rintro ⟨-, h⟩
  split at h
  · simp at h
  · rw [escapes_expectUniversal_bind] at h
    simp [escapes_bind, pure, Except.pure] at h

theorem escapes_parseEncapContentInfo {node : DerNode} :
    Escapes (parseEncapContentInfo node) ↔ node.OversizedType := by
  rw [parseEncapContentInfo, escapes_expectUniversal_bind, DerNode.OversizedType]
  apply and_congr_right
  intro _
  rcases hchildren : node.children with _ | ⟨contentType, _ | ⟨wrapper, _ | ⟨third, further⟩⟩⟩
  · simp
  · simp
  · rw [escapes_expectUniversal_bind, escapes_bind, escapes_derDecodeOid]
    simp only [escapes_check (Error.ofClient_derError _), escapes_expectContext_bind]
    -- Behind the OID there is nothing left that could escape.
    cases wrapper.children with
    | nil => simp [DerNode.OversizedOid]
    | cons octets others => simp [DerNode.OversizedOid]
  · simp

theorem escapes_parseContentInfo {node : DerNode} : Escapes (parseContentInfo node) ↔
    node.OversizedType ∨ ∃ encap, node.Encapsulates encap ∧ encap.OversizedType := by
  rw [parseContentInfo, escapes_expectUniversal_bind, DerNode.OversizedType]
  unfold DerNode.Encapsulates
  rcases hchildren : node.children with _ | ⟨contentType, _ | ⟨wrapper, _ | ⟨third, further⟩⟩⟩
  · simp
  · simp
  · rw [escapes_expectUniversal_bind, escapes_bind, escapes_derDecodeOid]
    simp only [escapes_check (Error.ofClient_derError _), escapes_expectContext_bind]
    rcases hwrapper : wrapper.children with _ | ⟨signedData, others⟩
    · simp [DerNode.OversizedOid, hwrapper]
    · rw [escapes_expectUniversal_bind]
      rcases hsigned : signedData.children with _ | ⟨version, _ | ⟨digestAlgorithms, _ | ⟨encap, further⟩⟩⟩
      · simp [DerNode.OversizedOid, hwrapper, hsigned]
      · simp [DerNode.OversizedOid, hwrapper, hsigned]
      · simp [DerNode.OversizedOid, hwrapper, hsigned]
      · rw [escapes_parseEncapContentInfo]
        simp only [DerNode.OversizedOid, hwrapper, hsigned, ne_eq, Decidable.not_not, ↓existsAndEq, true_and,
          List.cons.injEq, and_true, exists_and_right, exists_eq_left', exists_and_left]
        grind
  · simp

/-- The content info of a response whose status has been read. -/
def ContentInfoOf (data : Bytes) (contentInfo : DerNode) : Prop :=
  ∃ root statusInfo further status, derDecode data = .ok root ∧ root.Universal 0x10 ∧
    root.children = statusInfo :: contentInfo :: further ∧ parsePkiStatusInfo statusInfo = .ok status

/-- An OID that the parser comes to has an arc of too many digits. -/
def OversizedOidIn (data : Bytes) : Prop :=
  ∃ contentInfo, ContentInfoOf data contentInfo ∧
    (contentInfo.OversizedType ∨ ∃ encap, contentInfo.Encapsulates encap ∧ encap.OversizedType)

/-- The status of a response has too many digits, and the token behind it is read. -/
def OversizedStatusIn (data : Bytes) : Prop :=
  ∃ root statusInfo further status detail tstInfo, derDecode data = .ok root ∧ root.Universal 0x10 ∧
    root.children = statusInfo :: further ∧ parsePkiStatusInfo statusInfo = .ok (status, detail) ∧
    parseToken further = .ok tstInfo ∧ Oversized status

theorem escapes_parseToken {nodes : List DerNode} : Escapes (parseToken nodes) ↔
    ∃ contentInfo further, nodes = contentInfo :: further ∧
      (contentInfo.OversizedType ∨ ∃ encap, contentInfo.Encapsulates encap ∧ encap.OversizedType) := by
  cases nodes with
  | nil => simp [parseToken]
  | cons contentInfo further =>
    have hrest (tstDer : Bytes) : ¬ Escapes (do
        let node ← derDecode tstDer
        let _ ← expectUniversal node 0x10 "TSTInfo"
        let tstInfo ← parseTstInfo node
        return some tstInfo) := by
      simp [escapes_bind, not_escapes_parseTstInfo, pure, Except.pure]
    rw [parseToken, escapes_bind, escapes_parseContentInfo]
    simp only [hrest, and_false, exists_false, or_false]
    simp

theorem escapes_pkiStatusName {status : ℤ} : Escapes (pkiStatusName status) ↔ Oversized status := by
  rw [pkiStatusName, escapes_bind, escapes_str]
  simp [pure, Except.pure]

/-- What escapes from parsing a response comes from numbers that are too long. -/
theorem escapes_parseTimestampResp {data : Bytes} :
    Escapes (parseTimestampResp data) ↔ OversizedOidIn data ∨ OversizedStatusIn data := by
  rw [parseTimestampResp, escapes_bind_of_not (not_escapes_derDecode data)]
  unfold OversizedOidIn ContentInfoOf OversizedStatusIn
  cases hroot : derDecode data with
  | error error => simp
  | ok root =>
    simp only [Except.ok.injEq, exists_eq_left', escapes_expectUniversal_bind]
    cases hchildren : root.children with
    | nil => simp [hchildren]
    | cons statusInfo further =>
      have hpure (parsed : ParsedResponse) : ¬ Escapes (pure parsed : Except Error ParsedResponse) := escapes_ok parsed
      rw [escapes_bind_of_not (not_escapes_parsePkiStatusInfo statusInfo)]
      simp only [escapes_bind, escapes_parseToken, escapes_pkiStatusName, escapes_str, hpure, and_false, exists_false,
        or_false]
      constructor
      · rintro ⟨huniversal, ⟨status, detail⟩, hstatus, ⟨contentInfo, others, rfl, htype⟩ | ⟨tstInfo, htoken, hlong⟩⟩
        · exact .inl ⟨contentInfo, ⟨root, statusInfo, others, _, rfl, huniversal, hchildren, hstatus⟩, htype⟩
        · have hoversized : Oversized status := hlong.elim id fun ⟨_, _, hoversized⟩ ↦ hoversized
          exact .inr ⟨root, statusInfo, further, status, detail, tstInfo, rfl, huniversal, hchildren, hstatus, htoken,
            hoversized⟩
      · rintro (⟨contentInfo, ⟨_, _, others, status, rfl, huniversal, hsame, hstatus⟩, htype⟩ |
          ⟨_, _, _, status, detail, tstInfo, rfl, huniversal, hsame, hstatus, htoken, hoversized⟩)
        · obtain ⟨rfl, rfl⟩ := List.cons.inj (hchildren.symm.trans hsame)
          exact ⟨huniversal, status, hstatus, .inl ⟨contentInfo, others, rfl, htype⟩⟩
        · obtain ⟨rfl, rfl⟩ := List.cons.inj (hchildren.symm.trans hsame)
          exact ⟨huniversal, _, hstatus, .inr ⟨tstInfo, htoken, .inl hoversized⟩⟩

/-! ## Times -/

/-- The groups of a time text name a moment of the calendar, with an offset below a day. -/
def TimeGroups.IsMoment (groups : TimeGroups) : Prop :=
  1 ≤ groups.year ∧ (1 ≤ groups.month ∧ groups.month ≤ 12) ∧
    (1 ≤ groups.day ∧ groups.day ≤ daysInMonth groups.year groups.month) ∧
    (groups.hour < 24 ∧ groups.minute < 60 ∧ groups.second < 60) ∧ |groups.minutes| < 24 * 60

theorem digitsValue_lt {digits : List Char} (h : digits.all isDigit) : digitsValue digits < 10 ^ digits.length := by
  have hfold (start : ℕ) : digits.foldl (fun n c ↦ 10 * n + (c.toNat - '0'.toNat)) start <
      (start + 1) * 10 ^ digits.length := by
    induction digits generalizing start with
    | nil => simp
    | cons c rest ih =>
      rw [List.all_cons, Bool.and_eq_true] at h
      have hdigit : c.toNat - '0'.toNat ≤ 9 := by
        have hc := h.1
        simp only [isDigit, decide_eq_true_eq] at hc
        have hle : c.toNat ≤ '9'.toNat := hc.2
        have hnine : '9'.toNat = '0'.toNat + 9 := rfl
        omega
      rw [List.foldl_cons, List.length_cons]
      calc rest.foldl (fun n c ↦ 10 * n + (c.toNat - '0'.toNat)) (10 * start + (c.toNat - '0'.toNat))
          < (10 * start + (c.toNat - '0'.toNat) + 1) * 10 ^ rest.length := ih h.2 _
        _ ≤ (10 * (start + 1)) * 10 ^ rest.length := Nat.mul_le_mul_right _ (by omega)
        _ = (start + 1) * 10 ^ (rest.length + 1) := by ring
  simpa [digitsValue] using hfold 0

theorem matchFrac?_digits {chars frac rest : List Char} (h : matchFrac? chars = some (frac, rest)) :
    frac.all isDigit := by
  unfold matchFrac? at h
  split at h
  · dsimp only at h
    split at h
    · cases h
    · obtain ⟨rfl, -⟩ := Prod.mk.inj (Option.some.inj h)
      exact List.all_takeWhile
  · obtain ⟨rfl, -⟩ := Prod.mk.inj (Option.some.inj h)
    rfl

/-- The pattern leaves no year beyond four digits and no fraction of a second beyond six. -/
theorem matchTime?_ranges {gt : String} {groups : TimeGroups} (h : matchTime? gt = some groups) :
    groups.year ≤ 9999 ∧ groups.microsecond < 1000000 := by
  unfold matchTime? at h
  dsimp only at h
  split at h
  · rename_i hdigits
    obtain ⟨⟨frac, rest⟩, hfrac, h⟩ := Option.bind_eq_some_iff.mp h
    obtain ⟨offset, -, h⟩ := Option.bind_eq_some_iff.mp h
    obtain rfl := Option.some.inj h
    have hall (start length : ℕ) : (((gt.toList.take 14).drop start).take length).all isDigit := by
      rw [List.all_eq_true] at hdigits ⊢
      intro c hc
      exact hdigits.2 c (List.mem_of_mem_drop (List.mem_of_mem_take hc))
    have hmicro : (frac.take 6 ++ List.replicate (6 - (frac.take 6).length) '0').all isDigit := by
      have hdigit := matchFrac?_digits hfrac
      rw [List.all_eq_true] at hdigit ⊢
      intro c hc
      obtain hc | hc := List.mem_append.mp hc
      · exact hdigit c (List.mem_of_mem_take hc)
      · rw [List.eq_of_mem_replicate hc]
        rfl
    have hyear := digitsValue_lt (hall 0 4)
    have hmicrosecond := digitsValue_lt hmicro
    have hsix : (frac.take 6 ++ List.replicate (6 - (frac.take 6).length) '0').length = 6 := by
      rw [List.length_append, List.length_replicate, List.length_take]
      omega
    have hfour : (((gt.toList.take 14).drop 0).take 4).length = 4 := by
      rw [List.drop_zero, List.length_take, hdigits.1]
      rfl
    rw [hfour] at hyear
    rw [hsix] at hmicrosecond
    exact ⟨by dsimp only; omega, by rw [TimeGroups.microsecond]; exact hmicrosecond⟩
  · cases h

theorem datetime_eq (groups : TimeGroups) (hyear : groups.year ≤ 9999) (hmicrosecond : groups.microsecond < 1000000) :
    (groups.IsMoment ∧ ∃ moment, groups.datetime = .ok moment) ∨
      (¬ groups.IsMoment ∧ groups.datetime = .error (.valueError none)) := by
  unfold TimeGroups.datetime
  split
  · rename_i h
    obtain ⟨⟨hfirst, -⟩, hmonth, hday, ⟨hhour, hminute, hsecond, -⟩, hoffset⟩ := h
    exact .inl ⟨⟨hfirst, hmonth, hday, ⟨hhour, hminute, hsecond⟩, hoffset⟩, _, rfl⟩
  · rename_i h
    refine .inr ⟨?_, rfl⟩
    rintro ⟨hfirst, hmonth, hday, ⟨hhour, hminute, hsecond⟩, hoffset⟩
    exact h ⟨⟨hfirst, hyear⟩, hmonth, hday, ⟨hhour, hminute, hsecond, hmicrosecond⟩, hoffset⟩

/-- What escapes from the conversion of a time comes from a text of the supported format that is no moment of the
calendar. -/
theorem escapes_generalizedTimeToIso {gt : String} :
    Escapes (generalizedTimeToIso gt) ↔ ∃ groups, matchTime? gt = some groups ∧ ¬ groups.IsMoment := by
  unfold generalizedTimeToIso
  cases hmatch : matchTime? gt with
  | none => simp
  | some groups =>
    obtain ⟨hyear, hmicrosecond⟩ := matchTime?_ranges hmatch
    obtain ⟨hmoment, moment, hdatetime⟩ | ⟨hmoment, hdatetime⟩ := datetime_eq groups hyear hmicrosecond
    · simp [hdatetime, hmoment, Except.map]
    · simp [hdatetime, hmoment, Except.map]

/-! ## The client -/

namespace Rfc3161TsaClient

variable {client : Rfc3161TsaClient} {nonce : ℕ} {digest raw : Bytes}

section AsTsaError

variable {α : Type} {text : String} {outcome : Except Error α}

theorem escapes_asTsaError : Escapes (asTsaError text outcome) ↔ Escapes outcome := by
  unfold asTsaError
  split <;> simp

theorem asTsaError_ok {value : α} : asTsaError text outcome = .ok value ↔ outcome = .ok value := by
  unfold asTsaError
  split <;> simp

theorem asTsaError_ne_derError (detail : String) : asTsaError text outcome ≠ .error (.derError detail) := by
  unfold asTsaError
  split
  · simp
  · rename_i hother
    exact hother detail

end AsTsaError

/-- On the bytes of the response, the method returns a token or raises `TsaError`. -/
def SurfacesAsTsaError (client : Rfc3161TsaClient) (nonce : ℕ) (digest raw : Bytes) : Prop :=
  ∀ post : Bytes → Except Error Bytes,
    (∀ request, client.buildRequest nonce digest = .ok request → post request = .ok raw) →
    (∃ token, client.timestamp post nonce digest = .ok token) ∨
      ∃ text, client.timestamp post nonce digest = .error (.tsaError text)

/-- A granted response to the request has a time of the supported format that is no moment of the calendar. -/
def ImpossibleTime (nonce : ℕ) (digest raw : Bytes) : Prop :=
  ∃ parsed info groups, parseTimestampResp raw = .ok parsed ∧ (parsed.status = 0 ∨ parsed.status = 1) ∧
    parsed.tstInfo = some info ∧ info.hashedMessage = digest ∧ info.nonce = some (nonce : ℤ) ∧
    matchTime? info.genTime = some groups ∧ ¬ groups.IsMoment

/-- What escapes from the checks comes from the conversion of the time behind them. -/
theorem escapes_accept {parsed : ParsedResponse} : Escapes (client.accept nonce digest raw parsed) ↔
    (parsed.status = 0 ∨ parsed.status = 1) ∧ ∃ info groups, parsed.tstInfo = some info ∧
      info.hashedMessage = digest ∧ info.nonce = some (nonce : ℤ) ∧ matchTime? info.genTime = some groups ∧
      ¬ groups.IsMoment := by
  rw [accept, escapes_check (Error.ofClient_tsaError _), not_not]
  apply and_congr_right
  intro _
  cases parsed.tstInfo with
  | none => simp
  | some info =>
    dsimp only
    rw [escapes_check (Error.ofClient_tsaError _), escapes_check (Error.ofClient_tsaError _),
      escapes_check (Error.ofClient_tsaError _), escapes_bind, escapes_asTsaError, escapes_generalizedTimeToIso]
    simp only [pure, Except.pure, escapes_ok, and_false, exists_false, or_false, not_not, Option.some.injEq,
      exists_and_left, exists_eq_left']
    grind

theorem accept_ne_derError {parsed : ParsedResponse} (detail : String) :
    client.accept nonce digest raw parsed ≠ .error (.derError detail) := by
  intro h
  unfold accept at h
  split at h
  · cases h
  · split at h
    · cases h
    · split_ifs at h
      · cases h
      · cases h
      · cases h
      · obtain htime | ⟨iso, -, h⟩ := bind_eq_error.mp h
        · exact asTsaError_ne_derError detail htime
        · cases h

/-- What the method does with the bytes of a response. -/
def readResponse (client : Rfc3161TsaClient) (nonce : ℕ) (digest raw : Bytes) : Except Error TsaToken := do
  let parsed ← asTsaError "malformed TimeStampResp: " (parseTimestampResp raw)
  client.accept nonce digest raw parsed

theorem timestamp_of_response {post : Bytes → Except Error Bytes} (hdigest : digest.length = client.hash.digestSize)
    (hpost : ∀ request, client.buildRequest nonce digest = .ok request → post request = .ok raw) :
    client.timestamp post nonce digest = client.readResponse nonce digest raw := by
  have hrequest : client.buildRequest nonce digest =
      .ok (requestTree client.hash.oidContent.content digest nonce).encode := by
    rw [buildRequest, if_neg (not_not.mpr hdigest), buildTimestampReq_eq client.hash.oidContent]
  rw [timestamp, hrequest]
  dsimp only [bind, Except.bind]
  rw [hpost _ hrequest]
  rfl

theorem readResponse_ne_derError (detail : String) :
    client.readResponse nonce digest raw ≠ .error (.derError detail) := by
  intro h
  obtain hparse | ⟨parsed, -, haccept⟩ := bind_eq_error.mp h
  · exact asTsaError_ne_derError detail hparse
  · exact accept_ne_derError detail haccept

theorem surfaces_iff_not_escapes (hdigest : digest.length = client.hash.digestSize) :
    client.SurfacesAsTsaError nonce digest raw ↔ ¬ Escapes (client.readResponse nonce digest raw) := by
  constructor
  · intro hsurfaces
    have h := hsurfaces (fun _ ↦ .ok raw) fun _ _ ↦ rfl
    rw [timestamp_of_response hdigest fun _ _ ↦ rfl] at h
    obtain ⟨token, h⟩ | ⟨text, h⟩ := h <;> simp [h]
  · intro h post hpost
    rw [timestamp_of_response hdigest hpost]
    cases houtcome : client.readResponse nonce digest raw with
    | ok token => exact .inl ⟨token, rfl⟩
    | error error =>
      rw [houtcome, escapes_error, not_not] at h
      cases error with
      | tsaError text => exact .inr ⟨text, rfl⟩
      | derError detail => exact absurd houtcome (readResponse_ne_derError detail)
      | valueError text => exact absurd h (Error.ofClient_valueError text)

theorem escapes_readResponse : Escapes (client.readResponse nonce digest raw) ↔
    OversizedOidIn raw ∨ OversizedStatusIn raw ∨ ImpossibleTime nonce digest raw := by
  rw [readResponse, escapes_bind, escapes_asTsaError, escapes_parseTimestampResp, or_assoc]
  simp only [asTsaError_ok, escapes_accept, ImpossibleTime, exists_and_left]

/-- The sample response at the thirtieth of February. -/
def lateFields : ResponseFields := { sampleFields with genTime := "20260230102030Z" }

end Rfc3161TsaClient

end DecisionCore.Rfc3161
