import DecisionCore.Domain.Values

/-!
# Texts of numbers and byte strings

`int(text)`, `str(n)`, `repr` and the decoding of bytes as texts.  Conversions between numbers and
decimal texts are limited to 4300 digits by the interpreter, which raises `ValueError` beyond.
-/

namespace DecisionCore.PyText

/-- `sys.get_int_max_str_digits()`. -/
def maxStrDigits : ℕ := 4300

/-- `str(n)`, none where the number has too many digits. -/
def str? (n : ℤ) : Option String :=
  if (toString n.natAbs).length ≤ maxStrDigits then some (toString n) else none

def digit? (c : Char) : Option ℕ := if '0' ≤ c ∧ c ≤ '9' then some (c.toNat - '0'.toNat) else none

/-- Decimal digits, with single underscores between them. -/
def digits? : List Char → Option (List ℕ)
  | [] => none
  | [c] => (digit? c).map fun digit ↦ [digit]
  | c :: '_' :: rest => do
    let digit ← digit? c
    let digits ← digits? rest
    return digit :: digits
  | c :: rest => do
    let digit ← digit? c
    let digits ← digits? rest
    return digit :: digits

def natural? (chars : List Char) : Option ℕ := do
  let digits ← digits? chars
  if digits.length ≤ maxStrDigits then some (digits.foldl (fun n digit ↦ 10 * n + digit) 0) else none

/-- The text without blanks at its ends. -/
def strip (chars : List Char) : List Char :=
  ((chars.dropWhile isHexSpace).reverse.dropWhile isHexSpace).reverse

/-- `int(text)` on ASCII texts, none where it raises. -/
def int? (text : String) : Option ℤ :=
  match strip text.toList with
  | '-' :: rest => (natural? rest).map fun n ↦ -(n : ℤ)
  | '+' :: rest => (natural? rest).map fun n ↦ (n : ℤ)
  | rest => (natural? rest).map fun n ↦ (n : ℤ)

/-- `text.split(".")`. -/
def splitDots (text : String) : List String := (text.toList.splitOn '.').map String.ofList

/-- The quote that `repr` puts around a text or a byte string. -/
def reprQuote (chars : List Char) : Char := if '\x27' ∈ chars ∧ '"' ∉ chars then '"' else '\x27'

/-- A character below 256 in a `repr`, escaped unless it is printable ASCII. -/
def reprChar (quote c : Char) : List Char :=
  if c = quote ∨ c = '\\' then ['\\', c]
  else if c = '\t' then ['\\', 't']
  else if c = '\n' then ['\\', 'n']
  else if c = '\r' then ['\\', 'r']
  else if c.toNat < 32 ∨ 127 ≤ c.toNat then '\\' :: 'x' :: hexByte (UInt8.ofNat c.toNat)
  else [c]

/-- `repr(text)` of an ASCII text. -/
def reprText (text : String) : String :=
  let quote := reprQuote text.toList
  String.ofList (quote :: text.toList.flatMap (reprChar quote) ++ [quote])

/-- `repr(data)` of a byte string. -/
def reprData (data : Bytes) : String :=
  let chars := data.map fun byte ↦ Char.ofNat byte.toNat
  let quote := reprQuote chars
  String.ofList ('b' :: quote :: chars.flatMap (reprChar quote) ++ [quote])

/-- `data.decode("utf-8")`. -/
def decodeUtf8? (data : Bytes) : Option String := String.fromUTF8? ⟨data.toArray⟩

/-- A text comes back from its bytes. -/
theorem decodeUtf8?_encodeUtf8 (text : String) : decodeUtf8? (encodeUtf8 text) = some text := by
  have hbytes : (⟨(encodeUtf8 text).toArray⟩ : ByteArray) = text.toByteArray := rfl
  rw [decodeUtf8?, hbytes, String.fromUTF8?, dif_pos text.isValidUTF8]
  rfl

/-- `data.decode("ascii")`. -/
def decodeAscii? (data : Bytes) : Option String :=
  if data.all (· < 128) then some (String.ofList (data.map fun byte ↦ Char.ofNat byte.toNat)) else none

/-- `text.encode("ascii")`. -/
def encodeAscii? (text : String) : Option Bytes :=
  if text.toList.all (·.toNat < 128) then some (text.toList.map fun c ↦ UInt8.ofNat c.toNat) else none

/-- ASCII text comes back from its bytes. -/
theorem decodeAscii?_of_encodeAscii? {text : String} {data : Bytes} (h : encodeAscii? text = some data) :
    decodeAscii? data = some text := by
  simp only [encodeAscii?] at h
  split at h
  · rename_i hascii
    have hlt : ∀ c ∈ text.toList, c.toNat < 128 := by simpa using hascii
    obtain rfl := Option.some.inj h
    have hbytes : (text.toList.map fun c ↦ UInt8.ofNat c.toNat).all (· < 128) = true := by
      rw [List.all_map, List.all_eq_true]
      intro c hc
      have hc := hlt c hc
      simp only [Function.comp_apply, decide_eq_true_eq, UInt8.lt_iff_toNat_lt, UInt8.toNat_ofNat']
      change c.toNat % 256 < 128
      omega
    have hchars : (text.toList.map fun c ↦ UInt8.ofNat c.toNat).map (fun byte ↦ Char.ofNat byte.toNat) =
        text.toList := by
      rw [List.map_map]
      calc text.toList.map _ = text.toList.map id := by
            apply List.map_congr_left
            intro c hc
            have hc := hlt c hc
            simp only [Function.comp_apply, UInt8.toNat_ofNat', id_eq]
            rw [Nat.mod_eq_of_lt (by omega), Char.ofNat_toNat]
        _ = text.toList := List.map_id _
    rw [decodeAscii?, if_pos hbytes, hchars, String.ofList_toList]
  · cases h

/-! ## Decimal numerals -/

theorem digit?_of_isDigit {c : Char} (h : c.isDigit = true) : digit? c = some (c.toNat - '0'.toNat) := by
  have hrange : '0' ≤ c ∧ c ≤ '9' := by simpa [Char.isDigit, Char.le_def] using h
  rw [digit?, if_pos hrange]

theorem digits?_of_isDigit {chars : List Char} (hne : chars ≠ []) (h : ∀ c ∈ chars, c.isDigit = true) :
    digits? chars = some (chars.map fun c ↦ c.toNat - '0'.toNat) := by
  induction chars using digits?.induct with
  | case1 => exact absurd rfl hne
  | case2 c => simp [digits?, digit?_of_isDigit (h c List.mem_cons_self)]
  | case3 c rest _ => 
    have hunderscore := h '_' (by simp)
    exact absurd hunderscore (by decide)
  | case4 c rest hnil _ ih => 
    have hrest := ih hnil fun d hd ↦ h d (List.mem_cons_of_mem _ hd)
    rw [digits?.eq_4 _ _ (by simpa using hnil) (by assumption), digit?_of_isDigit (h c List.mem_cons_self), hrest]
    rfl

theorem natural?_toDigits (n : ℕ) :
    natural? (Nat.toDigits 10 n) = if n < 10 ^ maxStrDigits then some n else none := by
  have hdigits : digits? (Nat.toDigits 10 n) = some ((Nat.toDigits 10 n).map fun c ↦ c.toNat - '0'.toNat) :=
    digits?_of_isDigit Nat.toDigits_ne_nil fun c hc ↦ Nat.isDigit_of_mem_toDigits (by decide) (by decide) hc
  have hvalue : ((Nat.toDigits 10 n).map fun c ↦ c.toNat - '0'.toNat).foldl (fun n digit ↦ 10 * n + digit) 0 = n := by
    rw [List.foldl_map]
    exact Nat.ofDigitChars_ten_toDigits
  have hlength : (Nat.toDigits 10 n).length ≤ maxStrDigits ↔ n < 10 ^ maxStrDigits :=
    Nat.length_toDigits_le_iff (by decide) (by decide)
  simp only [natural?, hdigits, bind, Option.bind, List.length_map, hvalue, hlength]

theorem strip_eq_self {chars : List Char} (h : ∀ c ∈ chars, isHexSpace c = false) : strip chars = chars := by
  have hdrop {side : List Char} (hside : ∀ c ∈ side, isHexSpace c = false) : side.dropWhile isHexSpace = side := by
    cases side with
    | nil => rfl
    | cons first rest =>
      have hfirst := hside first List.mem_cons_self
      rw [List.dropWhile_cons, if_neg (by simp [hfirst])]
  have hback : ∀ c ∈ chars.reverse, isHexSpace c = false := by simpa using h
  rw [strip, hdrop h, hdrop hback, List.reverse_reverse]

/-- A numeral is read as its number, unless it has too many digits. -/
theorem int?_repr (n : ℕ) : int? n.repr = if n < 10 ^ maxStrDigits then some (n : ℤ) else none := by
  have hdigit : ∀ c ∈ Nat.toDigits 10 n, c.isDigit = true := fun c hc ↦
    Nat.isDigit_of_mem_toDigits (by decide) (by decide) hc
  have hstrip : strip n.repr.toList = Nat.toDigits 10 n := by
    rw [Nat.toList_repr]
    apply strip_eq_self
    intro c hc
    rw [Bool.eq_false_iff]
    intro hspace
    have hmem : c ∈ [' ', '\t', '\n', '\r', '\x0b', '\x0c'] := by simpa [isHexSpace] using hspace
    have hnone : ∀ space ∈ [' ', '\t', '\n', '\r', '\x0b', '\x0c'], space.isDigit = false := by
      simp only [List.forall_mem_cons]
      exact ⟨rfl, rfl, rfl, rfl, rfl, rfl, nofun⟩
    exact absurd (hdigit c hc) (by simp [hnone c hmem])
  rw [int?, hstrip]
  split
  · rename_i rest hminus
    have hsign := hdigit '-' (by simp [hminus])
    exact absurd hsign (by decide)
  · rename_i rest hplus
    have hsign := hdigit '+' (by simp [hplus])
    exact absurd hsign (by decide)
  · rw [natural?_toDigits]
    split <;> rfl

theorem str?_natCast (n : ℕ) : str? n = if n < 10 ^ maxStrDigits then some n.repr else none := by
  have hlength : n.repr.length ≤ maxStrDigits ↔ n < 10 ^ maxStrDigits := Nat.length_repr_le_iff (by decide)
  simp only [str?, Int.natAbs_natCast, Nat.toString_eq_repr, hlength]
  rfl

/-- Numerals joined by dots. -/
def dottedText (numbers : List ℕ) : String := ".".intercalate (numbers.map Nat.repr)

theorem splitDots_dottedText {numbers : List ℕ} (hne : numbers ≠ []) :
    splitDots (dottedText numbers) = numbers.map Nat.repr := by
  have hdots : ∀ chars ∈ numbers.map (fun n ↦ n.repr.toList), '.' ∉ chars := by
    intro chars hchars hdot
    obtain ⟨n, -, rfl⟩ := List.mem_map.mp hchars
    rw [Nat.toList_repr] at hdot
    have hdigit := Nat.isDigit_of_mem_toDigits (by decide) (by decide) hdot
    exact absurd hdigit (by decide)
  have hsplit := List.splitOn_intercalate '.' hdots (by simpa using hne)
  have hchars : (dottedText numbers).toList = ['.'].intercalate (numbers.map fun n ↦ n.repr.toList) := by
    rw [dottedText, String.toList_intercalate, List.map_map]
    rfl
  rw [splitDots, hchars, hsplit, List.map_map]
  apply List.map_congr_left
  intro n _
  exact String.ofList_toList

end DecisionCore.PyText
