import DecisionCore.Domain.JsonReader

/-!
# Reading back written texts

`json.loads(json.dumps(value))` is the value again.  Texts are read back character by character, through
their escapes and surrogate pairs; numbers end where a delimiter stands; lists and objects are closed
joins of what is read back.
-/

namespace DecisionCore

namespace JsonText

open Separated Reader

/-! ## Texts -/

theorem scanUnit_hex4 {n : ℕ} (h : n < 0x10000) (rest : List Char) : scanUnit (hex4 n ++ rest) = .ok (n, rest) := by
  have hdigit : ∀ m, hexValue (Nat.digitChar (m % 16)) = some (m % 16) := fun m ↦
    hexValue_digitChar (Nat.mod_lt _ (by decide))
  have hsum : 4096 * (n / 4096 % 16) + 256 * (n / 256 % 16) + 16 * (n / 16 % 16) + n % 16 = n := by omega
  simp only [hex4, List.cons_append, List.nil_append, scanUnit, hdigit, hsum]

theorem scanChar_escapeUnit (n : ℕ) (rest : List Char) :
    scanChar (escapeUnit n ++ rest) = scanCodePoint (hex4 n ++ rest) := by
  simp only [escapeUnit, List.cons_append, scanChar, if_true, scanEscape]

theorem toNat_valid (c : Char) : c.toNat < 0xd800 ∨ 0xdfff < c.toNat ∧ c.toNat < 0x110000 := by
  have hvalid := c.valid
  simp only [UInt32.isValidChar, Nat.isValidChar] at hvalid
  exact hvalid

/-- A character is no surrogate. -/
theorem toNat_plain (c : Char) : ¬ (0xd800 ≤ c.toNat ∧ c.toNat < 0xdc00) ∧ ¬ (0xdc00 ≤ c.toNat ∧ c.toNat < 0xe000) := by
  have hvalid := toNat_valid c
  constructor <;> omega

/-- A code unit that is no surrogate is a character. -/
theorem scanCodePoint_of_plain {c : Char} (h : c.toNat < 0x10000) (rest : List Char) :
    scanCodePoint (hex4 c.toNat ++ rest) = .ok (c, rest) := by
  simp only [scanCodePoint, scanUnit_hex4 h, if_neg (toNat_plain c).1, if_neg (toNat_plain c).2, Char.ofNat_toNat]

/-- A character beyond the basic plane is read back from its two surrogates. -/
theorem scanChar_pair {c : Char} {high low : ℕ} (hhigh : 0xd800 ≤ high ∧ high < 0xdc00)
    (hlow : 0xdc00 ≤ low ∧ low < 0xe000) (hjoin : 0x10000 + 1024 * (high - 0xd800) + (low - 0xdc00) = c.toNat)
    (rest : List Char) : scanChar (escapeUnit high ++ (escapeUnit low ++ rest)) = .ok (c, rest) := by
  have hsecond : scanLow high (escapeUnit low ++ rest) = .ok (c, rest) := by
    simp only [escapeUnit, List.cons_append, scanLow, scanUnit_hex4 (show low < 0x10000 by omega), if_pos hlow,
      hjoin, Char.ofNat_toNat]
  calc scanChar (escapeUnit high ++ (escapeUnit low ++ rest))
      = scanCodePoint (hex4 high ++ (escapeUnit low ++ rest)) := scanChar_escapeUnit high _
    _ = scanLow high (escapeUnit low ++ rest) := by
      simp only [scanCodePoint, scanUnit_hex4 (show high < 0x10000 by omega), if_pos hhigh]
    _ = .ok (c, rest) := hsecond

theorem scanChar_escapeChar {c : Char} (h : c = '"' ∨ c = '\\' ∨ c.toNat < 32) (rest : List Char) :
    scanChar (escapeChar c ++ rest) = .ok (c, rest) := by
  unfold escapeChar
  split_ifs with hquote hslash hn hr ht hf hb hcontrol
  · subst hquote; rfl
  · subst hslash; rfl
  · subst hn; rfl
  · subst hr; rfl
  · subst ht; rfl
  · subst hf; rfl
  · subst hb; rfl
  · have hunit := scanChar_escapeUnit c.toNat rest
    exact hunit.trans (scanCodePoint_of_plain (by omega) rest)
  · exact absurd h (by simp [hquote, hslash, hcontrol])

theorem scanChar_escapeAscii (c : Char) (rest : List Char) : scanChar (escapeAscii c ++ rest) = .ok (c, rest) := by
  unfold escapeAscii
  split_ifs with hspecial hprintable hplane
  · exact scanChar_escapeChar hspecial rest
  · have hslash : c ≠ '\\' := fun h ↦ hspecial (.inr (.inl h))
    have hcontrol : ¬ c.toNat < 32 := fun h ↦ hspecial (.inr (.inr h))
    simp only [List.cons_append, List.nil_append, scanChar, if_neg hslash, if_neg hcontrol]
  · rw [scanChar_escapeUnit]
    exact scanCodePoint_of_plain hplane rest
  · rw [List.append_assoc]
    have hvalid := toNat_valid c
    apply scanChar_pair <;> omega

theorem escapeAscii_head (c : Char) : ∃ first text, escapeAscii c = first :: text ∧ first ≠ '"' := by
  unfold escapeAscii
  split_ifs with hspecial
  · exact escapeChar_head c
  · exact ⟨c, [], rfl, fun h ↦ hspecial (.inl h)⟩
  · exact ⟨_, _, rfl, by decide⟩
  · exact ⟨_, _, rfl, by decide⟩

theorem scanChars_escaped {chars : List Char} {fuel : ℕ} (h : chars.length < fuel) (rest : List Char) :
    scanChars fuel (chars.flatMap escapeAscii ++ '"' :: rest) = .ok (chars, rest) := by
  induction chars generalizing fuel with
  | nil =>
    obtain ⟨fuel, rfl⟩ := Nat.exists_eq_add_of_lt h
    simp [scanChars]
  | cons c chars ih =>
    obtain ⟨fuel, rfl⟩ : ∃ n, fuel = n + 1 := ⟨fuel - 1, by omega⟩
    obtain ⟨first, text, htext, hfirst⟩ := escapeAscii_head c
    have hchar := scanChar_escapeAscii c (chars.flatMap escapeAscii ++ '"' :: rest)
    have hrest := ih (Nat.succ_lt_succ_iff.mp h)
    have hopen : (escapeAscii c ++ (chars.flatMap escapeAscii ++ '"' :: rest)).head? ≠ some '"' := by
      rw [htext]
      simpa using hfirst
    rw [List.flatMap_cons, List.append_assoc, scanChars, if_neg hopen, hchar]
    exact congrArg (Except.map fun found ↦ (c :: found.1, found.2)) hrest

theorem length_le_escaped (chars : List Char) : chars.length ≤ (chars.flatMap escapeAscii).length := by
  induction chars with
  | nil => exact le_rfl
  | cons c chars ih =>
    obtain ⟨first, text, htext, -⟩ := escapeAscii_head c
    rw [List.flatMap_cons, htext]
    simp only [List.cons_append, List.length_cons, List.length_append]
    omega

theorem scanString_escaped (text : String) (rest : List Char) :
    scanString (text.toList.flatMap escapeAscii ++ '"' :: rest) = .ok (text, rest) := by
  have hfuel : text.toList.length < (text.toList.flatMap escapeAscii ++ '"' :: rest).length := by
    have := length_le_escaped text.toList
    simp only [List.length_append, List.length_cons]
    omega
  rw [scanString, scanChars_escaped hfuel]
  simp [Except.map]

theorem quoteAscii_append (text : String) (rest : List Char) :
    quoteAscii text ++ rest = '"' :: (text.toList.flatMap escapeAscii ++ '"' :: rest) := by
  simp [quoteAscii]

/-! ## Numbers -/

/-- The parts of a number as a JSON text has them. -/
structure IsNumeral (sign whole fraction exponent : List Char) : Prop where
  sign : sign = [] ∨ sign = ['-']
  whole : whole = ['0'] ∨ ∃ first rest, whole = first :: rest ∧ first ≠ '0' ∧ ∀ c ∈ whole, c.isDigit = true
  fraction : fraction = [] ∨ ∃ digits, fraction = '.' :: digits ∧ digits ≠ [] ∧ ∀ c ∈ digits, c.isDigit = true
  exponent : exponent = [] ∨ ∃ mark sign digits, exponent = mark :: (sign ++ digits) ∧ (mark = 'e' ∨ mark = 'E') ∧
    (sign = [] ∨ sign = ['+'] ∨ sign = ['-']) ∧ digits ≠ [] ∧ ∀ c ∈ digits, c.isDigit = true

/-- A text that does not go on with a digit. -/
def EndsDigits (rest : List Char) : Prop := Stops (fun c ↦ c.isDigit = false) rest

theorem spanDigits_append {digits rest : List Char} (h : ∀ c ∈ digits, c.isDigit = true) (hrest : EndsDigits rest) :
    spanDigits (digits ++ rest) = (digits, rest) := by
  have hstop : ∀ c ∈ rest.head?, ¬ c.isDigit = true := by simpa [EndsDigits, Stops] using hrest
  have hempty : rest.takeWhile Char.isDigit = [] ∧ rest.dropWhile Char.isDigit = rest := by
    cases rest with
    | nil => exact ⟨rfl, rfl⟩
    | cons c rest =>
      have hc : c.isDigit = false := by simpa using hstop
      simp [hc]
  rw [spanDigits, List.takeWhile_append_of_pos h, List.dropWhile_append_of_pos h, hempty.1, hempty.2, List.append_nil]

theorem isDigit_ne {c d : Char} (hc : c.isDigit = true) (hd : d.isDigit = false) : c ≠ d := by
  intro heq
  rw [heq, hd] at hc
  exact Bool.false_ne_true hc

/-- Behind a number stands its end, or a delimiter. -/
def EndsNumber (rest : List Char) : Prop := Stops delimiter rest

theorem EndsNumber.endsDigits {rest : List Char} (h : EndsNumber rest) : EndsDigits rest := by
  intro c hc
  rcases h c hc with rfl | rfl | rfl <;> rfl

theorem scanExponent_end {rest : List Char} (h : EndsNumber rest) : scanExponent rest = ([], rest) := by
  cases rest with
  | nil => rfl
  | cons c rest =>
    have hmark : ¬ (c = 'e' ∨ c = 'E') := by
      have hc := stops_cons.mp h
      rcases hc with rfl | rfl | rfl <;> decide
    simp [scanExponent, hmark]

theorem scanExponent_append {exponent rest : List Char} {sign whole fraction : List Char}
    (h : IsNumeral sign whole fraction exponent) (hrest : EndsNumber rest) :
    scanExponent (exponent ++ rest) = (exponent, rest) := by
  obtain rfl | ⟨mark, sign, digits, rfl, hmark, hsign, hne, hdigits⟩ := h.exponent
  · exact scanExponent_end hrest
  · have hspan := spanDigits_append hdigits hrest.endsDigits
    have hsigned : scanExponentSign (sign ++ (digits ++ rest)) = (sign, digits ++ rest) := by
      obtain ⟨first, more, rfl⟩ := List.exists_cons_of_ne_nil hne
      have hfirst := hdigits first List.mem_cons_self
      obtain rfl | rfl | rfl := hsign
      · have hplus : first ≠ '+' := isDigit_ne hfirst rfl
        have hminus : first ≠ '-' := isDigit_ne hfirst rfl
        simp only [List.nil_append, List.cons_append]
        exact scanExponentSign.eq_3 _ (fun rest h ↦ hplus (List.cons.inj h).1) fun rest h ↦ hminus (List.cons.inj h).1
      · rfl
      · rfl
    have htaken : ¬ digits.isEmpty = true := by simpa using hne
    simp [scanExponent, List.append_assoc, hsigned, hspan, hmark, htaken]

variable {sign whole fraction exponent rest : List Char}

theorem IsNumeral.stops_exponent (h : IsNumeral sign whole fraction exponent) (hrest : EndsNumber rest) :
    EndsDigits (exponent ++ rest) ∧ (exponent ++ rest).head? ≠ some '.' := by
  obtain rfl | ⟨mark, sign, digits, rfl, hmark, -⟩ := h.exponent
  · refine ⟨hrest.endsDigits, ?_⟩
    intro hpoint
    rcases hrest '.' (by simpa using hpoint) with heq | heq | heq <;> exact absurd heq (by decide)
  · obtain rfl | rfl := hmark
    · exact ⟨stops_cons.mpr rfl, by simp⟩
    · exact ⟨stops_cons.mpr rfl, by simp⟩

theorem scanFraction_append (h : IsNumeral sign whole fraction exponent) (hrest : EndsNumber rest) :
    scanFraction (fraction ++ (exponent ++ rest)) = (fraction, exponent ++ rest) := by
  obtain ⟨hends, hpoint⟩ := h.stops_exponent hrest
  obtain rfl | ⟨digits, rfl, hne, hdigits⟩ := h.fraction
  · cases hbehind : exponent ++ rest with
    | nil => rfl
    | cons c text =>
      rw [hbehind, List.head?_cons, ne_eq, Option.some.injEq] at hpoint
      exact scanFraction.eq_2 _ fun rest h ↦ hpoint (List.cons.inj h).1
  · have hspan := spanDigits_append hdigits hends
    have htaken : ¬ digits.isEmpty = true := by simpa using hne
    simp [scanFraction, hspan, htaken]

theorem IsNumeral.stops_fraction (h : IsNumeral sign whole fraction exponent) (hrest : EndsNumber rest) :
    EndsDigits (fraction ++ (exponent ++ rest)) := by
  obtain rfl | ⟨digits, rfl, -⟩ := h.fraction
  · exact (h.stops_exponent hrest).1
  · exact stops_cons.mpr rfl

theorem scanWhole_append (h : IsNumeral sign whole fraction exponent) (hrest : EndsNumber rest) :
    scanWhole (whole ++ (fraction ++ (exponent ++ rest))) = (whole, fraction ++ (exponent ++ rest)) := by
  obtain rfl | ⟨first, more, rfl, hfirst, hdigits⟩ := h.whole
  · rfl
  · have hspan := spanDigits_append hdigits (h.stops_fraction hrest)
    rw [List.cons_append] at hspan ⊢
    rw [scanWhole.eq_2 _ fun rest h ↦ hfirst (List.cons.inj h).1, hspan]

theorem IsNumeral.first_digit (h : IsNumeral sign whole fraction exponent) :
    ∃ first more, whole = first :: more ∧ first.isDigit = true := by
  obtain rfl | ⟨first, more, rfl, -, hdigits⟩ := h.whole
  · exact ⟨'0', [], rfl, rfl⟩
  · exact ⟨first, more, rfl, hdigits first List.mem_cons_self⟩

theorem scanSign_append (h : IsNumeral sign whole fraction exponent) (text : List Char) :
    scanSign (sign ++ (whole ++ text)) = (sign, whole ++ text) := by
  obtain ⟨first, more, rfl, hfirst⟩ := h.first_digit
  obtain hsign | hsign := h.sign
  · have hminus : first ≠ '-' := isDigit_ne hfirst rfl
    rw [hsign, List.nil_append, List.cons_append, scanSign.eq_2 _ fun rest h ↦ hminus (List.cons.inj h).1]
  · rw [hsign]
    rfl

/-- A numeral in front of a delimiter is taken apart into its parts. -/
theorem scanNumber_append (float : String → PyFloat) (h : IsNumeral sign whole fraction exponent)
    (hrest : EndsNumber rest) :
    scanNumber float (sign ++ (whole ++ (fraction ++ (exponent ++ rest)))) =
      if fraction.isEmpty ∧ exponent.isEmpty then
        if whole.length ≤ PyText.maxStrDigits then .ok (.int (signedNumber sign whole), rest) else .error .digits
      else .ok (.float (float (String.ofList (sign ++ whole ++ fraction ++ exponent))), rest) := by
  have hwhole : ¬ whole.isEmpty = true := by
    obtain ⟨first, more, rfl, -⟩ := h.first_digit
    exact Bool.false_ne_true
  simp only [scanNumber, scanSign_append h, scanWhole_append h hrest, scanFraction_append h hrest,
    scanExponent_append h hrest, if_neg hwhole]

/-- No literal starts like a numeral. -/
theorem scanLiteral?_numeral (h : IsNumeral sign whole fraction exponent) (text : List Char) :
    scanLiteral? (sign ++ (whole ++ text)) = none := by
  obtain ⟨first, more, rfl, hfirst⟩ := h.first_digit
  have hne {c : Char} (hc : c.isDigit = false) : ¬ c = first := fun heq ↦ isDigit_ne hfirst hc heq.symm
  rw [scanLiteral?, Option.map_eq_none_iff, List.find?_eq_none]
  simp only [literals, List.forall_mem_cons]
  obtain hsign | hsign := h.sign
  · subst hsign
    refine ⟨?_, ?_, ?_, ?_, ?_, ?_, List.forall_mem_nil _⟩ <;>
      simp [List.isPrefixOf, hne]
  · subst hsign
    refine ⟨?_, ?_, ?_, ?_, ?_, ?_, List.forall_mem_nil _⟩ <;>
      simp [List.isPrefixOf, hne]

/-! ## Integers and floats -/

theorem head_toDigits {n : ℕ} (h : 0 < n) : (Nat.toDigits 10 n).head? ≠ some '0' := by
  induction n using Nat.strongRecOn with
  | ind n ih =>
    by_cases hlt : n < 10
    · rw [Nat.toDigits_of_lt_base hlt]
      interval_cases n <;> decide
    · have hquotient : 0 < n / 10 := Nat.div_pos (Nat.le_of_not_lt hlt) (by decide)
      have hfirst := ih (n / 10) (Nat.div_lt_self h (by decide)) hquotient
      rw [Nat.toDigits_of_base_le (by decide) (Nat.le_of_not_lt hlt)]
      rwa [List.head?_append_of_ne_nil _ Nat.toDigits_ne_nil]

theorem isNumeral_toDigits {sign : List Char} (hsign : sign = [] ∨ sign = ['-']) (n : ℕ) :
    IsNumeral sign (Nat.toDigits 10 n) [] [] where
  sign := hsign
  whole := by
    obtain rfl | hpos := Nat.eq_zero_or_pos n
    · exact .inl rfl
    · obtain ⟨first, more, htext⟩ := List.exists_cons_of_ne_nil (Nat.toDigits_ne_nil (n := n) (b := 10))
      have hfirst := head_toDigits hpos
      rw [htext] at hfirst
      refine .inr ⟨first, more, htext, by simpa using hfirst, ?_⟩
      intro c hc
      exact Nat.isDigit_of_mem_toDigits (by decide) (by decide) hc
  fraction := .inl rfl
  exponent := .inl rfl

/-- The sign of an integer, and the number in front of which it stands. -/
theorem intText_eq (n : ℤ) : ∃ sign, (sign = [] ∨ sign = ['-']) ∧
    (toString n).toList = sign ++ Nat.toDigits 10 n.natAbs ∧ signedNumber sign (Nat.toDigits 10 n.natAbs) = n := by
  cases n with
  | ofNat n =>
    refine ⟨[], .inl rfl, ?_, ?_⟩
    · change n.repr.toList = Nat.toDigits 10 n
      rw [Nat.toList_repr]
    · simp [signedNumber, Nat.ofDigitChars_ten_toDigits]
  | negSucc n =>
    refine ⟨['-'], .inr rfl, ?_, ?_⟩
    · change ("-" ++ (n + 1).repr).toList = '-' :: Nat.toDigits 10 (n + 1)
      rw [String.toList_append, Nat.toList_repr]
      rfl
    · simp only [signedNumber, Int.natAbs_negSucc, Nat.ofDigitChars_ten_toDigits]
      rfl

/-- A finite float is written as a number with a fraction or an exponent, which `float` reads. -/
structure FloatReadable (env : Env) (float : String → PyFloat) (value : ℚ) : Prop where
  numeral : ∃ sign whole fraction exponent, IsNumeral sign whole fraction exponent ∧
    ¬ (fraction.isEmpty ∧ exponent.isEmpty) ∧
    (env.floatRepr value).toList = sign ++ (whole ++ (fraction ++ exponent))
  read : float (env.floatRepr value) = .fin value

variable {env : Env} {float : String → PyFloat}

theorem scanAtom_numeral (h : IsNumeral sign whole fraction exponent) (text : List Char) :
    scanAtom float (sign ++ (whole ++ text)) = scanNumber float (sign ++ (whole ++ text)) := by
  rw [scanAtom, scanLiteral?_numeral h]

theorem scanAtom_int {n : ℤ} (hfit : (Json.int n).intsFit = true) (hrest : EndsNumber rest) :
    scanAtom float (defaultChars env (.int n) ++ rest) = .ok (.int n, rest) := by
  obtain ⟨sign, hsign, htext, hvalue⟩ := intText_eq n
  have hnumeral := isNumeral_toDigits hsign n.natAbs
  have hlength : (Nat.toDigits 10 n.natAbs).length ≤ PyText.maxStrDigits := by
    have hfit : (toString n.natAbs).length ≤ PyText.maxStrDigits := by simpa [Json.intsFit] using hfit
    rwa [Nat.toString_eq_repr, ← String.length_toList, Nat.toList_repr] at hfit
  have hscan := scanNumber_append float hnumeral hrest
  have hchars : defaultChars env (.int n) ++ rest = sign ++ (Nat.toDigits 10 n.natAbs ++ ([] ++ ([] ++ rest))) := by
    rw [defaultChars, htext, List.append_assoc, List.nil_append, List.nil_append]
  rw [hchars, scanAtom_numeral hnumeral, hscan]
  simp only [List.isEmpty_nil, and_self, if_true, if_pos hlength, hvalue]

theorem scanAtom_fin {value : ℚ} (hread : FloatReadable env float value) (hrest : EndsNumber rest) :
    scanAtom float (defaultChars env (.float (.fin value)) ++ rest) = .ok (.float (.fin value), rest) := by
  obtain ⟨sign, whole, fraction, exponent, hnumeral, hmarked, htext⟩ := hread.numeral
  have hscan := scanNumber_append float hnumeral hrest
  have hchars : (env.floatRepr value).toList ++ rest = sign ++ (whole ++ (fraction ++ (exponent ++ rest))) := by
    rw [htext]
    simp only [List.append_assoc]
  have hwritten : String.ofList (sign ++ whole ++ fraction ++ exponent) = env.floatRepr value := by
    rw [List.append_assoc, List.append_assoc, ← htext, String.ofList_toList]
  calc scanAtom float (defaultChars env (.float (.fin value)) ++ rest)
      = scanAtom float ((env.floatRepr value).toList ++ rest) := rfl
    _ = scanNumber float (sign ++ (whole ++ (fraction ++ (exponent ++ rest)))) := by
      rw [hchars, scanAtom_numeral hnumeral]
    _ = .ok (.float (.fin value), rest) := by rw [hscan, if_neg hmarked, hwritten, hread.read]

end JsonText

/-! ## Values -/

open JsonText in
/-- A value as Python holds it: the keys of a dict occur once, and `float` reads what is written of a float. -/
inductive Json.WellFormed (env : Env) (float : String → PyFloat) : Json → Prop
  | null : WellFormed env float .null
  | bool (value : Bool) : WellFormed env float (.bool value)
  | int (value : ℤ) : WellFormed env float (.int value)
  | nan : WellFormed env float (.float .nan)
  | posInf : WellFormed env float (.float .posInf)
  | negInf : WellFormed env float (.float .negInf)
  | fin {value : ℚ} (h : FloatReadable env float value) : WellFormed env float (.float (.fin value))
  | str (text : String) : WellFormed env float (.str text)
  | list {items : List Json} (h : ∀ item ∈ items, WellFormed env float item) : WellFormed env float (.list items)
  | dict {fields : List (String × Json)} (hkeys : (fields.map Prod.fst).Nodup)
      (h : ∀ field ∈ fields, WellFormed env float field.2) : WellFormed env float (.dict fields)

theorem Json.itemsFit_iff (items : List Json) :
    Json.itemsFit items = true ↔ ∀ item ∈ items, item.intsFit = true := by
  induction items with
  | nil => simp [Json.itemsFit]
  | cons item rest ih => simp [Json.itemsFit, ih]

theorem Json.fieldsFit_iff (fields : List (String × Json)) :
    Json.fieldsFit fields = true ↔ ∀ field ∈ fields, field.2.intsFit = true := by
  induction fields with
  | nil => simp [Json.fieldsFit]
  | cons field rest ih => simp [Json.fieldsFit, ih]

namespace JsonText

open Separated Reader

variable {env : Env} {float : String → PyFloat}

theorem ofMembers_of_nodup {fields : List (String × Json)} (h : (fields.map Prod.fst).Nodup) :
    ofMembers fields = .dict fields := by
  rw [ofMembers, Dict.foldl_set (fun _ _ ↦ Dict.get?_empty _) h]
  rfl

/-- Everything that is no text, list or object is read as an atom. -/
theorem scanOnce_atom {c : Char} (hquote : c ≠ '"') (hlist : c ≠ '[') (hdict : c ≠ '{') (fuel : ℕ) (text : List Char) :
    scanOnce float (fuel + 1) (c :: text) = scanAtom float (c :: text) := by
  rw [scanOnce]
  simp only [if_neg hquote, if_neg hlist, if_neg hdict]

/-- How the text of a value starts. -/
structure Opens (c : Char) : Prop where
  space : isSpace c = false
  bracket : c ≠ ']'
  brace : c ≠ '}'

/-- How the text of a number starts. -/
structure OpensNumber (c : Char) : Prop extends Opens c where
  quote : c ≠ '"'
  list : c ≠ '['
  dict : c ≠ '{'

theorem opensNumber_minus : OpensNumber '-' := ⟨⟨rfl, by decide, by decide⟩, by decide, by decide, by decide⟩

theorem opensNumber_digit {c : Char} (h : c.isDigit = true) : OpensNumber c where
  space := by
    have hspaces : ∀ space ∈ [' ', '\t', '\n', '\r'], space ≠ c := by
      simp only [List.forall_mem_cons]
      exact ⟨(isDigit_ne h rfl).symm, (isDigit_ne h rfl).symm, (isDigit_ne h rfl).symm, (isDigit_ne h rfl).symm,
        List.forall_mem_nil _⟩
    rw [isSpace, decide_eq_false_iff_not]
    intro hmem
    exact hspaces c hmem rfl
  bracket := isDigit_ne h rfl
  brace := isDigit_ne h rfl
  quote := isDigit_ne h rfl
  list := isDigit_ne h rfl
  dict := isDigit_ne h rfl

theorem IsNumeral.opens {sign whole fraction exponent : List Char} (h : IsNumeral sign whole fraction exponent)
    (text : List Char) : ∃ c more, sign ++ (whole ++ text) = c :: more ∧ OpensNumber c := by
  obtain ⟨first, more, rfl, hfirst⟩ := h.first_digit
  obtain rfl | rfl := h.sign
  · exact ⟨first, more ++ text, rfl, opensNumber_digit hfirst⟩
  · exact ⟨'-', first :: more ++ text, rfl, opensNumber_minus⟩

theorem intText_opens (n : ℤ) : ∃ c more, defaultChars env (.int n) = c :: more ∧ OpensNumber c := by
  obtain ⟨sign, hsign, htext, -⟩ := intText_eq n
  obtain ⟨c, more, hc, hopens⟩ := (isNumeral_toDigits hsign n.natAbs).opens []
  rw [List.append_nil] at hc
  exact ⟨c, more, htext.trans hc, hopens⟩

theorem floatText_opens {value : ℚ} (h : FloatReadable env float value) :
    ∃ c more, defaultChars env (.float (.fin value)) = c :: more ∧ OpensNumber c := by
  obtain ⟨sign, whole, fraction, exponent, hnumeral, -, htext⟩ := h.numeral
  obtain ⟨c, more, hc, hopens⟩ := hnumeral.opens (fraction ++ exponent)
  exact ⟨c, more, htext.trans hc, hopens⟩

theorem default_opens {value : Json} (h : value.WellFormed env float) :
    ∃ c text, defaultChars env value = c :: text ∧ Opens c := by
  cases h with
  | null => exact ⟨_, _, rfl, rfl, by decide, by decide⟩
  | bool value =>
    cases value with
    | true => exact ⟨_, _, rfl, rfl, by decide, by decide⟩
    | false => exact ⟨_, _, rfl, rfl, by decide, by decide⟩
  | int n =>
    obtain ⟨c, more, htext, hopens⟩ : ∃ c more, defaultChars env (.int n) = c :: more ∧ OpensNumber c := intText_opens n
    exact ⟨c, more, htext, hopens.toOpens⟩
  | nan => exact ⟨_, _, rfl, rfl, by decide, by decide⟩
  | posInf => exact ⟨_, _, rfl, rfl, by decide, by decide⟩
  | negInf => exact ⟨_, _, rfl, rfl, by decide, by decide⟩
  | fin hread =>
    obtain ⟨c, more, htext, hopens⟩ := floatText_opens hread
    exact ⟨c, more, htext, hopens.toOpens⟩
  | str text => exact ⟨_, _, rfl, rfl, by decide, by decide⟩
  | list _ => exact ⟨_, _, rfl, rfl, by decide, by decide⟩
  | dict _ _ => exact ⟨_, _, rfl, rfl, by decide, by decide⟩

theorem skipSpace_opens {c : Char} (h : isSpace c = false) (text : List Char) : skipSpace (c :: text) = c :: text := by
  rw [skipSpace, List.dropWhile_cons, if_neg (by simp [h])]

/-- The text of one member. -/
def memberText (env : Env) (field : String × Json) : List Char :=
  quoteAscii field.1 ++ ':' :: ' ' :: defaultChars env field.2

theorem defaultItems_eq_map (items : List Json) : defaultItems env items = items.map (defaultChars env) := by
  induction items with
  | nil => rfl
  | cons item items ih => rw [defaultItems, ih, List.map_cons]

theorem defaultFields_eq_map (fields : List (String × Json)) :
    defaultFields env fields = fields.map (memberText env) := by
  induction fields with
  | nil => rfl
  | cons field fields ih =>
    rw [defaultFields, ih, List.map_cons]
    rfl

/-- The value of a member is read behind its key, its colon and blanks. -/
theorem scanMember_key (scan : Scan LoadError Char Json) (key : String) (rest : List Char) :
    scanMember scan (quoteAscii key ++ ':' :: rest) =
      (scan (skipSpace rest)).map fun found ↦ ((key, found.1), found.2) := by
  have hcolon : isSpace ':' = false := rfl
  rw [quoteAscii_append, scanMember]
  simp only [List.head?_cons, if_true, List.tail_cons, scanString_escaped, skipSpace_opens hcolon]

/-- A member is read back where its value is. -/
theorem scanMember_reads {scan : Scan LoadError Char Json} {field : String × Json}
    (hvalue : field.2.WellFormed env float)
    (hread : Reads delimiter scan (defaultChars env field.2) field.2) :
    Reads delimiter (scanMember scan) (memberText env field) field := by
  intro rest hrest
  obtain ⟨c, text, htext, hopens⟩ := default_opens hvalue
  have hblank : skipSpace (' ' :: (defaultChars env field.2 ++ rest)) = defaultChars env field.2 ++ rest := by
    rw [htext]
    exact skipSpace_opens hopens.space (text ++ rest)
  rw [memberText, List.append_assoc, List.cons_append, List.cons_append, scanMember_key, hblank, hread rest hrest]
  rfl

/-- A joined part is shorter than the closed list it stands in. -/
theorem length_of_mem_closed {opening closing : Char} {part separator : List Char} {parts : List (List Char)}
    (h : part ∈ parts) {fuel : ℕ} (hfuel : (opening :: separator.intercalate parts ++ [closing]).length ≤ fuel + 1) :
    part.length ≤ fuel := by
  have hpart : part.length ≤ (separator.intercalate parts).length := length_le_intercalate h
  simp only [List.cons_append, List.length_cons, List.length_append, List.length_nil] at hfuel
  omega

theorem fuel_pos {value : Json} (hvalue : value.WellFormed env float) {fuel : ℕ}
    (h : (defaultChars env value).length ≤ fuel) : ∃ n, fuel = n + 1 := by
  obtain ⟨c, text, htext, -⟩ := default_opens hvalue
  rw [htext, List.length_cons] at h
  exact ⟨fuel - 1, by omega⟩

/-- Blanks are dropped in front of a text that opens with something else. -/
theorem skips_text {α : Type} {encode : α → List Char} {item : α} {close : Char} (hclose : isSpace close = false)
    (h : ∃ c text, encode item = c :: text ∧ Opens c) : Skips skipSpace encode ',' close [' '] item where
  sep := skipSpace_opens rfl
  close := skipSpace_opens hclose
  blank rest := by
    obtain ⟨c, text, htext, hopens⟩ := h
    rw [htext]
    exact skipSpace_opens hopens.space (text ++ rest)

theorem opens_text {α : Type} {encode : α → List Char} {item : α} {close : Char}
    (h : ∃ c text, encode item = c :: text ∧ Opens c) (hclose : ∀ {c : Char}, Opens c → c ≠ close) :
    ∃ c text, encode item = c :: text ∧ c ≠ close ∧ ∀ rest, skipSpace (c :: rest) = c :: rest := by
  obtain ⟨c, text, htext, hopens⟩ := h
  exact ⟨c, text, htext, hclose hopens, skipSpace_opens hopens.space⟩

theorem member_opens (field : String × Json) : ∃ c text, memberText env field = c :: text ∧ Opens c :=
  ⟨'"', _, rfl, rfl, by decide, by decide⟩

/-- A value that is no text, list or object is read back when it is read back as an atom. -/
theorem atom_reads {value : Json} {fuel : ℕ}
    (hopens : ∃ c text, defaultChars env value = c :: text ∧ c ≠ '"' ∧ c ≠ '[' ∧ c ≠ '{')
    (hatom : Reads delimiter (scanAtom float) (defaultChars env value) value)
    (hfuel : (defaultChars env value).length ≤ fuel) :
    Reads delimiter (scanOnce float fuel) (defaultChars env value) value := by
  intro rest hrest
  obtain ⟨c, text, htext, hquote, hlist, hdict⟩ := hopens
  have hread := hatom rest hrest
  rw [htext] at hfuel hread ⊢
  obtain ⟨fuel, rfl⟩ : ∃ n, fuel = n + 1 := ⟨fuel - 1, by simp only [List.length_cons] at hfuel; omega⟩
  exact (scanOnce_atom hquote hlist hdict fuel (text ++ rest)).trans hread

/-- Every well-formed value is read back in front of a delimiter. -/
theorem scanOnce_reads {value : Json} (h : value.WellFormed env float) {fuel : ℕ}
    (hfuel : (defaultChars env value).length ≤ fuel) (hfit : value.intsFit = true) :
    Reads delimiter (scanOnce float fuel) (defaultChars env value) value := by
  induction h generalizing fuel with
  | null => exact atom_reads ⟨_, _, rfl, by decide, by decide, by decide⟩ (fun _ _ ↦ rfl) hfuel
  | bool value =>
    cases value with
    | true => exact atom_reads ⟨_, _, rfl, by decide, by decide, by decide⟩ (fun _ _ ↦ rfl) hfuel
    | false => exact atom_reads ⟨_, _, rfl, by decide, by decide, by decide⟩ (fun _ _ ↦ rfl) hfuel
  | int n =>
    obtain ⟨c, more, htext, hopens⟩ : ∃ c more, defaultChars env (.int n) = c :: more ∧ OpensNumber c := intText_opens n
    exact atom_reads ⟨c, more, htext, hopens.quote, hopens.list, hopens.dict⟩ (fun _ ↦ scanAtom_int hfit) hfuel
  | nan => exact atom_reads ⟨_, _, rfl, by decide, by decide, by decide⟩ (fun _ _ ↦ rfl) hfuel
  | posInf => exact atom_reads ⟨_, _, rfl, by decide, by decide, by decide⟩ (fun _ _ ↦ rfl) hfuel
  | negInf => exact atom_reads ⟨_, _, rfl, by decide, by decide, by decide⟩ (fun _ _ ↦ rfl) hfuel
  | fin hread =>
    obtain ⟨c, more, htext, hopens⟩ := floatText_opens hread
    exact atom_reads ⟨c, more, htext, hopens.quote, hopens.list, hopens.dict⟩ (fun _ ↦ scanAtom_fin hread) hfuel
  | str text =>
    intro rest _
    have hvalue : (Json.str text).WellFormed env float := .str text
    obtain ⟨fuel, rfl⟩ := fuel_pos hvalue hfuel
    have htext := scanString_escaped text rest
    rw [defaultChars, quoteAscii_append, scanOnce, if_pos rfl, htext]
    rfl
  | @list items hitems ih =>
    intro rest _
    obtain ⟨fuel, rfl⟩ := fuel_pos (.list hitems) hfuel
    have hfits := (Json.itemsFit_iff items).mp hfit
    rw [defaultChars, defaultItems_eq_map] at hfuel ⊢
    have hreads : ∀ item ∈ items, Reads delimiter (scanOnce float fuel) (defaultChars env item) item := by
      intro item hitem
      have hpart := length_of_mem_closed (List.mem_map_of_mem hitem) hfuel
      exact ih item hitem hpart (hfits item hitem)
    have hclosed := closed_intercalate (.malformed : LoadError) (.inl rfl) (.inr (.inl rfl)) (by decide) hreads
      (fun item hitem ↦ skips_text rfl (default_opens (hitems item hitem))) (fun _ ↦ rfl)
      (fun item hitem ↦ opens_text (default_opens (hitems item hitem)) Opens.bracket) rest
    simp only [List.cons_append, List.append_assoc, List.nil_append, scanOnce]
    rw [if_neg (by decide), if_true, hclosed]
    rfl
  | @dict fields hkeys hfields ih =>
    intro rest _
    obtain ⟨fuel, rfl⟩ := fuel_pos (.dict hkeys hfields) hfuel
    have hfits := (Json.fieldsFit_iff fields).mp hfit
    rw [defaultChars, defaultFields_eq_map] at hfuel ⊢
    have hreads : ∀ field ∈ fields,
        Reads delimiter (scanMember (scanOnce float fuel)) (memberText env field) field := by
      intro field hfield
      have hpart : (memberText env field).length ≤ fuel := length_of_mem_closed (List.mem_map_of_mem hfield) hfuel
      have hvalue : (defaultChars env field.2).length ≤ fuel := by
        simp only [memberText, List.length_append, List.length_cons] at hpart
        omega
      exact scanMember_reads (hfields field hfield) (ih field hfield hvalue (hfits field hfield))
    have hclosed := closed_intercalate (.malformed : LoadError) (.inl rfl) (.inr (.inr rfl)) (by decide) hreads
      (fun field _ ↦ skips_text rfl (member_opens field)) (fun _ ↦ rfl)
      (fun field _ ↦ opens_text (member_opens field) Opens.brace) rest
    simp only [List.cons_append, List.append_assoc, List.nil_append, scanOnce]
    rw [if_neg (by decide), if_neg (by decide), if_true, hclosed]
    exact congrArg (fun value ↦ Except.ok (value, rest)) (ofMembers_of_nodup hkeys)

end JsonText

open JsonText in
/-- What `json.dumps` writes of a value, `json.loads` reads back. -/
theorem jsonLoads_jsonDumps {env : Env} {float : String → PyFloat} {value : Json} (h : value.WellFormed env float)
    {text : String} (hdumps : jsonDumps? env value = .ok text) : jsonLoads float text = .ok value := by
  unfold jsonDumps? at hdumps
  split at hdumps
  · rename_i hfit
    obtain rfl := Except.ok.inj hdumps
    obtain ⟨c, more, htext, hopens⟩ := default_opens h
    have hskip : skipSpace (defaultChars env value) = defaultChars env value := by
      rw [htext]
      exact skipSpace_opens hopens.space more
    have hread := scanOnce_reads h (Nat.le_succ _) hfit [] (Separated.stops_nil _)
    rw [List.append_nil] at hread
    simp only [jsonLoads, jsonDumps, String.toList_ofList, hskip, hread]
    rfl
  · cases hdumps

/-- What is written as bytes is read back from them, and there is at least one byte. -/
theorem jsonOfBytes_jsonBytes {env : Env} {float : String → PyFloat} {value : Json} (h : value.WellFormed env float)
    {data : Bytes} (hdata : jsonBytes? env value = .ok data) : jsonOfBytes float data = .ok value ∧ data ≠ [] := by
  cases hdumps : jsonDumps? env value with
  | error error => simp only [jsonBytes?, hdumps, Except.map, reduceCtorEq] at hdata
  | ok text =>
    simp only [jsonBytes?, hdumps, Except.map, Except.ok.injEq] at hdata
    subst hdata
    have hread := jsonLoads_jsonDumps h hdumps
    refine ⟨by simp only [jsonOfBytes, PyText.decodeUtf8?_encodeUtf8, hread], ?_⟩
    intro hempty
    have hnothing : encodeUtf8 "" = [] := rfl
    obtain rfl := encodeUtf8_injective (hempty.trans hnothing.symm)
    cases hread

end DecisionCore
