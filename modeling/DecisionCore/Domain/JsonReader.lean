import DecisionCore.Lib.Reader
import DecisionCore.Domain.CanonicalText
import DecisionCore.Domain.PyText

/-!
# Reading JSON texts

`json.loads(text)` and what it reads back from the texts of `json.dumps`.  A value ends where its own
text does; blanks may stand around every value, colon and comma; of two members with one key the later
one wins.  `float(text)` of a number with a fraction or an exponent is a parameter.
-/

namespace DecisionCore

namespace JsonText

open Separated Reader

/-- What `json.loads` raises. -/
inductive LoadError where
  /-- `JSONDecodeError`. -/
  | malformed
  /-- The `ValueError` of an integer with too many digits. -/
  | digits
  /-- A surrogate without its partner: a text in Python, but none here. -/
  | surrogate
  deriving DecidableEq, Repr

/-- The blanks around values. -/
def isSpace (c : Char) : Bool := c ∈ [' ', '\t', '\n', '\r']

def skipSpace (text : List Char) : List Char := text.dropWhile isSpace

/-! ## Texts -/

/-- The four digits of a `\u` escape. -/
def scanUnit : List Char → Except LoadError (ℕ × List Char)
  | a :: b :: c :: d :: rest =>
    match hexValue a, hexValue b, hexValue c, hexValue d with
    | some a, some b, some c, some d => .ok (4096 * a + 256 * b + 16 * c + d, rest)
    | _, _, _, _ => .error .malformed
  | _ => .error .malformed

/-- The second half of a pair of surrogates. -/
def scanLow (high : ℕ) : List Char → Except LoadError (Char × List Char)
  | '\\' :: 'u' :: rest =>
    match scanUnit rest with
    | .error error => .error error
    | .ok (low, rest) =>
      if 0xdc00 ≤ low ∧ low < 0xe000 then
        .ok (Char.ofNat (0x10000 + 1024 * (high - 0xd800) + (low - 0xdc00)), rest)
      else .error .surrogate
  | _ => .error .surrogate

/-- The character behind `\u`. -/
def scanCodePoint (text : List Char) : Except LoadError (Char × List Char) :=
  match scanUnit text with
  | .error error => .error error
  | .ok (unit, rest) =>
    if 0xd800 ≤ unit ∧ unit < 0xdc00 then scanLow unit rest
    else if 0xdc00 ≤ unit ∧ unit < 0xe000 then .error .surrogate
    else .ok (Char.ofNat unit, rest)

/-- The escapes of one character. -/
def shortEscape? (c : Char) : Option Char :=
  if c = '"' ∨ c = '\\' ∨ c = '/' then some c
  else if c = 'b' then some '\x08'
  else if c = 'f' then some '\x0c'
  else if c = 'n' then some '\n'
  else if c = 'r' then some '\r'
  else if c = 't' then some '\t'
  else none

/-- The character behind a backslash. -/
def scanEscape : List Char → Except LoadError (Char × List Char)
  | [] => .error .malformed
  | c :: rest =>
    if c = 'u' then scanCodePoint rest
    else match shortEscape? c with
      | some d => .ok (d, rest)
      | none => .error .malformed

/-- One character of a quoted text; control characters stand there only escaped. -/
def scanChar : List Char → Except LoadError (Char × List Char)
  | [] => .error .malformed
  | c :: rest =>
    if c = '\\' then scanEscape rest
    else if c.toNat < 32 then .error .malformed
    else .ok (c, rest)

/-- The characters up to the closing quote, each for one unit of fuel. -/
def scanChars : ℕ → List Char → Except LoadError (List Char × List Char)
  | 0, _ => .error .malformed
  | fuel + 1, text =>
    if text.head? = some '"' then .ok ([], text.tail)
    else
      match scanChar text with
      | .error error => .error error
      | .ok (c, rest) => (scanChars fuel rest).map fun found ↦ (c :: found.1, found.2)

/-- A text behind its opening quote. -/
def scanString (text : List Char) : Except LoadError (String × List Char) :=
  (scanChars text.length text).map fun found ↦ (String.ofList found.1, found.2)

/-! ## Literals and numbers -/

def literals : List (String × Json) :=
  [("null", .null), ("true", .bool true), ("false", .bool false), ("NaN", .float .nan),
    ("Infinity", .float .posInf), ("-Infinity", .float .negInf)]

/-- A literal at the front of a text. -/
def scanLiteral? (text : List Char) : Option (Json × List Char) :=
  (literals.find? fun literal ↦ literal.1.toList.isPrefixOf text).map fun literal ↦
    (literal.2, text.drop literal.1.toList.length)

def spanDigits (text : List Char) : List Char × List Char :=
  (text.takeWhile Char.isDigit, text.dropWhile Char.isDigit)

def scanSign : List Char → List Char × List Char
  | '-' :: rest => (['-'], rest)
  | text => ([], text)

/-- The digits in front of a point: a zero alone, or no zero first. -/
def scanWhole : List Char → List Char × List Char
  | '0' :: rest => (['0'], rest)
  | text => spanDigits text

/-- A point with digits behind it. -/
def scanFraction (text : List Char) : List Char × List Char :=
  match text with
  | '.' :: rest =>
    if (spanDigits rest).1.isEmpty then ([], text) else ('.' :: (spanDigits rest).1, (spanDigits rest).2)
  | _ => ([], text)

/-- The sign of an exponent. -/
def scanExponentSign : List Char → List Char × List Char
  | '+' :: rest => (['+'], rest)
  | '-' :: rest => (['-'], rest)
  | text => ([], text)

/-- An exponent mark with digits behind it. -/
def scanExponent (text : List Char) : List Char × List Char :=
  match text with
  | mark :: rest =>
    let signed := scanExponentSign rest
    let digits := spanDigits signed.2
    if (mark = 'e' ∨ mark = 'E') ∧ ¬ digits.1.isEmpty then (mark :: signed.1 ++ digits.1, digits.2) else ([], text)
  | [] => ([], text)

variable (float : String → PyFloat)

/-- The integer of a sign and digits. -/
def signedNumber (sign digits : List Char) : ℤ :=
  if sign.isEmpty then Nat.ofDigitChars 10 digits 0 else -(Nat.ofDigitChars 10 digits 0 : ℤ)

def scanNumber (text : List Char) : Except LoadError (Json × List Char) :=
  let sign := scanSign text
  let whole := scanWhole sign.2
  let fraction := scanFraction whole.2
  let exponent := scanExponent fraction.2
  if whole.1.isEmpty then .error .malformed
  else if fraction.1.isEmpty ∧ exponent.1.isEmpty then
    if whole.1.length ≤ PyText.maxStrDigits then .ok (.int (signedNumber sign.1 whole.1), exponent.2)
    else .error .digits
  else .ok (.float (float (String.ofList (sign.1 ++ whole.1 ++ fraction.1 ++ exponent.1))), exponent.2)

def scanAtom (text : List Char) : Except LoadError (Json × List Char) :=
  match scanLiteral? text with
  | some found => .ok found
  | none => scanNumber float text

/-! ## Values -/

/-- One member `"key": value`. -/
def scanMember (scan : Scan LoadError Char Json) : Scan LoadError Char (String × Json) := fun text ↦
  if text.head? = some '"' then
    match scanString text.tail with
    | .error error => .error error
    | .ok (key, rest) =>
      let rest := skipSpace rest
      if rest.head? = some ':' then (scan (skipSpace rest.tail)).map fun found ↦ ((key, found.1), found.2)
      else .error .malformed
  else .error .malformed

/-- A dict built from its members one after the other. -/
def ofMembers (members : List (String × Json)) : Json :=
  .dict (members.foldl (fun (dict : PyDict) field ↦ dict.set field.1 field.2) .empty).entries

/-- `scan_once`, with one unit of fuel for every level of nesting. -/
def scanOnce : ℕ → Scan LoadError Char Json
  | 0, _ => .error .malformed
  | fuel + 1, text =>
    match text with
    | [] => .error .malformed
    | c :: rest =>
      if c = '"' then (scanString rest).map fun found ↦ (.str found.1, found.2)
      else if c = '[' then (closed (scanOnce fuel) skipSpace ',' ']' .malformed rest).map fun found ↦
        (.list found.1, found.2)
      else if c = '{' then
        (closed (scanMember (scanOnce fuel)) skipSpace ',' '}' .malformed rest).map fun found ↦
          (ofMembers found.1, found.2)
      else scanAtom float (c :: rest)

end JsonText

/-! ## What is written -/

mutual

/-- No integer has more digits than `str(n)` writes. -/
def Json.intsFit : Json → Bool
  | .int n => decide ((toString n.natAbs).length ≤ PyText.maxStrDigits)
  | .list items => Json.itemsFit items
  | .dict fields => Json.fieldsFit fields
  | _ => true

def Json.itemsFit : List Json → Bool
  | [] => true
  | item :: rest => item.intsFit && Json.itemsFit rest

def Json.fieldsFit : List (String × Json) → Bool
  | [] => true
  | (_, value) :: rest => value.intsFit && Json.fieldsFit rest

end

/-- `json.dumps(value)`, with the `ValueError` of an integer that is too long. -/
def jsonDumps? (env : Env) (value : Json) : Except PyError String :=
  if value.intsFit then .ok (jsonDumps env value) else .error .valueError

open JsonText in
/-- `json.loads(text)`; the nesting is at most as deep as the text is long. -/
def jsonLoads (float : String → PyFloat) (text : String) : Except LoadError Json :=
  match scanOnce float (text.toList.length + 1) (skipSpace text.toList) with
  | .error error => .error error
  | .ok (value, rest) => if (skipSpace rest).isEmpty then .ok value else .error .malformed

/-- `json.dumps(value).encode("utf-8")`. -/
def jsonBytes? (env : Env) (value : Json) : Except PyError Bytes := (jsonDumps? env value).map encodeUtf8

/-- `json.loads(data.decode("utf-8"))`; both errors of decoding are a `ValueError`. -/
def jsonOfBytes (float : String → PyFloat) (data : Bytes) : Except PyError Json :=
  match PyText.decodeUtf8? data with
  | none => .error .valueError
  | some text =>
    match jsonLoads float text with
    | .ok value => .ok value
    | .error _ => .error .valueError

end DecisionCore
