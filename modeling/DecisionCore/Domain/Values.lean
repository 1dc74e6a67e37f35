import Mathlib.Data.Rat.Defs
import Mathlib.Data.Sign.Basic
import Mathlib.Data.List.Sort
import Mathlib.Data.List.Dedup
import Mathlib.Data.String.Basic
import Mathlib.Algebra.Order.Ring.Rat
import Mathlib.Tactic.Ring
import Mathlib.Tactic.IntervalCases
import DecisionCore.Lib.Dict

/-!
# Values the service computes with

JSON documents as the handlers receive them, the exceptions the code can raise, floating-point
numbers as exact rationals with the three special values, and byte strings with their hexadecimal
text.  Functions of the standard library and of third-party packages whose code is not in the
repository are the fields of an `Env`.
-/

namespace DecisionCore

/-- The exceptions raised by the modelled functions; `external` stands for an exception of a
dependency and for a cancellation. -/
inductive PyError where
  | keyError (key : String)
  | indexError
  | typeError
  | valueError
  | overflowError
  | validationError
  | external
  deriving DecidableEq, Repr

/-- A computation that does not raise, taken apart at its first step. -/
theorem bind_eq_ok {ε α β : Type} {first : Except ε α} {rest : α → Except ε β} {result : β} :
    (first >>= rest) = .ok result ↔ ∃ value, first = .ok value ∧ rest value = .ok result := by
  cases first <;> simp [bind, Except.bind]

/-- A computation that raises, in its first step or behind it. -/
theorem bind_eq_error {ε α β : Type} {first : Except ε α} {rest : α → Except ε β} {error : ε} :
    (first >>= rest) = .error error ↔
      first = .error error ∨ ∃ value, first = .ok value ∧ rest value = .error error := by
  cases first <;> simp [bind, Except.bind]

theorem map_eq_ok {ε α β : Type} {first : Except ε α} {f : α → β} {result : β} :
    first.map f = .ok result ↔ ∃ value, first = .ok value ∧ f value = result := by
  cases first <;> simp [Except.map]

/-! ## Floating-point numbers -/

/-- A float as the exact rational it stands for, or one of the special values. -/
inductive PyFloat where
  | nan
  | posInf
  | negInf
  | fin (value : ℚ)
  deriving DecidableEq, Repr

namespace PyFloat

/-- Sign of a number, `none` for NaN. -/
def sign : PyFloat → Option SignType
  | nan => none
  | posInf => some 1
  | negInf => some (-1)
  | fin q => some (SignType.sign q)

def neg : PyFloat → PyFloat
  | nan => nan
  | posInf => negInf
  | negInf => posInf
  | fin q => fin (-q)

def add : PyFloat → PyFloat → PyFloat
  | fin a, fin b => fin (a + b)
  | nan, _ => nan
  | _, nan => nan
  | posInf, negInf => nan
  | negInf, posInf => nan
  | posInf, _ => posInf
  | _, posInf => posInf
  | negInf, _ => negInf
  | _, negInf => negInf

def sub (a b : PyFloat) : PyFloat := add a (neg b)

/-- The infinity of a given sign; a zero sign is an undefined product. -/
def infinityOfSign : SignType → PyFloat
  | .pos => posInf
  | .neg => negInf
  | .zero => nan

def mul : PyFloat → PyFloat → PyFloat
  | fin a, fin b => fin (a * b)
  | a, b =>
    match a.sign, b.sign with
    | some s, some t => infinityOfSign (s * t)
    | _, _ => nan

/-- True division by a number that is not zero. -/
def div : PyFloat → PyFloat → PyFloat
  | fin a, fin b => fin (a / b)
  | nan, _ => nan
  | _, nan => nan
  | fin _, _ => fin 0
  | a, fin b =>
    match a.sign with
    | some s => infinityOfSign (s * (if b < 0 then -1 else 1))
    | none => nan
  | _, _ => nan

/-- Ordered comparison, false as soon as one side is NaN. -/
def lt : PyFloat → PyFloat → Bool
  | fin a, fin b => decide (a < b)
  | nan, _ => false
  | _, nan => false
  | negInf, negInf => false
  | negInf, _ => true
  | _, negInf => false
  | posInf, _ => false
  | _, posInf => true

def le : PyFloat → PyFloat → Bool
  | nan, _ => false
  | _, nan => false
  | a, b => !lt b a

/-- Python's `min(a, b)`: the second argument only when it compares strictly smaller. -/
def pyMin (a b : PyFloat) : PyFloat := if lt b a then b else a

/-- Python's `max(a, b)`: the second argument only when it compares strictly larger. -/
def pyMax (a b : PyFloat) : PyFloat := if lt a b then b else a

/-- Truth value of a float: everything but zero, NaN included. -/
def truthy : PyFloat → Bool
  | fin q => decide (q ≠ 0)
  | _ => true

/-- The first integer whose conversion to a double overflows. -/
def overflowBound : ℤ := 2 ^ 1024 - 2 ^ 970

/-- Conversion of an integer operand to a float. -/
def ofInt (n : ℤ) : Except PyError PyFloat :=
  if |n| < overflowBound then .ok (fin n) else .error .overflowError

end PyFloat

/-! ## JSON documents -/

/-- A JSON value as `json.loads` returns it. -/
inductive Json where
  | null
  | bool (value : Bool)
  | int (value : ℤ)
  | float (value : PyFloat)
  | str (value : String)
  | list (items : List Json)
  | dict (fields : List (String × Json))
  deriving Repr

/-- A payload, an event record or a staged proposal: a dict with text keys. -/
abbrev PyDict := Dict String Json

namespace Json

/-- Truth value, as in `if not evidence_refs`. -/
def truthy : Json → Bool
  | null => false
  | bool b => b
  | int n => decide (n ≠ 0)
  | float x => x.truthy
  | str s => decide (s ≠ "")
  | list items => !items.isEmpty
  | dict fields => !fields.isEmpty

def hashable : Json → Bool
  | list _ => false
  | dict _ => false
  | _ => true

/-- Equality with a text. -/
def isStr (text : String) : Json → Bool
  | str s => decide (s = text)
  | _ => false

def asStr? : Json → Option String
  | str s => some s
  | _ => none

/-- A list all of whose items are texts. -/
def asStrList? : Json → Option (List String)
  | list items => items.mapM asStr?
  | _ => none

/-- The texts a `for` loop over the value yields, when it yields texts only: the items of a list,
the characters of a text, the keys of a dict. -/
def iterStrs? : Json → Option (List String)
  | list items => items.mapM asStr?
  | str s => some (s.toList.map fun c ↦ String.ofList [c])
  | dict fields => some (fields.map Prod.fst)
  | _ => none

def ofStrs (texts : List String) : Json := list (texts.map str)

@[simp] theorem isStr_iff (text : String) (value : Json) :
    value.isStr text = true ↔ value = str text := by
  cases value <;> simp [isStr]

instance (value : Json) (text : String) : Decidable (value = str text) :=
  decidable_of_iff _ (isStr_iff text value)

instance (found : Option Json) (text : String) : Decidable (found = some (str text)) :=
  decidable_of_iff (found.any (isStr text) = true) (by cases found <;> simp)

@[simp] theorem asStr?_eq_some (text : String) (value : Json) :
    value.asStr? = some text ↔ value = str text := by
  cases value <;> simp [asStr?]

theorem mapM_asStr?_map_str (texts : List String) : (texts.map str).mapM asStr? = some texts := by
  induction texts with
  | nil => rfl
  | cons text rest ih => simp [asStr?, ih]

@[simp] theorem asStrList?_ofStrs (texts : List String) : (ofStrs texts).asStrList? = some texts :=
  mapM_asStr?_map_str texts

end Json

/-- A hashable value up to Python's key equality (`True`, `1` and `1.0` are one key). -/
inductive PyKey where
  | null
  | num (value : ℚ)
  | special (value : PyFloat)
  | str (value : String)
  deriving DecidableEq, Repr

/-- The key a value is under which in a dict, `none` when it cannot be hashed. -/
def Json.key? : Json → Option PyKey
  | .null => some .null
  | .bool b => some (.num (if b then 1 else 0))
  | .int n => some (.num n)
  | .float (.fin q) => some (.num q)
  | .float x => some (.special x)
  | .str s => some (.str s)
  | .list _ => none
  | .dict _ => none

/-! ## Texts and byte strings -/

/-- Python's `sorted(texts)`, by code points. -/
def sorted (texts : List String) : List String := texts.insertionSort (· ≤ ·)

/-- Python's `sorted(set(texts))`. -/
def sortedSet (texts : List String) : List String := sorted texts.dedup

theorem mem_sorted {text : String} {texts : List String} : text ∈ sorted texts ↔ text ∈ texts :=
  (List.perm_insertionSort _ _).mem_iff

theorem mem_sortedSet {text : String} {texts : List String} :
    text ∈ sortedSet texts ↔ text ∈ texts := by
  rw [sortedSet, mem_sorted, List.mem_dedup]

/-- Texts in another order and with other repetitions give the same set. -/
theorem sortedSet_congr {first second : List String} (h : ∀ text, text ∈ first ↔ text ∈ second) :
    sortedSet first = sortedSet second := by
  have hperm : first.dedup.Perm second.dedup := by
    rw [List.perm_ext_iff_of_nodup (List.nodup_dedup first) (List.nodup_dedup second)]
    intro text
    rw [List.mem_dedup, List.mem_dedup, h]
  have hsorted : (sortedSet first).Perm (sortedSet second) :=
    (List.perm_insertionSort _ _).trans (hperm.trans (List.perm_insertionSort _ _).symm)
  exact hsorted.eq_of_pairwise' (List.pairwise_insertionSort _ _) (List.pairwise_insertionSort _ _)

theorem sorted_ne_nil {texts : List String} (h : texts ≠ []) : sorted texts ≠ [] := by
  obtain ⟨text, hmem⟩ := List.exists_mem_of_ne_nil texts h
  exact List.ne_nil_of_mem (mem_sorted.mpr hmem)

abbrev Bytes := List UInt8

/-- `text.encode("utf-8")`. -/
def encodeUtf8 (text : String) : Bytes := text.toByteArray.data.toList

theorem encodeUtf8_injective : Function.Injective encodeUtf8 := by
  intro first second h
  have hdata : first.toByteArray.data = second.toByteArray.data := Array.toList_inj.mp h
  exact String.toByteArray_inj.mp (ByteArray.ext hdata)

def hexByte (byte : UInt8) : List Char :=
  [Nat.digitChar (byte.toNat / 16), Nat.digitChar (byte.toNat % 16)]

/-- `data.hex()`. -/
def hex (data : Bytes) : String := String.ofList (data.flatMap hexByte)

def hexValue (c : Char) : Option ℕ :=
  if '0' ≤ c ∧ c ≤ '9' then some (c.toNat - '0'.toNat)
  else if 'a' ≤ c ∧ c ≤ 'f' then some (c.toNat - 'a'.toNat + 10)
  else if 'A' ≤ c ∧ c ≤ 'F' then some (c.toNat - 'A'.toNat + 10)
  else none

/-- The whitespace `bytes.fromhex` skips between two bytes. -/
def isHexSpace (c : Char) : Bool := c ∈ [' ', '\t', '\n', '\r', '\x0b', '\x0c']

def fromhexChars : List Char → Option Bytes
  | [] => some []
  | [c] => if isHexSpace c then some [] else none
  | c :: d :: rest =>
    if isHexSpace c then fromhexChars (d :: rest)
    else do
      let high ← hexValue c
      let low ← hexValue d
      let bytes ← fromhexChars rest
      return UInt8.ofNat (16 * high + low) :: bytes

/-- `bytes.fromhex(text)`. -/
def fromhex (text : String) : Option Bytes := fromhexChars text.toList

theorem hexValue_digitChar {n : ℕ} (h : n < 16) : hexValue (Nat.digitChar n) = some n := by
  interval_cases n <;> decide

theorem isHexSpace_digitChar {n : ℕ} (h : n < 16) : isHexSpace (Nat.digitChar n) = false := by
  interval_cases n <;> decide

theorem fromhexChars_hexByte (byte : UInt8) (rest : List Char) :
    fromhexChars (hexByte byte ++ rest) = (fromhexChars rest).map (byte :: ·) := by
  have hlt : byte.toNat < 256 := byte.toNat_lt
  have hhigh : byte.toNat / 16 < 16 := by omega
  have hlow : byte.toNat % 16 < 16 := Nat.mod_lt _ (by decide)
  have hbyte : UInt8.ofNat (16 * (byte.toNat / 16) + byte.toNat % 16) = byte := by
    rw [Nat.div_add_mod, UInt8.ofNat_toNat]
  simp only [hexByte, List.cons_append, List.nil_append, fromhexChars, isHexSpace_digitChar hhigh,
    hexValue_digitChar hhigh, hexValue_digitChar hlow, Bool.false_eq_true, if_false]
  cases fromhexChars rest with
  | none => rfl
  | some bytes => exact congrArg (fun first ↦ some (first :: bytes)) hbyte

/-- Hex decoding undoes hex encoding. -/
@[simp] theorem fromhex_hex (data : Bytes) : fromhex (hex data) = some data := by
  simp only [fromhex, hex, String.toList_ofList]
  induction data with
  | nil => rfl
  | cons byte rest ih => rw [List.flatMap_cons, fromhexChars_hexByte, ih, Option.map_some]

theorem hex_injective : Function.Injective hex := by
  intro first second h
  have hdecode := congrArg fromhex h
  simpa using hdecode

/-! ## Code outside the repository -/

/-- Microseconds since the epoch, the resolution of a `datetime`. -/
abbrev Instant := ℤ

/-- `moment.timestamp()`, in seconds. -/
def timestamp (moment : Instant) : ℚ := moment / 1000000

/-- The functions the repository calls and does not define. -/
structure Env where
  /-- `hashlib.sha256(data).digest()`. -/
  sha256 : Bytes → Bytes
  /-- `Signer.sign` under the configured key. -/
  sign : Bytes → Bytes
  /-- The text of a finite float. -/
  floatRepr : ℚ → String
  /-- `str(value)` of a list or a dict. -/
  containerText : Json → String
  /-- The float a pydantic model reads from a text. -/
  parseFloat : String → Option PyFloat
  /-- `moment.isoformat(timespec="milliseconds")`. -/
  isoformat : Instant → String
  /-- `datetime.fromisoformat(text)`. -/
  fromisoformat : String → Option Instant
  /-- The identifiers `uuid.uuid4()` draws, in the order of the draws. -/
  uuid4 : ℕ → String
  /-- Identifiers drawn at different times differ. -/
  uuid4_injective : Function.Injective uuid4
  /-- Reading a formatted moment gives it back at millisecond precision. -/
  fromisoformat_isoformat : ∀ moment, fromisoformat (isoformat moment) = some (moment - moment % 1000)

/-- The text of a value in an f-string. -/
def Json.format (env : Env) : Json → String
  | .null => "None"
  | .bool true => "True"
  | .bool false => "False"
  | .int n => toString n
  | .float .nan => "nan"
  | .float .posInf => "inf"
  | .float .negInf => "-inf"
  | .float (.fin q) => env.floatRepr q
  | .str text => text
  | value => env.containerText value

/-- SHA-256 digests are 32 bytes long. -/
def Env.DigestSized (env : Env) : Prop := ∀ data, (env.sha256 data).length = 32

/-- `isoformat(timespec="milliseconds")` leaves out what is below a millisecond. -/
def Env.MillisecondTexts (env : Env) : Prop :=
  ∀ moment, env.isoformat (moment - moment % 1000) = env.isoformat moment

/-- The characters of the text of a finite float. -/
def isNumeralChar (c : Char) : Bool := c.isDigit || c ∈ ['+', '-', '.', 'e']

/-- `float.__repr__` on finite floats: different floats have different texts, written with digits,
signs, a point and an exponent mark, and never without both of the latter. -/
structure Env.FloatTexts (env : Env) : Prop where
  injective : Function.Injective env.floatRepr
  numeral : ∀ value, ∀ c ∈ (env.floatRepr value).toList, isNumeralChar c = true
  marked : ∀ value, '.' ∈ (env.floatRepr value).toList ∨ 'e' ∈ (env.floatRepr value).toList

end DecisionCore
