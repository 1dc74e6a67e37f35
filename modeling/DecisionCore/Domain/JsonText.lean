import DecisionCore.Domain.Values

/-!
# Canonical JSON text

`json.dumps(value, sort_keys=True, separators=(",", ":"), ensure_ascii=False)`: the members of an
object in the order of their keys, no blanks, and only quotes, backslashes and control characters
escaped.
-/

namespace DecisionCore.JsonText

/-- Four lowercase hexadecimal digits. -/
def hex4 (n : ℕ) : List Char :=
  [Nat.digitChar (n / 4096 % 16), Nat.digitChar (n / 256 % 16), Nat.digitChar (n / 16 % 16),
    Nat.digitChar (n % 16)]

def escapeChar (c : Char) : List Char :=
  if c = '"' then ['\\', '"']
  else if c = '\\' then ['\\', '\\']
  else if c = '\n' then ['\\', 'n']
  else if c = '\r' then ['\\', 'r']
  else if c = '\t' then ['\\', 't']
  else if c = '\x0c' then ['\\', 'f']
  else if c = '\x08' then ['\\', 'b']
  else if c.toNat < 32 then '\\' :: 'u' :: hex4 c.toNat
  else [c]

def quote (text : String) : List Char := '"' :: text.toList.flatMap escapeChar ++ ['"']

def floatText (env : Env) : PyFloat → List Char
  | .nan => "NaN".toList
  | .posInf => "Infinity".toList
  | .negInf => "-Infinity".toList
  | .fin q => (env.floatRepr q).toList

/-- `",".join(parts)` on character lists. -/
def commaJoin (parts : List (List Char)) : List Char := [','].intercalate parts

/-- One member `"key":value` of an object. -/
def member (field : String × List Char) : List Char := quote field.1 ++ ':' :: field.2

/-- Members in the order of their keys. -/
def sortMembers (fields : List (String × List Char)) : List (String × List Char) :=
  fields.insertionSort fun first second ↦ first.1 ≤ second.1

mutual

def dumpsChars (env : Env) : Json → List Char
  | .null => "null".toList
  | .bool true => "true".toList
  | .bool false => "false".toList
  | .int n => (toString n).toList
  | .float x => floatText env x
  | .str text => quote text
  | .list items => '[' :: commaJoin (dumpsItems env items) ++ [']']
  | .dict fields => '{' :: commaJoin ((sortMembers (dumpsFields env fields)).map member) ++ ['}']

def dumpsItems (env : Env) : List Json → List (List Char)
  | [] => []
  | item :: rest => dumpsChars env item :: dumpsItems env rest

def dumpsFields (env : Env) : List (String × Json) → List (String × List Char)
  | [] => []
  | (key, value) :: rest => (key, dumpsChars env value) :: dumpsFields env rest

end

/-! ## Texts of default options

`json.dumps(value)`: members in their own order, blanks behind the separators, and every character
outside of printable ASCII escaped, those beyond the basic plane as two surrogates.
-/

/-- `\uXXXX` of a code unit. -/
def escapeUnit (n : ℕ) : List Char := '\\' :: 'u' :: hex4 n

def escapeAscii (c : Char) : List Char :=
  if c = '"' ∨ c = '\\' ∨ c.toNat < 32 then escapeChar c
  else if c.toNat < 127 then [c]
  else if c.toNat < 0x10000 then escapeUnit c.toNat
  else
    let v := c.toNat - 0x10000
    escapeUnit (0xd800 + v / 1024) ++ escapeUnit (0xdc00 + v % 1024)

def quoteAscii (text : String) : List Char := '"' :: text.toList.flatMap escapeAscii ++ ['"']

mutual

def defaultChars (env : Env) : Json → List Char
  | .null => "null".toList
  | .bool true => "true".toList
  | .bool false => "false".toList
  | .int n => (toString n).toList
  | .float x => floatText env x
  | .str text => quoteAscii text
  | .list items => '[' :: [',', ' '].intercalate (defaultItems env items) ++ [']']
  | .dict fields => '{' :: [',', ' '].intercalate (defaultFields env fields) ++ ['}']

def defaultItems (env : Env) : List Json → List (List Char)
  | [] => []
  | item :: rest => defaultChars env item :: defaultItems env rest

def defaultFields (env : Env) : List (String × Json) → List (List Char)
  | [] => []
  | (key, value) :: rest => (quoteAscii key ++ ':' :: ' ' :: defaultChars env value) :: defaultFields env rest

end

end DecisionCore.JsonText

namespace DecisionCore

/-- `canonical_json(value)`. -/
def canonicalJson (env : Env) (value : Json) : String := String.ofList (JsonText.dumpsChars env value)

/-- `json.dumps(value)`. -/
def jsonDumps (env : Env) (value : Json) : String := String.ofList (JsonText.defaultChars env value)

end DecisionCore
