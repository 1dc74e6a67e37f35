import DecisionCore.Infrastructure.Der

/-!
# GeneralizedTime

The conversion of a time text of a TSA to ISO 8601: the pattern of the supported texts, the calendar
checks of `datetime`, and its `isoformat`.
-/

namespace DecisionCore.Rfc3161

open PyText

/-! ## The pattern -/

def isDigit (c : Char) : Bool := '0' ≤ c ∧ c ≤ '9'

/-- `int(digits)`. -/
def digitsValue (digits : List Char) : ℕ := digits.foldl (fun n c ↦ 10 * n + (c.toNat - '0'.toNat)) 0

/-- The groups of `_GENERALIZED_TIME_RE`; the offset of `Z` is absent, any other has a sign. -/
structure TimeGroups where
  year : ℕ
  month : ℕ
  day : ℕ
  hour : ℕ
  minute : ℕ
  second : ℕ
  frac : List Char
  offset : Option (Bool × ℕ × ℕ)
  deriving DecidableEq

/-- `$`, which also matches before a final line feed. -/
def atEnd (chars : List Char) : Bool := chars = [] ∨ chars = ['\n']

/-- The group `(Z|[+-]\d{4})` and the end of the text. -/
def matchOffset? : List Char → Option (Option (Bool × ℕ × ℕ))
  | 'Z' :: rest => if atEnd rest then some none else none
  | sign :: h1 :: h2 :: m1 :: m2 :: rest =>
    if (sign = '+' ∨ sign = '-') ∧ [h1, h2, m1, m2].all isDigit ∧ atEnd rest then
      some (some (sign = '+', digitsValue [h1, h2], digitsValue [m1, m2]))
    else none
  | _ => none

/-- The group `(?:\.(\d+))?` and the text behind it. -/
def matchFrac? : List Char → Option (List Char × List Char)
  | '.' :: rest =>
    let frac := rest.takeWhile isDigit
    if frac = [] then none else some (frac, rest.dropWhile isDigit)
  | rest => some ([], rest)

/-- `_GENERALIZED_TIME_RE.match(gt)` on ASCII texts. -/
def matchTime? (gt : String) : Option TimeGroups :=
  let digits := gt.toList.take 14
  if digits.length = 14 ∧ digits.all isDigit then do
    let (frac, rest) ← matchFrac? (gt.toList.drop 14)
    let offset ← matchOffset? rest
    let group (start length : ℕ) := digitsValue ((digits.drop start).take length)
    return { year := group 0 4, month := group 4 2, day := group 6 2, hour := group 8 2,
             minute := group 10 2, second := group 12 2, frac, offset }
  else none

/-! ## Moments of the calendar -/

def isLeap (year : ℕ) : Bool := year % 4 = 0 ∧ (year % 100 ≠ 0 ∨ year % 400 = 0)

def daysInMonth (year month : ℕ) : ℕ :=
  if month = 2 then (if isLeap year then 29 else 28)
  else if month = 4 ∨ month = 6 ∨ month = 9 ∨ month = 11 then 30
  else 31

/-- An aware `datetime` with an offset in whole minutes. -/
structure DateTime where
  year : ℕ
  month : ℕ
  day : ℕ
  hour : ℕ
  minute : ℕ
  second : ℕ
  microsecond : ℕ
  offset : ℤ
  year_range : 1 ≤ year ∧ year ≤ 9999
  month_range : 1 ≤ month ∧ month ≤ 12
  day_range : 1 ≤ day ∧ day ≤ daysInMonth year month
  time_range : hour < 24 ∧ minute < 60 ∧ second < 60 ∧ microsecond < 1000000
  offset_range : |offset| < 24 * 60

/-- `int((frac or "0")[:6].ljust(6, "0"))`. -/
def TimeGroups.microsecond (groups : TimeGroups) : ℕ :=
  let frac := groups.frac.take 6
  digitsValue (frac ++ List.replicate (6 - frac.length) '0')

/-- The offset from UTC in minutes. -/
def TimeGroups.minutes (groups : TimeGroups) : ℤ :=
  match groups.offset with
  | none => 0
  | some (positive, hours, minutes) => (if positive then 1 else -1) * (60 * hours + minutes)

/-- `dt.timezone(…)` and `dt.datetime(…)` on the groups. -/
def TimeGroups.datetime (groups : TimeGroups) : Except Error DateTime :=
  if h : (1 ≤ groups.year ∧ groups.year ≤ 9999) ∧ (1 ≤ groups.month ∧ groups.month ≤ 12) ∧
      (1 ≤ groups.day ∧ groups.day ≤ daysInMonth groups.year groups.month) ∧
      (groups.hour < 24 ∧ groups.minute < 60 ∧ groups.second < 60 ∧ groups.microsecond < 1000000) ∧
      |groups.minutes| < 24 * 60 then
    .ok { year := groups.year, month := groups.month, day := groups.day, hour := groups.hour,
          minute := groups.minute, second := groups.second, microsecond := groups.microsecond,
          offset := groups.minutes, year_range := h.1, month_range := h.2.1, day_range := h.2.2.1,
          time_range := h.2.2.2.1, offset_range := h.2.2.2.2 }
  else .error (.valueError none)

/-! ## ISO texts -/

/-- The last digits of a number, as many as the width. -/
def padded : ℕ → ℕ → List Char
  | 0, _ => []
  | width + 1, n => padded width (n / 10) ++ [Nat.digitChar (n % 10)]

/-- `moment.isoformat()`. -/
def DateTime.isoformat (moment : DateTime) : String :=
  String.ofList (padded 4 moment.year ++ '-' :: padded 2 moment.month ++ '-' :: padded 2 moment.day ++
    'T' :: padded 2 moment.hour ++ ':' :: padded 2 moment.minute ++ ':' :: padded 2 moment.second ++
    (if moment.microsecond = 0 then [] else '.' :: padded 6 moment.microsecond) ++
    (if moment.offset < 0 then '-' else '+') :: padded 2 (moment.offset.natAbs / 60) ++
    ':' :: padded 2 (moment.offset.natAbs % 60))

/-- `generalized_time_to_iso(gt)`. -/
def generalizedTimeToIso (gt : String) : Except Error String :=
  match matchTime? gt with
  | none => .error (.derError ("unsupported GeneralizedTime format: " ++ reprText gt))
  | some groups => groups.datetime.map DateTime.isoformat

example : (generalizedTimeToIso "20260923102030Z").toOption = some "2026-09-23T10:20:30+00:00" := by
  decide +kernel

end DecisionCore.Rfc3161
