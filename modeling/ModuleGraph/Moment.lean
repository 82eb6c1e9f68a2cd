import ModuleGraph.Json.Basic
import ModuleGraph.Text.Affix
/-!
# Moments

Points in time to the microsecond, with the offset from universal time that they are written with.
A moment is read from a text of the form `2024-01-01T00:00:00.5+02:00`, or from a number of seconds
since the beginning of 1970; a number above 20 000 000 000 counts milliseconds.
-/

namespace ModuleGraph

/-- A point in time: microseconds since the beginning of 1970, and an offset in minutes. -/
structure Moment where
  micros : Int
  offset : Int
  deriving DecidableEq, Repr, Inhabited

/-- Microseconds in a second. -/
def second : Int := 1000000

namespace Moment

/-! ## The calendar -/

/-- The day number of a date; the first day of 1970 has the number zero. Years are taken to begin
in March, so that a leap day comes last. -/
def dayNumber (year month day : Int) : Int :=
  let y := if month ≤ 2 then year - 1 else year
  let m := if month ≤ 2 then month + 9 else month - 3
  let yearOfEra := y - y / 400 * 400
  let dayOfYear := (153 * m + 2) / 5 + day - 1
  y / 400 * 146097 + yearOfEra * 365 + yearOfEra / 4 - yearOfEra / 100 + dayOfYear - 719468

/-- The year, month and day of a day number. -/
def dateOf (number : Int) : Int × Int × Int :=
  let z := number + 719468
  let dayOfEra := z - z / 146097 * 146097
  let yearOfEra := (dayOfEra - dayOfEra / 1460 + dayOfEra / 36524 - dayOfEra / 146096) / 365
  let dayOfYear := dayOfEra - (365 * yearOfEra + yearOfEra / 4 - yearOfEra / 100)
  let m := (5 * dayOfYear + 2) / 153
  let day := dayOfYear - (153 * m + 2) / 5 + 1
  let month := if m < 10 then m + 3 else m - 9
  (yearOfEra + z / 146097 * 400 + if month ≤ 2 then 1 else 0, month, day)

/-- The number of days of a month. -/
def monthLength (year month : Nat) : Nat :=
  if month = 2 then if year % 4 = 0 ∧ (year % 100 ≠ 0 ∨ year % 400 = 0) then 29 else 28
  else if month = 4 ∨ month = 6 ∨ month = 9 ∨ month = 11 then 30 else 31

/-! ## Writing -/

/-- `n` with zeros in front, up to `width` digits. -/
def padded (width : Nat) (n : Int) : String :=
  let s := toString n
  String.ofList (List.replicate (width - s.length) '0') ++ s

/-- The offset of a moment: `Z` for none. -/
def offsetText (offset : Int) : String :=
  if offset = 0 then "Z"
  else
    let n : Int := offset.natAbs
    (if offset < 0 then "-" else "+") ++ padded 2 (n / 60) ++ ":" ++ padded 2 (n % 60)

/-- The text of a moment; a fraction of a second has six digits and is left out if it is zero. -/
def toText (m : Moment) : String :=
  let here := m.micros + m.offset * 60 * second
  let seconds := here / second
  let fraction := here % second
  let (year, month, day) := dateOf (seconds / 86400)
  let t := seconds % 86400
  padded 4 year ++ "-" ++ padded 2 month ++ "-" ++ padded 2 day ++ "T" ++ padded 2 (t / 3600) ++
    ":" ++ padded 2 (t / 60 % 60) ++ ":" ++ padded 2 (t % 60) ++
    (if fraction = 0 then "" else "." ++ padded 6 fraction) ++ offsetText m.offset

/-! ## Reading -/

/-- Why a value is no moment. -/
inductive Problem where
  /-- The value is of a kind that never is one. -/
  | wrongKind
  /-- The number is out of range. -/
  | outOfRange
  /-- The text is malformed. -/
  | malformed
  /-- The text has no offset. -/
  | noOffset
  deriving DecidableEq, Repr

/-- The name of a problem. -/
def Problem.name : Problem → String
  | wrongKind => "datetime_type"
  | outOfRange => "datetime_parsing"
  | malformed => "datetime_from_date_parsing"
  | noOffset => "timezone_aware"

/-- The number that a list of digits is. -/
def natOf (cs : List Char) : Nat := cs.foldl (fun n c => n * 10 + (c.toNat - 48)) 0

/-- The number of exactly `width` digits at the head of the list, and the rest. -/
def number? (width : Nat) (cs : List Char) : Option (Nat × List Char) :=
  let ds := cs.take width
  if ds.length = width && ds.all Char.isDigit then some (natOf ds, cs.drop width) else none

/-- The list without one of these characters at its head. -/
def mark? (marks : List Char) : List Char → Option (List Char)
  | c :: r => if marks.contains c then some r else none
  | [] => none

/-- The day number of the date at the head of the list, and the rest. -/
def date? (cs : List Char) : Option (Int × List Char) := do
  let (year, r) ← number? 4 cs
  let (month, r) ← number? 2 (← mark? ['-'] r)
  let (day, r) ← number? 2 (← mark? ['-'] r)
  if 1 ≤ year ∧ 1 ≤ month ∧ month ≤ 12 ∧ 1 ≤ day ∧ day ≤ monthLength year month then
    return (dayNumber year month day, r)
  failure

/-- The microseconds of a fraction of a second; digits after the sixth are dropped. -/
def fractionOf (ds : List Char) : Nat := natOf ((ds ++ List.replicate 6 '0').take 6)

/-- The seconds and the fraction at the head of the list, both of which may be left out. -/
def seconds? (cs : List Char) : Option (Int × List Char) :=
  match mark? [':'] cs with
  | none => some (0, cs)
  | some r => do
    let (s, r) ← number? 2 r
    if 59 < s then failure
    match mark? ['.', ','] r with
    | none => return (s * second, r)
    | some r =>
      let ds := r.takeWhile Char.isDigit
      if ds.isEmpty then failure
      return (s * second + fractionOf ds, r.dropWhile Char.isDigit)

/-- The microseconds of the time of day at the head of the list, and the rest. -/
def time? (cs : List Char) : Option (Int × List Char) := do
  let (hour, r) ← number? 2 cs
  let (minute, r) ← number? 2 (← mark? [':'] r)
  if 23 < hour ∨ 59 < minute then failure
  let (rest, r) ← seconds? r
  return ((hour * 3600 + minute * 60) * second + rest, r)

/-- The offset that the list states, in minutes; nothing if the list is empty. -/
def offset? (cs : List Char) : Option (Option Int) :=
  match cs with
  | [] => some none
  | ['Z'] | ['z'] => some (some 0)
  | c :: r => do
    let sign : Int ← if c = '+' then some 1 else if c = '-' ∨ c.toNat = 0x2212 then some (-1) else none
    let (hours, r) ← number? 2 r
    let (minutes, r) ← number? 2 ((mark? [':'] r).getD r)
    if !r.isEmpty || 59 < minutes || 24 ≤ hours then failure
    return some (sign * (hours * 60 + minutes))

/-- The moment that a written date and time name. -/
def ofWritten? (cs : List Char) : Option (Except Problem Moment) := do
  let (day, r) ← date? cs
  if r.isEmpty then return .error .noOffset
  let (time, r) ← time? (← mark? ['T', 't', ' ', '_'] r)
  match ← offset? r with
  | none => return .error .noOffset
  | some offset => return .ok ⟨day * 86400 * second + time - offset * 60 * second, offset⟩

/-- Above this number, milliseconds are counted and not seconds. -/
def millisecondsAbove : Nat := 20000000000

/-- The moment that a number names: its whole part, and microseconds on top. -/
def ofNumber (whole micros : Int) : Except Problem Moment :=
  let base := if millisecondsAbove < whole.natAbs then whole * 1000 else whole * second
  let total := base + micros
  if dayNumber 1600 1 1 * 86400 * second ≤ total ∧ total < dayNumber 10000 1 1 * 86400 * second then
    .ok ⟨total, 0⟩
  else .error .outOfRange

/-- The moment that a decimal names. Its whole part is the next whole number below. -/
def ofDecimal (d : Decimal) : Except Problem Moment :=
  let unit := d.denominator
  let size := d.numerator
  let value : Int := if d.negative then -size else size
  let fraction := (2 * (size % unit) * 1000000 + unit) / (2 * unit)
  ofNumber (value / unit) fraction

/-- The number that a text states: digits with an optional sign, and an optional fraction. -/
def decimalOf? (cs : List Char) : Option Decimal :=
  let (negative, cs) := match cs with
    | '-' :: r => (true, r)
    | '+' :: r => (false, r)
    | r => (false, r)
  let whole := cs.takeWhile Char.isDigit
  match cs.dropWhile Char.isDigit with
  | [] => if whole.isEmpty then none else some ⟨negative, natOf whole, 0⟩
  | '.' :: r =>
    if r.all Char.isDigit && !(whole ++ r).isEmpty then
      some ⟨negative, natOf (whole ++ r), -(r.length : Int)⟩
    else none
  | _ => none

/-- The moment that a text names. -/
def ofText (s : String) : Except Problem Moment :=
  match ofWritten? s.toList with
  | some r => r
  | none =>
    match decimalOf? s.toList with
    | some d => (ofDecimal d).mapError fun _ => .malformed
    | none => .error .malformed

/-- The moment that a value names. -/
def ofJson : Json → Except Problem Moment
  | .str s => ofText s
  | .int n => ofNumber n 0
  | .decimal d => ofDecimal d
  | .nan | .infinity _ => .error .outOfRange
  | _ => .error .wrongKind

end Moment

end ModuleGraph
