import Conditions.Number.Shortest

/-!
# Instants

An instant is a count of microseconds since the beginning of 1970, universal time. It is shown as a
date and a time of day in the calendar that has always had its present leap years, from the year 1
to the year 9999.
-/

set_option autoImplicit false

namespace Conditions.Journal

structure Instant where
  micros : Int
  deriving DecidableEq, Repr, Inhabited

namespace Instant

/-- The fraction `num / den` below one in microseconds. The product with a million is rounded as a
binary fraction first, then to the nearest whole number, halves to even. -/
def microsOfFraction (num den : Nat) : Nat :=
  let (n, d) := Binary64.ratio (Binary64.codeOfRatio (num * 1000000) den)
  Binary64.roundDiv n d

def ofSeconds (x : Binary64) : Instant :=
  let (num, den) := Binary64.ratio x.code
  let micros := num / den * 1000000 + microsOfFraction (num % den) den
  ⟨if x.negative then -(micros : Int) else micros⟩

def day (t : Instant) : Int := t.micros / 86400000000

def microsOfDay (t : Instant) : Nat := (t.micros % 86400000000).toNat

def date (t : Instant) : Int × Nat × Nat :=
  let shifted := t.day + 719468
  let era := shifted / 146097
  let dayOfEra := (shifted % 146097).toNat
  let yearOfEra := (dayOfEra - dayOfEra / 1460 + dayOfEra / 36524 - dayOfEra / 146096) / 365
  let dayOfYear := dayOfEra - (365 * yearOfEra + yearOfEra / 4 - yearOfEra / 100)
  let monthFromMarch := (5 * dayOfYear + 2) / 153
  let month := if monthFromMarch < 10 then monthFromMarch + 3 else monthFromMarch - 9
  let year := era * 400 + yearOfEra + (if month ≤ 2 then 1 else 0)
  (year, month, dayOfYear - (153 * monthFromMarch + 2) / 5 + 1)

def padded (width n : Nat) : String :=
  String.ofList (Number.padLeft width '0' (Number.natText n))

def seconds (t : Instant) : String :=
  let (year, month, day) := t.date
  let s := t.microsOfDay / 1000000
  s!"{padded 4 year.toNat}-{padded 2 month}-{padded 2 day}T" ++
    s!"{padded 2 (s / 3600)}:{padded 2 (s / 60 % 60)}:{padded 2 (s % 60)}"

def short (t : Instant) : String := t.seconds ++ "+0000"

def precise (t : Instant) : String :=
  let micros := t.microsOfDay % 1000000
  t.seconds ++ (if micros = 0 then "" else "." ++ padded 6 micros) ++ "+00:00"

def inCalendar (t : Instant) : Bool := 1 ≤ t.date.1 && t.date.1 ≤ 9999

end Instant

inductive InstantFault where
  | notANumber
  | tooManySeconds
  | tooManyYears
  | noYear (year : Int)
  deriving DecidableEq, Repr

def InstantFault.message : InstantFault → String
  | .notANumber => "Invalid value NaN (not a number)"
  | .tooManySeconds => "timestamp out of range for platform time_t"
  | .tooManyYears => "[Errno 75] Value too large for defined data type"
  | .noYear year => s!"year {year} is out of range"

def Instant.inCalendar? (t : Instant) : Except InstantFault Instant :=
  let year := t.date.1
  if t.inCalendar then .ok t
  else if year - 1900 < -2147483648 || 2147483647 < year - 1900 then .error .tooManyYears
  else .error (.noYear (year.bmod 4294967296))

def Instant.ofSeconds? (x : Binary64) : Except InstantFault Instant :=
  if x.isNan then .error .notANumber
  else if x.code = Binary64.infinityCode then .error .tooManySeconds
  else
    let t := ofSeconds x
    if pow2 63 * 1000000 < t.micros.natAbs then .error .tooManySeconds else t.inCalendar?

end Conditions.Journal
