import Conditions.Number.Shortest

/-!
# Dates and times

A moment is a day, or a day with a time of day and perhaps an offset from universal time. It has a
plain text, and a longer one that it has as a part of something else.
-/

set_option autoImplicit false

namespace Conditions.Yaml
open Number (natText padLeft)

structure Clock where
  hour : Nat
  minute : Nat
  second : Nat
  micros : Nat
  offset : Option Int
  deriving DecidableEq, Repr, Inhabited

structure Moment where
  year : Nat
  month : Nat
  day : Nat
  clock : Option Clock
  deriving DecidableEq, Repr, Inhabited

inductive MomentFault where
  | year (got : Nat)
  | month
  | day
  | hour
  | minute
  | second
  | offset (minutes : Int)
  deriving DecidableEq, Repr

def isLeap (year : Nat) : Bool := year % 4 == 0 && (year % 100 != 0 || year % 400 == 0)

def daysOfMonth (year month : Nat) : Nat :=
  if month = 2 then (if isLeap year then 29 else 28)
  else if month = 4 || month = 6 || month = 9 || month = 11 then 30
  else 31

namespace Clock

def checkOffset (c : Clock) : Except MomentFault Unit :=
  match c.offset with
  | some minutes => if 1440 ≤ minutes.natAbs then throw (.offset minutes) else pure ()
  | none => pure ()

def check (c : Clock) : Except MomentFault Unit := do
  if 23 < c.hour then throw .hour
  if 59 < c.minute then throw .minute
  if 59 < c.second then throw .second

def two (n : Nat) : String := String.ofList (padLeft 2 '0' (natText n))

def offsetText (minutes : Int) : String :=
  let sign := if minutes < 0 then "-" else "+"
  s!"{sign}{two (minutes.natAbs / 60)}:{two (minutes.natAbs % 60)}"

def text (c : Clock) : String :=
  let micros := if c.micros = 0 then "" else "." ++ String.ofList (padLeft 6 '0' (natText c.micros))
  s!"{two c.hour}:{two c.minute}:{two c.second}{micros}" ++ (c.offset.map offsetText).getD ""

def span (minutes : Int) : String :=
  let days := minutes / 1440
  let seconds := minutes % 1440 * 60
  let parts := (if days = 0 then [] else [s!"days={days}"]) ++
    (if seconds = 0 then [] else [s!"seconds={seconds}"])
  let list := ", ".intercalate parts
  s!"datetime.timedelta({list})"

def zone (minutes : Int) : String :=
  if minutes = 0 then "datetime.timezone.utc" else s!"datetime.timezone({span minutes})"

def fields (c : Clock) : List String :=
  let numbers := if c.micros != 0 then [c.hour, c.minute, c.second, c.micros]
    else if c.second != 0 then [c.hour, c.minute, c.second]
    else [c.hour, c.minute]
  numbers.map toString ++ (c.offset.map fun minutes => [s!"tzinfo={zone minutes}"]).getD []

end Clock

def MomentFault.message : MomentFault → String
  | .year got => s!"year {got} is out of range"
  | .month => "month must be in 1..12"
  | .day => "day is out of range for month"
  | .hour => "hour must be in 0..23"
  | .minute => "minute must be in 0..59"
  | .second => "second must be in 0..59"
  | .offset minutes =>
    "offset must be a timedelta strictly between -timedelta(hours=24) and " ++
      s!"timedelta(hours=24), not {Clock.span minutes}."

namespace Moment

def check (m : Moment) : Except MomentFault Moment := do
  m.clock.forM Clock.checkOffset
  if m.year = 0 then throw (.year m.year)
  if m.month = 0 || 12 < m.month then throw .month
  if m.day = 0 || daysOfMonth m.year m.month < m.day then throw .day
  m.clock.forM Clock.check
  pure m

def days (m : Moment) : Nat :=
  let years := m.year - 1
  let months := (List.range (m.month - 1)).map fun month => daysOfMonth m.year (month + 1)
  years * 365 + years / 4 - years / 100 + years / 400 + months.foldl Nat.add 0 + m.day

def micros (m : Moment) (c : Clock) : Int :=
  let minutes : Int := (m.days * 24 + c.hour) * 60 + c.minute
  ((minutes - c.offset.getD 0) * 60 + c.second) * 1000000 + c.micros

def same (m n : Moment) : Bool :=
  match m.clock, n.clock with
  | some c, some d => c.offset.isSome == d.offset.isSome && m.micros c == n.micros d
  | none, none => m == n
  | _, _ => false

def text (m : Moment) : String :=
  let year := String.ofList (padLeft 4 '0' (natText m.year))
  let date := s!"{year}-{Clock.two m.month}-{Clock.two m.day}"
  match m.clock with
  | none => date
  | some c => s!"{date} {c.text}"

def quoted (m : Moment) : String :=
  let kind := if m.clock.isSome then "datetime" else "date"
  let numbers := [m.year, m.month, m.day].map toString ++ (m.clock.map Clock.fields).getD []
  let list := ", ".intercalate numbers
  s!"datetime.{kind}({list})"

end Moment

end Conditions.Yaml
