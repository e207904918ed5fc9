import FieldGeometry.Format.Decode

/-!
# Moments

Dates with a time of day and without a time zone, in the proleptic Gregorian calendar. They are one
choice for the dates that values carry, written as a list of six numbers.
-/

namespace FieldGeometry

/-- A year with a day more. -/
def isLeapYear (year : Int) : Bool :=
  year % 4 == 0 && (year % 100 != 0 || year % 400 == 0)

def daysInYear (year : Int) : Nat :=
  if isLeapYear year then 366 else 365

/-- A day of a year and a time of that day. -/
structure Moment where
  /-- The year, which may be negative. -/
  year : Int
  /-- The day of the year, the first being `1`. -/
  day : Nat
  hour : Nat
  minute : Nat
  second : Nat
  nanosecond : Nat
  year_bounds : -9999 ≤ year ∧ year ≤ 9999
  day_bounds : 1 ≤ day ∧ day ≤ daysInYear year
  time_bounds : hour < 24 ∧ minute < 60 ∧ second < 60 ∧ nanosecond < 1000000000
deriving DecidableEq

namespace Moment

/-- The moment with given parts, if the calendar and the clock have it. -/
def ofParts? (year : Int) (day hour minute second nanosecond : Nat) : Option Moment :=
  if hy : -9999 ≤ year ∧ year ≤ 9999 then
    if hd : 1 ≤ day ∧ day ≤ daysInYear year then
      if ht : hour < 24 ∧ minute < 60 ∧ second < 60 ∧ nanosecond < 1000000000 then
        some ⟨year, day, hour, minute, second, nanosecond, hy, hd, ht⟩
      else none
    else none
  else none

variable {α : Type}

/-- A moment as a list of its parts, the largest unit first. -/
def encode (m : Moment) : Datum α :=
  .list [.int m.year, .int m.day, .int m.hour, .int m.minute, .int m.second, .int m.nanosecond]

/-- A moment from a list of its six parts. -/
def decode? : Datum α → Option Moment
  | .list [year, day, hour, minute, second, nanosecond] => do
    ofParts? (← year.int?) (← day.count?) (← hour.count?) (← minute.count?) (← second.count?)
      (← nanosecond.count?)
  | _ => none

end Moment

end FieldGeometry
