/-!
# Instants

- `CivilDate`: a day of the Gregorian calendar, extended to all years.
- `CivilDate.toDays`, `CivilDate.ofDays`: its number, counted from 1 January 1970.
- `Instant`: a point in UTC. A leap second is the second `59` of its minute with
  more than 10^9 nanoseconds, so it sorts behind that second and before the next
  minute.
-/

namespace FeatureFlags

/-- A day of the Gregorian calendar. -/
structure CivilDate where
  /-- The year; the year before 1 is 0. -/
  year : Int
  /-- The month, from 1 to 12. -/
  month : Nat
  /-- The day of the month, from 1. -/
  day : Nat
  deriving DecidableEq, Repr

namespace CivilDate

/-- Whether the year has a 29 February. -/
def isLeap (year : Int) : Bool := year % 4 = 0 && (year % 100 ≠ 0 || year % 400 = 0)

/-- The number of days of a month. -/
def daysInMonth (year : Int) (month : Nat) : Nat :=
  match month with
  | 2 => if isLeap year then 29 else 28
  | 4 | 6 | 9 | 11 => 30
  | _ => 31

/-- Whether the calendar has such a day. -/
def isValid (d : CivilDate) : Bool :=
  1 ≤ d.month && d.month ≤ 12 && 1 ≤ d.day && d.day ≤ daysInMonth d.year d.month

/-- The number of a day, 1 January 1970 being zero. Years are counted from March, so that the leap
day is the last of its year, and in eras of 400 years of 146097 days each. -/
def toDays (d : CivilDate) : Int :=
  let year := if d.month ≤ 2 then d.year - 1 else d.year
  let era := year / 400
  let yearOfEra := year - era * 400
  let monthFromMarch : Int := (d.month + 9) % 12
  let dayOfYear := (153 * monthFromMarch + 2) / 5 + d.day - 1
  let dayOfEra := yearOfEra * 365 + yearOfEra / 4 - yearOfEra / 100 + dayOfYear
  era * 146097 + dayOfEra - 719468

/-- The day with a number. -/
def ofDays (n : Int) : CivilDate :=
  let z := n + 719468
  let era := z / 146097
  let dayOfEra := z - era * 146097
  let yearOfEra := (dayOfEra - dayOfEra / 1460 + dayOfEra / 36524 - dayOfEra / 146096) / 365
  let dayOfYear := dayOfEra - (365 * yearOfEra + yearOfEra / 4 - yearOfEra / 100)
  let monthFromMarch := (5 * dayOfYear + 2) / 153
  let day := dayOfYear - (153 * monthFromMarch + 2) / 5 + 1
  let month := if monthFromMarch < 10 then monthFromMarch + 3 else monthFromMarch - 9
  let year := yearOfEra + era * 400
  { year := if month ≤ 2 then year + 1 else year, month := month.toNat, day := day.toNat }

end CivilDate

/-- A point in UTC. -/
structure Instant where
  /-- Seconds since 1 January 1970, leap seconds not counted. -/
  seconds : Int
  /-- Nanoseconds into the second; from 10^9 on they lie in a leap second behind it. -/
  nanos : Nat
  deriving DecidableEq, Repr

namespace Instant

/-- The order in time. -/
def compare (a b : Instant) : Ordering :=
  (Ord.compare a.seconds b.seconds).then (Ord.compare a.nanos b.nanos)

/-- Seconds in a day. -/
def daySeconds : Int := 86400

/-- The first second that an instant made from a number may have. -/
def leastSeconds : Int := ({ year := -262143, month := 1, day := 1 : CivilDate }).toDays * daySeconds

/-- The last second that an instant made from a number may have. -/
def greatestSeconds : Int :=
  ({ year := 262142, month := 12, day := 31 : CivilDate }).toDays * daySeconds + 86399

/-- The instant so many milliseconds after 1 January 1970, if its year is in range. -/
def ofMillis? (millis : Int) : Option Instant :=
  let seconds := millis / 1000
  if leastSeconds ≤ seconds ∧ seconds ≤ greatestSeconds then
    some { seconds, nanos := (millis % 1000).toNat * 1000000 }
  else none

end Instant

end FeatureFlags
