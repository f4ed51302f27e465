import FeatureFlags.Instant.Text
import FeatureFlags.Text.Blank

/-!
# Loose texts of instants

`Instant.ofLooseText?` reads the timestamps of configurations and reports. Beside the texts of RFC
3339 it takes numbers with fewer digits, years with a sign and any number of digits, blanks around
most parts, the name `UTC` for the offset, and blanks and colons in any number within an offset. The
year has to be in range, where the text is from and in UTC.
-/

namespace FeatureFlags

namespace Instant

open Text.Digits

/-- Blanks that may stand before the next part. -/
def skipBlanks (cs : List Char) : List Char := cs.dropWhile Text.isBlank

/-- A number of at least one and at most so many digits, and what follows it. -/
def readNumber (most : Nat) (cs : List Char) : Option (Nat × List Char) :=
  let digits := (cs.take most).takeWhile Char.isDigit
  if digits = [] then none else some (value digits, cs.drop digits.length)

/-- A year: after a sign any number of digits, else at most four. -/
def readLooseYear (cs : List Char) : Option (Int × List Char) :=
  match skipBlanks cs with
  | '-' :: rest => (readNumber rest.length rest).map fun (year, rest) => (-(year : Int), rest)
  | '+' :: rest => (readNumber rest.length rest).map fun (year, rest) => ((year : Int), rest)
  | cs => (readNumber 4 cs).map fun (year, rest) => ((year : Int), rest)

/-- A part of a date or of a time of day: one or two digits, with blanks before them. -/
def readPart (cs : List Char) : Option (Nat × List Char) := readNumber 2 (skipBlanks cs)

/-- The character between two parts, with blanks before it. -/
def readMark (c : Char) (cs : List Char) : Option (List Char) := readChar c (skipBlanks cs)

/-- Whether a year is one that an instant may be of. -/
def isYearInRange (year : Int) : Bool := -262143 ≤ year && year ≤ 262142

/-- A day of the calendar. -/
def readLooseDate (cs : List Char) : Option (CivilDate × List Char) := do
  let (year, cs) ← readLooseYear cs
  let cs ← readMark '-' cs
  let (month, cs) ← readPart cs
  let cs ← readMark '-' cs
  let (day, cs) ← readPart cs
  let date : CivilDate := { year, month, day }
  if date.isValid && isYearInRange year then some (date, cs) else none

/-- What stands between the hours and the minutes of an offset. -/
def isOffsetMark (c : Char) : Bool := c = ':' || Text.isBlank c

/-- An offset from UTC in seconds: `UTC` in any case, `Z` in either case, or a sign, two digits of
hours and two of minutes. It is of less than a day. -/
def readLooseOffset : List Char → Option (Int × List Char)
  | 'Z' :: rest | 'z' :: rest => some (0, rest)
  | '+' :: rest => readLooseHoursMinutes 1 rest
  | '-' :: rest | '\u2212' :: rest => readLooseHoursMinutes (-1) rest
  | u :: t :: c :: rest =>
    if [u, t, c].map Char.toLower = "utc".toList then some (0, rest) else none
  | _ => none
where
  readLooseHoursMinutes (sign : Int) (cs : List Char) : Option (Int × List Char) := do
    let (hours, cs) ← readDigits 2 cs
    let (minutes, cs) ← readDigits 2 (cs.dropWhile isOffsetMark)
    if hours < 24 ∧ minutes < 60 then some (sign * (hours * 3600 + minutes * 60), cs) else none

/-- The instant a text stands for. Second 60 is a leap second. -/
def ofLooseText? (text : String) : Option Instant := do
  let (date, cs) ← readLooseDate text.toList
  let cs ← readSeparator cs
  let (hour, cs) ← readPart cs
  let cs ← readMark ':' cs
  let (minute, cs) ← readPart cs
  let cs ← readMark ':' cs
  let (second, cs) ← readPart cs
  let (nanos, cs) ← readFraction cs
  let (offset, cs) ← readLooseOffset (skipBlanks cs)
  if hour < 24 ∧ minute < 60 ∧ second ≤ 60 ∧ skipBlanks cs = [] then
    let leap := if second = 60 then 1 else 0
    let ofDay : Int := hour * 3600 + minute * 60 + (second - leap : Nat)
    let seconds := date.toDays * daySeconds + ofDay - offset
    if leastSeconds ≤ seconds ∧ seconds ≤ greatestSeconds then
      some { seconds, nanos := nanos + leap * 1000000000 }
    else none
  else none

end Instant

end FeatureFlags
