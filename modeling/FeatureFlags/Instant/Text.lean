import FeatureFlags.Instant.Basic
import FeatureFlags.Text.Digits

/-!
# RFC 3339 texts of instants

- `Instant.ofText?` reads a date, a time of day and an offset from UTC.
- `Instant.render` writes an instant in UTC, with as few digits of the second's
  fraction as give it exactly: none, three, six or nine.
-/

namespace FeatureFlags

namespace Instant

/-! ## Reading -/

/-- Exactly `width` digits, and what follows them. -/
def readDigits (width : Nat) (cs : List Char) : Option (Nat × List Char) :=
  let digits := cs.take width
  if digits.length = width ∧ digits.all Char.isDigit then
    some (Text.Digits.value digits, cs.drop width)
  else none

/-- The character `c`, and what follows it. -/
def readChar (c : Char) : List Char → Option (List Char)
  | [] => none
  | d :: rest => if d = c then some rest else none

/-- A day of the calendar as `YYYY-MM-DD`. -/
def readDate (cs : List Char) : Option (CivilDate × List Char) := do
  let (year, cs) ← readDigits 4 cs
  let cs ← readChar '-' cs
  let (month, cs) ← readDigits 2 cs
  let cs ← readChar '-' cs
  let (day, cs) ← readDigits 2 cs
  let date : CivilDate := { year, month, day }
  if date.isValid then some (date, cs) else none

/-- What stands between date and time: `T` in either case or one blank. -/
def readSeparator : List Char → Option (List Char)
  | 'T' :: rest | 't' :: rest | ' ' :: rest => some rest
  | _ => none

/-- A fraction of a second in nanoseconds: a point and at least one digit, of which nine count. -/
def readFraction : List Char → Option (Nat × List Char)
  | '.' :: rest =>
    let digits := rest.takeWhile Char.isDigit
    if digits = [] then none
    else
      let counted := digits.take 9
      some (Text.Digits.value counted * Nat.pow 10 (9 - counted.length), rest.dropWhile Char.isDigit)
  | rest => some (0, rest)

/-- An offset from UTC in seconds: `Z` in either case, or a sign, hours and minutes. The sign may
be a minus sign proper. -/
def readOffset : List Char → Option (Int × List Char)
  | 'Z' :: rest | 'z' :: rest => some (0, rest)
  | '+' :: rest => readHoursMinutes 1 rest
  | '-' :: rest | '\u2212' :: rest => readHoursMinutes (-1) rest
  | _ => none
where
  /-- Hours below 24 and minutes below 60. -/
  readHoursMinutes (sign : Int) (cs : List Char) : Option (Int × List Char) := do
    let (hours, cs) ← readDigits 2 cs
    let cs ← readChar ':' cs
    let (minutes, cs) ← readDigits 2 cs
    if hours < 24 ∧ minutes < 60 then some (sign * (hours * 3600 + minutes * 60), cs) else none

/-- The instant a text stands for. Second 60 is a leap second. -/
def ofText? (text : String) : Option Instant := do
  let (date, cs) ← readDate text.toList
  let cs ← readSeparator cs
  let (hour, cs) ← readDigits 2 cs
  let cs ← readChar ':' cs
  let (minute, cs) ← readDigits 2 cs
  let cs ← readChar ':' cs
  let (second, cs) ← readDigits 2 cs
  let (nanos, cs) ← readFraction cs
  let (offset, cs) ← readOffset cs
  if hour < 24 ∧ minute < 60 ∧ second ≤ 60 ∧ cs = [] then
    let leap := if second = 60 then 1 else 0
    let ofDay : Int := hour * 3600 + minute * 60 + (second - leap : Nat)
    some
      { seconds := date.toDays * daySeconds + ofDay - offset
        nanos := nanos + leap * 1000000000 }
  else none

/-! ## Writing -/

/-- A year: four digits up to 9999, else a sign and at least four digits. -/
def renderYear (year : Int) : List Char :=
  if 0 ≤ year ∧ year ≤ 9999 then Text.Digits.padded 4 year.toNat
  else (if year < 0 then '-' else '+') :: Text.Digits.padded 4 year.natAbs

/-- The fraction of a second. -/
def renderFraction (nanos : Nat) : List Char :=
  if nanos = 0 then []
  else if nanos % 1000000 = 0 then '.' :: Text.Digits.padded 3 (nanos / 1000000)
  else if nanos % 1000 = 0 then '.' :: Text.Digits.padded 6 (nanos / 1000)
  else '.' :: Text.Digits.padded 9 nanos

/-- The text of an instant in UTC, up to its offset. -/
def renderLocal (t : Instant) : List Char :=
  let date := CivilDate.ofDays (t.seconds / daySeconds)
  let ofDay := (t.seconds % daySeconds).toNat
  let leap := if 1000000000 ≤ t.nanos then 1 else 0
  renderYear date.year ++ '-' :: Text.Digits.padded 2 date.month ++
    '-' :: Text.Digits.padded 2 date.day ++
    'T' :: Text.Digits.padded 2 (ofDay / 3600) ++
    ':' :: Text.Digits.padded 2 (ofDay / 60 % 60) ++
    ':' :: Text.Digits.padded 2 (ofDay % 60 + leap) ++
    renderFraction (t.nanos - leap * 1000000000)

/-- The text of an instant with the letter `Z` for its offset. -/
def toText (t : Instant) : String := String.ofList (t.renderLocal ++ ['Z'])

/-- The text of an instant with its offset in digits. -/
def display (t : Instant) : String := String.ofList (t.renderLocal ++ "+00:00".toList)

end Instant

end FeatureFlags
