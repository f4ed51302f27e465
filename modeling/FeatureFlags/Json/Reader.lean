import FeatureFlags.Json.Basic
import FeatureFlags.Text.Hex
import FeatureFlags.Text.Utf8

/-!
# Reading JSON

`Json.ofText?` reads a text strictly, and `Json.ofBytes?` the text that bytes carry:
nothing but blanks around the value, no trailing commas, no comments. Anything that
is well formed but has no value (`Json.unreadable`) is kept in its place, so that
whoever wants the tree around it decides whether it matters. A byte that belongs to
no character is well formed inside a string literal, and nowhere else.

The readers of nested values recurse on `fuel`, a bound on the number of steps
that the length of the text provides, and count down `room`, the number of
levels that may still be opened.
-/

namespace FeatureFlags.Json

open Text (Decoded)

/-- The blanks of JSON. -/
def isBlank (c : Char) : Bool := c = ' ' || c = '\t' || c = '\n' || c = '\r'

/-- The text behind the blanks at its front. -/
def skipBlanks (cs : Decoded) : Decoded := cs.dropWhile (·.any isBlank)

/-! ## Strings -/

/-- The number that four hexadecimal digits stand for. -/
def codeUnit? (a b c d : Char) : Option Nat := do
  return (← Text.Hex.digit? a) * 4096 + (← Text.Hex.digit? b) * 256 +
    (← Text.Hex.digit? c) * 16 + (← Text.Hex.digit? d)

/-- The character behind a backslash, escapes with a number apart. -/
def unescape? : Char → Option Char
  | '"' => some '"'
  | '\\' => some '\\'
  | '/' => some '/'
  | 'b' => some '\x08'
  | 'f' => some '\x0c'
  | 'n' => some '\n'
  | 'r' => some '\r'
  | 't' => some '\t'
  | _ => none

/-- The part of a string literal that has been read. -/
structure StringState where
  /-- The characters so far, last first. -/
  read : List Char
  /-- The first half of a surrogate pair whose second half has to come next. -/
  half : Option Nat
  /-- No half of a pair has been left alone, and no byte without a character has been met. -/
  sound : Bool

namespace StringState

/-- Nothing read yet. -/
def start : StringState := { read := [], half := none, sound := true }

/-- A character that is no half of a pair. -/
def push (s : StringState) (c : Char) : StringState :=
  { read := c :: s.read, half := none, sound := s.sound && s.half.isNone }

/-- A number that an escape gives: a character, or half of a pair. -/
def pushUnit (s : StringState) (n : Nat) : StringState :=
  if 0xD800 ≤ n ∧ n < 0xDC00 then
    { s with half := some n, sound := s.sound && s.half.isNone }
  else if 0xDC00 ≤ n ∧ n < 0xE000 then
    match s.half with
    | some high =>
      { s with read := Char.ofNat (0x10000 + (high - 0xD800) * 0x400 + (n - 0xDC00)) :: s.read,
               half := none }
    | none => { s with sound := false }
  else s.push (Char.ofNat n)

/-- A byte that belongs to no character. -/
def spoil (s : StringState) : StringState := { s with sound := false }

/-- The string, if all of it could be read. -/
def finish (s : StringState) : Option String :=
  if s.sound && s.half.isNone then some (String.ofList s.read.reverse) else none

end StringState

/-- The rest of a string literal behind its opening quote: the string, if it has a value, and the
text behind the closing quote. -/
def readString (s : StringState) : Decoded → Option (Option String × Decoded)
  | [] => none
  | some '"' :: rest => some (s.finish, rest)
  | some '\\' :: some 'u' :: some a :: some b :: some c :: some d :: rest =>
    match codeUnit? a b c d with
    | some n => readString (s.pushUnit n) rest
    | none => none
  | some '\\' :: some c :: rest =>
    match unescape? c with
    | some c => readString (s.push c) rest
    | none => none
  | some '\\' :: _ => none
  | some c :: rest => if c.toNat < 0x20 then none else readString (s.push c) rest
  | none :: rest => readString s.spoil rest

/-! ## Numbers -/

/-- The digits at the front of a text, and the text behind them. -/
def readDigits : Decoded → List Char × Decoded
  | some c :: rest =>
    if c.isDigit then
      let (digits, rest) := readDigits rest
      (c :: digits, rest)
    else ([], some c :: rest)
  | cs => ([], cs)

/-- The digits of a fraction: none without a point, at least one with it. -/
def readFraction (cs : Decoded) : Option (Option (List Char) × Decoded) :=
  match cs with
  | some '.' :: rest =>
    let (digits, rest) := readDigits rest
    if digits = [] then none else some (some digits, rest)
  | _ => some (none, cs)

/-- An exponent: none without its letter, at least one digit with it. -/
def readExponent (cs : Decoded) : Option (Option Int × Decoded) :=
  let signed (negative : Bool) (cs : Decoded) : Option (Option Int × Decoded) :=
    let (digits, rest) := readDigits cs
    if digits = [] then none
    else
      let n : Int := Nat.ofDigitChars 10 digits 0
      some (some (if negative then -n else n), rest)
  match cs with
  | some 'e' :: some '-' :: rest | some 'E' :: some '-' :: rest => signed true rest
  | some 'e' :: some '+' :: rest | some 'E' :: some '+' :: rest => signed false rest
  | some 'e' :: rest | some 'E' :: rest => signed false rest
  | _ => some (none, cs)

/-- The number with the given sign, digits, fraction and exponent. Without fraction and exponent it
is whole where it is in range, except that `-0` is a double. -/
def numberOf (negative : Bool) (whole : List Char) (fraction : Option (List Char))
    (exponent : Option Int) : Json :=
  let double (digits : Nat) (e : Int) : Json :=
    let d := Double.ofDecimal negative digits e
    if d.isFinite then .number (.double d) else .unreadable
  match fraction, exponent with
  | none, none =>
    let n := Nat.ofDigitChars 10 whole 0
    let signed : Int := if negative then -n else n
    if (negative && n == 0) || !JsonNumber.inRange signed then double n 0
    else .number (.integer signed)
  | _, _ =>
    let digits := fraction.getD []
    double (Nat.ofDigitChars 10 (whole ++ digits) 0) (exponent.getD 0 - digits.length)

/-- An unsigned number: digits without leading zeros, then fraction and exponent. -/
def readUnsigned (negative : Bool) (cs : Decoded) : Option (Json × Decoded) :=
  let (whole, rest) := readDigits cs
  if whole = [] ∨ (whole.head? = some '0' ∧ 1 < whole.length) then none
  else do
    let (fraction, rest) ← readFraction rest
    let (exponent, rest) ← readExponent rest
    return (numberOf negative whole fraction exponent, rest)

/-- A number. -/
def readNumber (cs : Decoded) : Option (Json × Decoded) :=
  match cs with
  | some '-' :: rest => readUnsigned true rest
  | _ => readUnsigned false cs

/-! ## Values -/

/-- How many arrays and objects may be open at once. -/
def maxLevels : Nat := 127

mutual

/-- A value and the text behind it. -/
def readValue : (fuel : Nat) → (room : Nat) → Decoded → Option (Json × Decoded)
  | 0, _, _ => none
  | fuel + 1, room, cs =>
    match skipBlanks cs with
    | some 'n' :: some 'u' :: some 'l' :: some 'l' :: rest => some (.null, rest)
    | some 't' :: some 'r' :: some 'u' :: some 'e' :: rest => some (.bool true, rest)
    | some 'f' :: some 'a' :: some 'l' :: some 's' :: some 'e' :: rest => some (.bool false, rest)
    | some '"' :: rest =>
      match readString .start rest with
      | some (some s, rest) => some (.string s, rest)
      | some (none, rest) => some (.unreadable, rest)
      | none => none
    | some '[' :: rest =>
      match skipBlanks rest with
      | some ']' :: rest => some (if room = 0 then .unreadable else .array [], rest)
      | rest =>
        match readItems fuel (room - 1) rest with
        | some (items, rest) => some (if room = 0 then .unreadable else .array items, rest)
        | none => none
    | some '{' :: rest =>
      match skipBlanks rest with
      | some '}' :: rest => some (if room = 0 then .unreadable else .object [], rest)
      | rest =>
        match readFields fuel (room - 1) rest with
        | some (some fields, rest) =>
          some (if room = 0 then .unreadable else .object fields, rest)
        | some (none, rest) => some (.unreadable, rest)
        | none => none
    | rest => readNumber rest

/-- At least one item, up to and including the closing bracket. -/
def readItems : (fuel : Nat) → (room : Nat) → Decoded → Option (List Json × Decoded)
  | 0, _, _ => none
  | fuel + 1, room, cs =>
    match readValue fuel room cs with
    | none => none
    | some (j, rest) =>
      match skipBlanks rest with
      | some ',' :: rest =>
        match readItems fuel room rest with
        | some (items, rest) => some (j :: items, rest)
        | none => none
      | some ']' :: rest => some ([j], rest)
      | _ => none

/-- At least one field, up to and including the closing brace. The fields have no value if one of
the keys has none. -/
def readFields : (fuel : Nat) → (room : Nat) → Decoded →
    Option (Option (List (String × Json)) × Decoded)
  | 0, _, _ => none
  | fuel + 1, room, cs =>
    match skipBlanks cs with
    | some '"' :: rest =>
      match readString .start rest with
      | none => none
      | some (key, rest) =>
        match skipBlanks rest with
        | some ':' :: rest =>
          match readValue fuel room rest with
          | none => none
          | some (j, rest) =>
            match skipBlanks rest with
            | some ',' :: rest =>
              match readFields fuel room rest with
              | none => none
              | some (fields, rest) =>
                some (do return (← key, j) :: (← fields), rest)
            | some '}' :: rest => some (key.map fun key => [(key, j)], rest)
            | _ => none
        | _ => none
    | _ => none

end

/-- The tree that is said, with nothing but blanks around it. -/
def ofDecoded? (cs : Decoded) : Option Json :=
  match readValue (2 * cs.length + 2) maxLevels cs with
  | some (j, rest) => if skipBlanks rest = [] then some j else none
  | none => none

/-- The tree a text says. -/
def ofText? (text : String) : Option Json := ofDecoded? (text.toList.map some)

/-- The tree that the text in some bytes says. -/
def ofBytes? (bytes : List UInt8) : Option Json := ofDecoded? (Text.Utf8.decode bytes)

/-- Reading the bytes of a text is reading the text. -/
theorem ofBytes?_encode (text : String) : ofBytes? (Text.Utf8.encode text) = ofText? text := by
  rw [ofBytes?, Text.Utf8.decode_encode, ofText?]

end FeatureFlags.Json
