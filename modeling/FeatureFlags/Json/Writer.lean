import FeatureFlags.Decimal.Layout
import FeatureFlags.Json.Basic

/-!
# Writing JSON

`Json.render` writes a tree without blanks and with its fields in the order they
are listed. Only quotes, backslashes and control characters are escaped.
-/

namespace FeatureFlags

namespace JsonNumber

/-- Doubles in JSON: an exponent outside 10^-5 to 10^15, and a point in every text without one, so
that a double never reads back as a whole number. -/
def layout : Layout where
  tie := .even
  isPlain k := -5 ≤ k ∧ k ≤ 15
  keepsPoint := true

/-- The digits of a whole number behind its sign. -/
def renderInt (n : Int) : List Char :=
  if n < 0 then '-' :: Nat.toDigits 10 n.natAbs else Nat.toDigits 10 n.natAbs

/-- The text of a number; doubles that are not finite have none and are written `null`. -/
def render : JsonNumber → List Char
  | .integer n => renderInt n
  | .double d => if d.isFinite then layout.render d else "null".toList

end JsonNumber

namespace Json

/-- A character inside a string literal. -/
def escape (c : Char) : List Char :=
  match c with
  | '"' => ['\\', '"']
  | '\\' => ['\\', '\\']
  | '\x08' => ['\\', 'b']
  | '\x0c' => ['\\', 'f']
  | '\n' => ['\\', 'n']
  | '\r' => ['\\', 'r']
  | '\t' => ['\\', 't']
  | c =>
    if c.toNat < 0x20 then
      ['\\', 'u', '0', '0', (c.toNat / 16).digitChar, (c.toNat % 16).digitChar]
    else [c]

/-- A string literal. -/
def renderString (s : String) : List Char := '"' :: s.toList.flatMap escape ++ ['"']

mutual

/-- The text of a tree. -/
def render : Json → List Char
  | .null | .unreadable => "null".toList
  | .bool true => "true".toList
  | .bool false => "false".toList
  | .number n => n.render
  | .string s => renderString s
  | .array items => '[' :: renderItems items ++ [']']
  | .object fields => '{' :: renderFields fields ++ ['}']

/-- Items with commas between them. -/
def renderItems : List Json → List Char
  | [] => []
  | [j] => render j
  | j :: next :: rest => render j ++ ',' :: renderItems (next :: rest)

/-- Fields with commas between them. -/
def renderFields : List (String × Json) → List Char
  | [] => []
  | [(key, j)] => renderString key ++ ':' :: render j
  | (key, j) :: next :: rest =>
    renderString key ++ ':' :: render j ++ ',' :: renderFields (next :: rest)

end

/-- The text of a tree. -/
def toText (j : Json) : String := String.ofList j.render

end Json

end FeatureFlags
