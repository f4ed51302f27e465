import FeatureFlags.Json.Writer
import FeatureFlags.Scalar.Basic
import FeatureFlags.Text.Blank

/-!
# Attributes as scalars

`Scalar.coerce` reads an attribute of a context as a scalar of a given kind. What
cannot be read so is simply not a value of that kind; there is no error.
-/

namespace FeatureFlags.Scalar

/-- Epoch seconds, rounded to milliseconds, as an instant. The product with a thousand is rounded
to a double first; a value beyond the integers of 64 bits is out of range in any case. -/
def instantOfSeconds? (seconds : Double) : Option Instant :=
  let millis := seconds.scaleBy 1000
  if millis.isFinite then Instant.ofMillis? millis.roundToInt else none

/-- A truth value, or one of the words `true` and `false` in any case. -/
def coerceBool : Json → Option Scalar
  | .bool b => some (.bool b)
  | .string s =>
    let word := s.toList.map Char.toLower
    if word = "true".toList then some (.bool true)
    else if word = "false".toList then some (.bool false)
    else none
  | _ => none

/-- A number, or a text of one with blanks around it. -/
def coerceNumber : Json → Option Scalar
  | .number n => some (.number n.toDouble)
  | .string s => (Double.ofText? (Text.trim s.toList)).map .number
  | _ => none

/-- A text, or the text of a number or truth value. -/
def coerceString : Json → Option Scalar
  | .string s => some (.string s)
  | .number n => some (.string (String.ofList n.render))
  | .bool b => some (.string (if b then "true" else "false"))
  | _ => none

/-- A text of an instant, or a number of seconds. -/
def coerceTimestamp : Json → Option Scalar
  | .string s => (Instant.ofText? s).map .timestamp
  | .number n => (instantOfSeconds? n.toDouble).map .timestamp
  | _ => none

/-- A text of a version. -/
def coerceVersion : Json → Option Scalar
  | .string s => (Version.ofText? s).map .version
  | _ => none

/-- An attribute as a scalar of a kind. -/
def coerce (j : Json) : ScalarKind → Option Scalar
  | .bool => coerceBool j
  | .number => coerceNumber j
  | .string => coerceString j
  | .timestamp => coerceTimestamp j
  | .version => coerceVersion j

end FeatureFlags.Scalar
