import FeatureFlags.Text.Digits
import FeatureFlags.Text.Utf8

/-!
# Configuration

The limits of resolving and the secret of the tokens, with their defaults and the
names of the settings that change them.
-/

namespace FeatureFlags

/-- Limits and secrets. -/
structure Config where
  /-- The greatest number of flags that a request may name. -/
  maxFlags : Nat
  /-- The greatest length of a unit's name, in characters. -/
  maxUnitLength : Nat
  /-- How often records are loaded for a resolve before it is given up. -/
  maxRounds : Nat
  /-- The secret of the tokens. -/
  secret : List UInt8
  deriving DecidableEq, Repr

namespace Config

/-- The secret of tokens that need no protection. -/
def developmentSecret : String := "flag-resolver-dev-secret-do-not-use"

/-- The values that hold where nothing is set. -/
def default : Config :=
  { maxFlags := 200, maxUnitLength := 100, maxRounds := 3
    secret := Text.Utf8.encode developmentSecret }

/-- A setting of 64 bits: digits, with an optional plus sign in front. -/
def number? (text : String) : Option Nat := Text.Digits.unsigned? (Nat.pow 2 64) text.toList

/-- The configuration under the given settings. A number that cannot be read counts as not set. -/
def ofSettings (setting? : String → Option String) : Config :=
  let number (name : String) (fallback : Nat) : Nat := ((setting? name).bind number?).getD fallback
  { maxFlags := number "RESOLVER_MAX_FLAGS" default.maxFlags
    maxUnitLength := number "RESOLVER_MAX_TARGETING_KEY_LEN" default.maxUnitLength
    maxRounds := number "RESOLVER_MAX_MATERIALIZATION_ROUNDS" default.maxRounds
    secret := ((setting? "RESOLVER_TOKEN_SECRET").map Text.Utf8.encode).getD default.secret }

end Config

end FeatureFlags
