import FeatureFlags.Digest.Murmur
import FeatureFlags.Text.Utf8

/-!
# Buckets

Every unit falls into one bucket of a bucket space, by a digest of its name and a
salt. The choice is part of what clients rely on: the same unit, salt and number
of buckets give the same bucket everywhere.
-/

namespace FeatureFlags.Bucket

/-- The number of buckets that populations of segments are drawn from. -/
def standardCount : Nat := 1000000

/-- The digest of a unit: sixty bits of the hash of salt and name. -/
def digest (unit salt : String) : Nat :=
  ((Digest.Murmur.hash (Text.Utf8.encode (salt ++ "|" ++ unit))).toNat / 16) % Nat.pow 2 60

/-- The bucket of a unit among `count` buckets; there is none in an empty space. -/
def of? (unit salt : String) (count : Nat) : Option Nat :=
  if count = 0 then none else some (digest unit salt % count)

/-- The bucket of a unit in the standard space. -/
def standard (unit salt : String) : Nat := digest unit salt % standardCount

/-- Where there is one bucket, every unit falls into it. -/
theorem of?_one (unit salt : String) : of? unit salt 1 = some 0 := by
  simp [of?, Nat.mod_one]

end FeatureFlags.Bucket
