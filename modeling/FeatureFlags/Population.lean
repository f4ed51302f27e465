import FeatureFlags.Bucket
import FeatureFlags.Json.Record
import FeatureFlags.Text.Hex

/-!
# Populations

A population is a set of buckets of the standard space: all of them, or those
whose bits are set in a byte string, bucket `i` being bit `i % 8` of byte `i / 8`.
The byte string comes from a snapshot, so it may have any length until it is
checked with `isWellFormed`.

Whoever lists a bucket or asks for one gives its number in 64 bits, and the number is
used as an index as it is. This takes a machine whose indices have 64 bits: with fewer,
a number far outside the standard space would be cut to one that may lie in it.
-/

namespace FeatureFlags

/-- A set of buckets of the standard space. -/
inductive Population where
  /-- All buckets. -/
  | full
  /-- The buckets whose bits are set. -/
  | sample (bytes : Array UInt8)
  deriving DecidableEq

namespace Population

/-- The number of bytes that hold one bit for each bucket. -/
def byteCount : Nat := Bucket.standardCount / 8

/-- Whether bit `i` of a byte is set. -/
def testBit (b : UInt8) (i : Nat) : Bool := b.toNat.testBit i

/-- The byte with bit `i` set as well. -/
def setBit (b : UInt8) (i : Nat) : UInt8 := b ||| UInt8.ofNat (Nat.pow 2 i)

/-- The population without buckets. -/
def empty : Population := sample (Array.replicate byteCount 0)

/-- Set the bit of a bucket, if the standard space has it. -/
def addBucket (bytes : Array UInt8) (bucket : Nat) : Array UInt8 :=
  if bucket < Bucket.standardCount then bytes.modify (bucket / 8) (setBit · (bucket % 8))
  else bytes

/-- The population of the listed buckets; those outside the standard space do not count. Indices
have 64 bits, so that no listed number is cut. -/
def ofBuckets (buckets : List Nat) : Population :=
  sample (buckets.foldl addBucket (Array.replicate byteCount 0))

/-- The population of the buckets from `lower` up to but excluding `upper`. -/
def ofRange (lower upper : Nat) : Population :=
  ofBuckets (List.range' lower (min upper Bucket.standardCount - lower))

/-- Whether there is one bit for each bucket. -/
def isWellFormed : Population → Bool
  | full => true
  | sample bytes => bytes.size = byteCount

/-- Whether a bucket is in the population. -/
def contains (p : Population) (bucket : Nat) : Bool :=
  match p with
  | full => true
  | sample bytes => bytes[bucket / 8]?.any (testBit · (bucket % 8))

/-- The number of bits set in a byte. -/
def countBits (b : UInt8) : Nat := (List.range 8).countP (testBit b ·)

/-- The number of buckets in the population. -/
def size : Population → Nat
  | full => Bucket.standardCount
  | sample bytes => bytes.foldl (fun n b => n + countBits b) 0

/-- Whether a unit falls into a population under a salt. -/
def admits (p : Population) (unit salt : String) : Bool :=
  match p with
  | full => true
  | sample bytes => (sample bytes).contains (Bucket.standard unit salt)

/-- The form in snapshots: the word `full`, or the bytes in hexadecimal. -/
def toJson : Population → Json
  | full => .string "full"
  | sample bytes => .string (String.ofList (Text.Hex.encode bytes.toList))

/-- A population from the text in a snapshot. -/
def ofText? (text : String) : Option Population :=
  if text = "full" then some full
  else (Text.Hex.decode? text.toList).map fun bytes => sample bytes.toArray

def ofJson? (j : Json) : Option Population := j.asString?.bind ofText?

end Population

end FeatureFlags
