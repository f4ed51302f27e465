import FeatureFlags.Digest.Words

/-!
# MurmurHash3, 128 bits on 64-bit words

Two lanes of 64 bits take in the message sixteen bytes at a time. Only the first
lane of the digest is needed here.
-/

namespace FeatureFlags.Digest.Murmur

/-- The two lanes. -/
structure State where
  h1 : UInt64
  h2 : UInt64

private def c1 : UInt64 := 0x87c37b91114253d5
private def c2 : UInt64 := 0x4cf5ad432745937f

/-- Prepare a word for the first lane. -/
def mixFirst (k : UInt64) : UInt64 := rotateLeft (k * c1) 31 * c2

/-- Prepare a word for the second lane. -/
def mixSecond (k : UInt64) : UInt64 := rotateLeft (k * c2) 33 * c1

/-- Take in one block of sixteen bytes. -/
def block (s : State) (bytes : List UInt8) : State :=
  let h1 := s.h1 ^^^ mixFirst (littleEndian (bytes.take 8))
  let h1 := (rotateLeft h1 27 + s.h2) * 5 + 0x52dce729
  let h2 := s.h2 ^^^ mixSecond (littleEndian (bytes.drop 8))
  let h2 := (rotateLeft h2 31 + h1) * 5 + 0x38495ab5
  { h1, h2 }

/-- Spread every bit of a word over all its bits. -/
def avalanche (k : UInt64) : UInt64 :=
  let k := (k ^^^ k >>> 33) * 0xff51afd7ed558ccd
  let k := (k ^^^ k >>> 33) * 0xc4ceb9fe1a85ec53
  k ^^^ k >>> 33

/-- The first lane of the digest with seed zero. The bytes behind the last full block are taken in
like a block filled up with zeros, which leave a lane as it is. -/
def hash (message : List UInt8) : UInt64 :=
  let (s, tail) := foldFullBlocks 16 block { h1 := 0, h2 := 0 } message
  let length := UInt64.ofNat message.length
  let h2 := s.h2 ^^^ mixSecond (littleEndian (tail.drop 8)) ^^^ length
  let h1 := s.h1 ^^^ mixFirst (littleEndian (tail.take 8)) ^^^ length
  let h1 := h1 + h2
  let h2 := h2 + h1
  avalanche h1 + avalanche h2

end FeatureFlags.Digest.Murmur
