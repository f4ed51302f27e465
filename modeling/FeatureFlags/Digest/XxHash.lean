import FeatureFlags.Digest.Words

/-!
# xxHash, 64 bits

Four lanes take in the message thirty-two bytes at a time; what is left goes in
by words of eight and four bytes and then byte by byte.
-/

namespace FeatureFlags.Digest.XxHash

private def p1 : UInt64 := 11400714785074694791
private def p2 : UInt64 := 14029467366897019727
private def p3 : UInt64 := 1609587929392839161
private def p4 : UInt64 := 9650029242287828579
private def p5 : UInt64 := 2870177450012600261

/-- The four lanes. -/
structure State where
  v1 : UInt64
  v2 : UInt64
  v3 : UInt64
  v4 : UInt64

/-- Take a word into a lane. -/
def round (lane word : UInt64) : UInt64 := rotateLeft (lane + word * p2) 31 * p1

/-- Take in one block of thirty-two bytes. -/
def block (s : State) (bytes : List UInt8) : State where
  v1 := round s.v1 (littleEndian (bytes.take 8))
  v2 := round s.v2 (littleEndian ((bytes.drop 8).take 8))
  v3 := round s.v3 (littleEndian ((bytes.drop 16).take 8))
  v4 := round s.v4 (littleEndian (bytes.drop 24))

/-- Join a lane to the accumulator. -/
def join (acc lane : UInt64) : UInt64 := (acc ^^^ round 0 lane) * p1 + p4

/-- The accumulator of all four lanes. -/
def converge (s : State) : UInt64 :=
  let acc := rotateLeft s.v1 1 + rotateLeft s.v2 7 + rotateLeft s.v3 12 + rotateLeft s.v4 18
  join (join (join (join acc s.v1) s.v2) s.v3) s.v4

/-- Take in a word of eight bytes. -/
def takeEight (acc : UInt64) (bytes : List UInt8) : UInt64 :=
  rotateLeft (acc ^^^ round 0 (littleEndian bytes)) 27 * p1 + p4

/-- Take in a word of four bytes. -/
def takeFour (acc : UInt64) (bytes : List UInt8) : UInt64 :=
  rotateLeft (acc ^^^ littleEndian bytes * p1) 23 * p2 + p3

/-- Take in one byte. -/
def takeByte (acc : UInt64) (b : UInt8) : UInt64 :=
  rotateLeft (acc ^^^ b.toUInt64 * p5) 11 * p1

/-- Spread every bit of the accumulator over all its bits. -/
def avalanche (acc : UInt64) : UInt64 :=
  let acc := (acc ^^^ acc >>> 33) * p2
  let acc := (acc ^^^ acc >>> 29) * p3
  acc ^^^ acc >>> 32

/-- The digest of a message with seed zero. -/
def hash (message : List UInt8) : UInt64 :=
  let (lanes, rest) :=
    foldFullBlocks 32 block { v1 := p1 + p2, v2 := p2, v3 := 0, v4 := 0 - p1 } message
  let acc := if message.length < 32 then p5 else converge lanes
  let (acc, rest) := foldFullBlocks 8 takeEight (acc + UInt64.ofNat message.length) rest
  let (acc, rest) := foldFullBlocks 4 takeFour acc rest
  avalanche (rest.foldl takeByte acc)

end FeatureFlags.Digest.XxHash
