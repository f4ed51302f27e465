/-!
# Words and blocks of bytes

What the digests share: words read from bytes, rotations, and a fold over the
full blocks at the front of a byte string.
-/

namespace FeatureFlags.Digest

/-- The word whose least significant byte comes first; missing bytes are zero. -/
def littleEndian (bytes : List UInt8) : UInt64 :=
  bytes.foldr (fun b acc => acc <<< 8 ||| b.toUInt64) 0

/-- The word whose most significant byte comes first. -/
def bigEndian (bytes : List UInt8) : UInt32 :=
  bytes.foldl (fun acc b => acc <<< 8 ||| b.toUInt32) 0

/-- Rotate to the left by `r` bits, for `0 < r < 64`. -/
def rotateLeft (x : UInt64) (r : UInt64) : UInt64 := x <<< r ||| x >>> (64 - r)

/-- Rotate to the right by `r` bits, for `0 < r < 32`. -/
def rotateRight (x : UInt32) (r : UInt32) : UInt32 := x >>> r ||| x <<< (32 - r)

/-- Feed `count` blocks of `size` bytes to `step`; the result holds the bytes behind them. -/
def foldBlocks {σ : Type} (size : Nat) (step : σ → List UInt8 → σ) :
    (count : Nat) → σ → List UInt8 → σ × List UInt8
  | 0, s, bytes => (s, bytes)
  | count + 1, s, bytes => foldBlocks size step count (step s (bytes.take size)) (bytes.drop size)

/-- Feed every full block of `size` bytes to `step`. -/
def foldFullBlocks {σ : Type} (size : Nat) (step : σ → List UInt8 → σ) (s : σ)
    (bytes : List UInt8) : σ × List UInt8 :=
  foldBlocks size step (bytes.length / size) s bytes

end FeatureFlags.Digest
