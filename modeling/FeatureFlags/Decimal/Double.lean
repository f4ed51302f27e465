/-!
# Doubles as bit patterns

A `Double` is the 64-bit interchange pattern of a binary floating-point number:
a sign bit, eleven exponent bits and fifty-two fraction bits. Everything is done
in exact integer arithmetic on the pattern.

- `units`: a finite double is `± units / 2^1074`, since 2^-1074 is the least
  positive double and all finite doubles are multiples of it.
- `key`: the total order of all patterns, not-a-numbers included, as an order of
  integers.
- `ofRatio`: the double nearest to a ratio, a tie going to the even pattern.
-/

namespace FeatureFlags

/-- A double, given by its bit pattern. -/
structure Double where
  /-- The interchange pattern: sign, exponent, fraction. -/
  bits : UInt64
  deriving DecidableEq, Repr

namespace Double

/-- The pattern without its sign bit. -/
def magnitude (d : Double) : Nat := d.bits.toNat % Nat.pow 2 63

/-- Whether the sign bit is set. -/
def isNegative (d : Double) : Bool := Nat.pow 2 63 ≤ d.bits.toNat

/-- The magnitude of the infinities; all not-a-numbers lie above it. -/
def infinityMagnitude : Nat := 0x7FF * Nat.pow 2 52

/-- The pattern with the given sign and magnitude. -/
def ofMagnitude (negative : Bool) (magnitude : Nat) : Double :=
  ⟨UInt64.ofNat (magnitude + if negative then Nat.pow 2 63 else 0)⟩

/-- Neither infinite nor a not-a-number. -/
def isFinite (d : Double) : Bool := d.magnitude < infinityMagnitude

/-- A not-a-number. -/
def isNaN (d : Double) : Bool := infinityMagnitude < d.magnitude

/-- The infinity of the given sign. -/
def infinity (negative : Bool) : Double := ofMagnitude negative infinityMagnitude

/-- The quiet not-a-number of the given sign. -/
def nan (negative : Bool) : Double := ofMagnitude negative (infinityMagnitude + Nat.pow 2 51)

/-- The zero of the given sign. -/
def zero (negative : Bool) : Double := ofMagnitude negative 0

/-- The significand of a finite double: below 2^53, and at least 2^52 unless the double is
subnormal. -/
def significand (d : Double) : Nat :=
  let fraction := d.magnitude % Nat.pow 2 52
  if d.magnitude < Nat.pow 2 52 then fraction else Nat.pow 2 52 + fraction

/-- How many times the unit 2^-1074 is doubled to give the weight of the significand. -/
def scale (d : Double) : Nat := d.magnitude / Nat.pow 2 52 - 1

/-- The absolute value of a finite double in units of 2^-1074. -/
def units (d : Double) : Nat := d.significand * Nat.pow 2 d.scale

/-- The value of a finite double in units of 2^-1074. -/
def signedUnits (d : Double) : Int := if d.isNegative then -(d.units : Int) else d.units

/-- The place of a pattern in the total order: negative patterns by falling magnitude, then the
others by rising magnitude. So -0.0 stands before 0.0, and not-a-numbers at both ends. -/
def key (d : Double) : Int :=
  if d.isNegative then -1 - (d.magnitude : Int) else d.magnitude

/-- The total order of all patterns. -/
def compare (a b : Double) : Ordering := Ord.compare a.key b.key

/-- The integer nearest to a ratio, a tie going to the even one. -/
def roundHalfEven (num den : Nat) : Nat :=
  let q := num / den
  let twice := 2 * (num % den)
  if twice < den then q
  else if den < twice then q + 1
  else q + q % 2

/-- The integer nearest to a ratio, a tie going up. -/
def roundHalfUp (num den : Nat) : Nat := (2 * num + den) / (2 * den)

/-- The double nearest to `num / den`, a tie going to the even pattern; beyond the finite doubles
an infinity. The quotient is rounded to a significand of at most fifty-three bits, and the pattern
is that significand behind its scale: a carry out of the significand runs into the exponent, as it
should. -/
def ofRatio (negative : Bool) (num den : Nat) : Double :=
  let units := num * Nat.pow 2 1074 / den
  let scale := units.log2 - 52
  let magnitude :=
    scale * Nat.pow 2 52 + roundHalfEven (num * Nat.pow 2 1074) (den * Nat.pow 2 scale)
  if magnitude < infinityMagnitude then ofMagnitude negative magnitude else infinity negative

/-- The double nearest to an integer. -/
def ofInt (n : Int) : Double := ofRatio (n < 0) n.natAbs 1

/-- The double nearest to `digits * 10 ^ exponent`. The value is at least `10 ^ least` and below
`10 ^ most`, which settles values far beyond the largest double and far below the least one. -/
def ofDecimal (negative : Bool) (digits : Nat) (exponent : Int) : Double :=
  let least := (digits.log2 * 3 / 10 : Nat) + exponent
  let most := (digits.log2 / 3 + 1 : Nat) + exponent
  if digits = 0 ∨ most < -330 then zero negative
  else if 310 < least then infinity negative
  else if 0 ≤ exponent then ofRatio negative (digits * Nat.pow 10 exponent.toNat) 1
  else ofRatio negative digits (Nat.pow 10 (-exponent).toNat)

/-- The product of a finite double and a natural number, rounded to the nearest double. -/
def scaleBy (d : Double) (factor : Nat) : Double :=
  ofRatio d.isNegative (d.units * factor) (Nat.pow 2 1074)

/-- The integer nearest to a finite double, a half going away from zero. -/
def roundToInt (d : Double) : Int :=
  let n := roundHalfUp d.units (Nat.pow 2 1074)
  if d.isNegative then -(n : Int) else n

/-- Two patterns of equal place are one pattern. -/
theorem key_injective {a b : Double} (h : a.key = b.key) : a = b := by
  have hab : a.bits.toNat = b.bits.toNat := by
    have ha := a.bits.toNat_lt
    have hb := b.bits.toNat_lt
    simp only [key, isNegative, magnitude, decide_eq_true_eq, Nat.pow_eq] at h
    split at h <;> split at h <;> omega
  cases a; cases b
  simpa using UInt64.toNat_inj.1 hab

end Double

end FeatureFlags
