import FeatureFlags.Decimal.Double

/-!
# The shortest decimal that reads back

- `Double.decimalExponent`: the power of ten of a double's leading digit.
- `Double.shortest`: the decimal with the fewest digits among those that round to
  the double; of two with that many digits, the nearer one, and of two equally
  near ones the one that `Tie` names.

All comparisons are made on integers: a value is measured in quarters of the
unit 2^-1074, so that the middle between two doubles is an integer too.
-/

namespace FeatureFlags

/-- Which of two equally near decimals is taken. -/
inductive Tie where
  /-- The one whose last digit is even. -/
  | even
  /-- The greater one. -/
  | up
  deriving DecidableEq, Repr

/-- The decimal `digits * 10 ^ exponent`. -/
structure Decimal where
  /-- The digits as a number. -/
  digits : Nat
  /-- The power of ten that the last digit counts. -/
  exponent : Int
  deriving DecidableEq, Repr

namespace Double

/-- The exponent `k` with `10 ^ k ≤ value < 10 ^ (k + 1)`, for a positive finite double. -/
def decimalExponent (d : Double) : Int :=
  let unit := Nat.pow 2 1074
  let whole := d.units / unit
  if 0 < whole then ((Nat.toDigits 10 whole).length : Int) - 1
  else -(((List.range 330).find? fun j => unit ≤ d.units * Nat.pow 10 j).getD 0 : Nat)

/-- Twice the distance to the next greater double, in quarter units. -/
def gapAbove (d : Double) : Nat := 2 * Nat.pow 2 d.scale

/-- Twice the distance to the next smaller double, in quarter units. Below a power of two the
doubles lie twice as close, except where they are subnormal. -/
def gapBelow (d : Double) : Nat :=
  if d.significand = Nat.pow 2 52 ∧ 0 < d.scale then Nat.pow 2 d.scale else 2 * Nat.pow 2 d.scale

/-- A positive finite double beside the decimals whose last digit counts `10 ^ exponent`. -/
structure Grid where
  /-- The weight of one step of the grid. -/
  step : Nat
  /-- The least value that rounds to the double. -/
  low : Nat
  /-- The value of the double. -/
  value : Nat
  /-- The greatest value that rounds to the double. -/
  high : Nat
  /-- Whether `low` and `high` themselves round to the double. -/
  closed : Bool

/-- The grid of an exponent, scaled so that all its members are integers. -/
def grid (d : Double) (exponent : Int) : Grid :=
  let up := Nat.pow 10 exponent.toNat
  let down := Nat.pow 10 (-exponent).toNat
  let centre := 4 * d.units
  { step := 4 * Nat.pow 2 1074 * up
    low := (centre - d.gapBelow) * down
    value := centre * down
    high := (centre + d.gapAbove) * down
    closed := d.significand % 2 = 0 }

namespace Grid

/-- Whether the grid point `n` rounds to the double. -/
def reads (g : Grid) (n : Nat) : Bool :=
  let x := n * g.step
  if g.closed then g.low ≤ x && x ≤ g.high else g.low < x && x < g.high

/-- The grid point nearest to the double among those that round to it, if there is any. Only the
two neighbours of the double need a look: a point that rounds to it has one of them between. -/
def nearest? (g : Grid) (tie : Tie) : Option Nat :=
  let n := g.value / g.step
  match g.reads n, g.reads (n + 1) with
  | true, true =>
    let twice := 2 * (g.value % g.step)
    if twice < g.step then some n
    else if g.step < twice then some (n + 1)
    else match tie with
      | .even => some (n + n % 2)
      | .up => some (n + 1)
  | true, false => some n
  | false, true => some (n + 1)
  | false, false => none

end Grid

/-- Take zeros off the end of the digits; `fuel` bounds their number. -/
def stripZeros : (fuel : Nat) → Decimal → Decimal
  | 0, x => x
  | fuel + 1, x =>
    if 0 < x.digits ∧ x.digits % 10 = 0 then
      stripZeros fuel { digits := x.digits / 10, exponent := x.exponent + 1 }
    else x

/-- The shortest decimal that reads back as a positive finite double. Seventeen digits always
suffice. -/
def shortest (tie : Tie) (d : Double) : Decimal :=
  let top := d.decimalExponent
  let found := (List.range 17).findSome? fun (i : Nat) =>
    let exponent := top - (i : Int)
    ((d.grid exponent).nearest? tie).map fun n => { digits := n, exponent := exponent : Decimal }
  stripZeros 17 (found.getD { digits := 0, exponent := 0 })

end Double

end FeatureFlags
