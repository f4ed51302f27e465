import FeatureFlags.Decimal.Shortest

/-!
# Decimal texts of doubles

- `Layout`: the choices a format makes when it writes a double.
- `Layout.render`: the text of a finite double in a layout.
- `Double.ofText?`: the double a number in free text stands for.
-/

namespace FeatureFlags

/-- How a format writes finite doubles. -/
structure Layout where
  /-- Which of two equally near shortest decimals is written. -/
  tie : Tie
  /-- Whether a value with leading digit at `10 ^ k` is written without an exponent. -/
  isPlain : Int → Bool
  /-- Whether a whole number written without an exponent ends in `.0`. -/
  keepsPoint : Bool

namespace Layout

private def zeros (n : Nat) : List Char := List.replicate n '0'

/-- A decimal without an exponent. -/
def plain (keepsPoint : Bool) (digits : List Char) (exponent : Int) : List Char :=
  let whole := (digits.length : Int) + exponent
  if 0 ≤ exponent then
    digits ++ zeros exponent.toNat ++ (if keepsPoint then ['.', '0'] else [])
  else if 0 < whole then digits.take whole.toNat ++ '.' :: digits.drop whole.toNat
  else '0' :: '.' :: zeros (-whole).toNat ++ digits

/-- A decimal with one digit before the point and an exponent that always has its sign. -/
def scientific (digits : List Char) (top : Int) : List Char :=
  let fraction := match digits.drop 1 with
    | [] => []
    | rest => '.' :: rest
  digits.take 1 ++ fraction ++ 'e' :: (if top < 0 then '-' else '+') :: Nat.toDigits 10 top.natAbs

/-- The text of a finite double. -/
def render (l : Layout) (d : Double) : List Char :=
  let sign := if d.isNegative then ['-'] else []
  if d.magnitude = 0 then sign ++ plain l.keepsPoint ['0'] 0
  else
    let x := d.shortest l.tie
    let digits := Nat.toDigits 10 x.digits
    let top := x.exponent + digits.length - 1
    if l.isPlain top then sign ++ plain l.keepsPoint digits x.exponent
    else sign ++ scientific digits top

end Layout

namespace Double

/-- A run of digits with at most one point inside, before or behind it: the digits before the
point, those behind it, and the rest. -/
private def spanDecimal (cs : List Char) : List Char × List Char × List Char :=
  let rest := cs.dropWhile Char.isDigit
  match rest with
  | '.' :: tail => (cs.takeWhile Char.isDigit, tail.takeWhile Char.isDigit, tail.dropWhile Char.isDigit)
  | _ => (cs.takeWhile Char.isDigit, [], rest)

/-- An exponent: an optional sign and at least one digit, and nothing behind it. -/
def exponentOfText? (cs : List Char) : Option Int :=
  let (negative, digits) : Bool × List Char := match cs with
    | '-' :: rest => (true, rest)
    | '+' :: rest => (false, rest)
    | _ => (false, cs)
  if digits ≠ [] ∧ digits.all Char.isDigit then
    let n : Int := Nat.ofDigitChars 10 digits 0
    some (if negative then -n else n)
  else none

/-- An unsigned number: `inf`, `infinity` or `nan` in any case, or decimal digits on at least one
side of an optional point with an optional exponent. -/
def ofUnsignedText? (negative : Bool) (cs : List Char) : Option Double :=
  let word := cs.map Char.toLower
  if word = "inf".toList ∨ word = "infinity".toList then some (infinity negative)
  else if word = "nan".toList then some (nan negative)
  else
    let (whole, fraction, rest) := spanDecimal cs
    let digits := whole ++ fraction
    if digits = [] then none
    else
      let exponent : Option Int := match rest with
        | [] => some 0
        | 'e' :: tail | 'E' :: tail => exponentOfText? tail
        | _ => none
      exponent.map fun e => ofDecimal negative (Nat.ofDigitChars 10 digits 0) (e - fraction.length)

/-- The number a text stands for: an optional sign and an unsigned number. -/
def ofText? (cs : List Char) : Option Double :=
  match cs with
  | '-' :: rest => ofUnsignedText? true rest
  | '+' :: rest => ofUnsignedText? false rest
  | _ => ofUnsignedText? false cs

/-- The text of a double for people: never an exponent, no point behind a whole number. -/
def display (d : Double) : String :=
  if d.isNaN then "NaN"
  else if d.isFinite then
    String.ofList (Layout.render { tie := .up, isPlain := fun _ => true, keepsPoint := false } d)
  else if d.isNegative then "-inf" else "inf"

end Double

end FeatureFlags
