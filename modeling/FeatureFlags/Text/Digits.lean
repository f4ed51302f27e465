/-!
# Decimal digits

Natural numbers as decimal digits, most significant first and without leading
zeros, and the reading of digit runs. Only the ten ASCII digits count.
-/

namespace FeatureFlags.Text.Digits

/-- The digits of a number. -/
def encode (n : Nat) : List Char := Nat.toDigits 10 n

/-- The number a run of digits stands for; leading zeros do not matter. -/
def value (cs : List Char) : Nat := Nat.ofDigitChars 10 cs 0

/-- The number a text of digits alone stands for. -/
def decode? (cs : List Char) : Option Nat :=
  if cs ≠ [] ∧ cs.all Char.isDigit then some (value cs) else none

/-- As `decode?`, for numbers below `bound`. -/
def decodeBelow? (bound : Nat) (cs : List Char) : Option Nat :=
  (decode? cs).filter (· < bound)

/-- As `decodeBelow?`, with an optional plus sign in front. -/
def unsigned? (bound : Nat) : List Char → Option Nat
  | '+' :: cs => decodeBelow? bound cs
  | cs => decodeBelow? bound cs

/-- The digits of `n`, filled up with zeros on the left to at least `width`. -/
def padded (width n : Nat) : List Char :=
  List.replicate (width - (encode n).length) '0' ++ encode n

@[simp] theorem value_encode (n : Nat) : value (encode n) = n :=
  Nat.ofDigitChars_toDigits (by decide) (by decide)

theorem encode_ne_nil (n : Nat) : encode n ≠ [] := Nat.toDigits_ne_nil

theorem isDigit_of_mem_encode {n : Nat} {c : Char} (h : c ∈ encode n) : c.isDigit :=
  Nat.isDigit_of_mem_toDigits (by decide) (by decide) h

theorem decode?_encode (n : Nat) : decode? (encode n) = some n := by
  have hall : (encode n).all Char.isDigit = true :=
    List.all_eq_true.2 fun _ h => isDigit_of_mem_encode h
  simp [decode?, encode_ne_nil, hall]

end FeatureFlags.Text.Digits
