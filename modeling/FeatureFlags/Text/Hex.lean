/-!
# Hexadecimal text

Bytes as pairs of digits, the high half first. Writing uses lower case, reading
takes both cases and refuses an odd number of digits.
-/

namespace FeatureFlags.Text.Hex

/-- The value of a digit, in either case. -/
def digit? (c : Char) : Option Nat :=
  if '0' ≤ c ∧ c ≤ '9' then some (c.toNat - '0'.toNat)
  else if 'a' ≤ c ∧ c ≤ 'f' then some (c.toNat - 'a'.toNat + 10)
  else if 'A' ≤ c ∧ c ≤ 'F' then some (c.toNat - 'A'.toNat + 10)
  else none

/-- The two digits of a byte. -/
def pair (b : UInt8) : List Char := [(b.toNat / 16).digitChar, (b.toNat % 16).digitChar]

/-- The digits of all bytes in order. -/
def encode (bytes : List UInt8) : List Char := bytes.flatMap pair

/-- The byte two digits stand for. -/
def byte? (high low : Char) : Option UInt8 :=
  match digit? high, digit? low with
  | some h, some l => some (UInt8.ofNat (16 * h + l))
  | _, _ => none

/-- Read the digits behind the bytes already read, which `acc` holds last first. -/
def decodeOnto (acc : List UInt8) : List Char → Option (List UInt8)
  | [] => some acc.reverse
  | [_] => none
  | high :: low :: rest =>
    match byte? high low with
    | some b => decodeOnto (b :: acc) rest
    | none => none

/-- The bytes a text of digit pairs stands for. -/
def decode? (cs : List Char) : Option (List UInt8) := decodeOnto [] cs

/-- A number below 2^64 as sixteen digits. -/
def ofUInt64 (n : UInt64) : String :=
  String.ofList ((List.range 16).map fun i => (n.toNat / Nat.pow 16 (15 - i) % 16).digitChar)

theorem digit?_digitChar {n : Nat} (h : n < 16) : digit? n.digitChar = some n := by
  revert n; decide

theorem byte?_pair (b : UInt8) :
    byte? (b.toNat / 16).digitChar (b.toNat % 16).digitChar = some b := by
  have hb := b.toNat_lt
  have hhigh : b.toNat / 16 < 16 := by omega
  have hlow : b.toNat % 16 < 16 := Nat.mod_lt _ (by decide)
  simp [byte?, digit?_digitChar hhigh, digit?_digitChar hlow, Nat.div_add_mod]

theorem decodeOnto_encode (acc bytes : List UInt8) :
    decodeOnto acc (encode bytes) = some (acc.reverse ++ bytes) := by
  induction bytes generalizing acc with
  | nil => simp [encode, decodeOnto]
  | cons b rest ih =>
    have : encode (b :: rest)
        = (b.toNat / 16).digitChar :: (b.toNat % 16).digitChar :: encode rest := rfl
    rw [this, decodeOnto, byte?_pair]
    simp [ih]

/-- What is written reads back. -/
theorem decode?_encode (bytes : List UInt8) : decode? (encode bytes) = some bytes := by
  simp [decode?, decodeOnto_encode]

end FeatureFlags.Text.Hex
