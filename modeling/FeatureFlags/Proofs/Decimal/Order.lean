import FeatureFlags.Proofs.Decimal.Rounding

/-!
# The order of doubles and the order of numbers

`Double.value?` is the number that a finite double stands for, read off its exponent and fraction.
`Double.compare` compares patterns. On finite doubles it agrees with the order of the numbers, but
for the two zeros: they stand for one number, and the negative one comes before the other
(`Double.compare_eq_lt_iff_value`, `Double.compare_eq_eq_iff_value`).

The way from one order to the other leads over units. The magnitude of a pattern is its exponent
before its fraction, and a greater one has more units (`Double.units_lt_iff`). So patterns of one
sign are in the order of their units, and of patterns of two signs the negative one comes first,
which is wrong only for zeros.
-/

namespace FeatureFlags.Double

variable {a b d : Double} {x y : ℚ}

/-! ## Values -/

/-- The absolute value of a finite double. There is a one before the fraction, unless the exponent
field is zero: then the double is subnormal. -/
def absValue (d : Double) : ℚ :=
  let exponent : Nat := d.magnitude / 2 ^ 52
  let fraction : ℚ := (d.magnitude % 2 ^ 52 : Nat) / 2 ^ 52
  if exponent = 0 then fraction * 2 ^ (-1022 : ℤ) else (1 + fraction) * 2 ^ ((exponent : ℤ) - 1023)

/-- The number that a double stands for; infinities and not-a-numbers stand for none. -/
def value? (d : Double) : Option ℚ :=
  if d.isFinite then some (if d.isNegative then -d.absValue else d.absValue) else none

/-- Units are what they are said to be. -/
theorem absValue_mul_one (d : Double) : d.absValue * one = d.units := by
  have htwo : (2 : ℚ) ≠ 0 := by norm_num
  have hone : (one : ℚ) = 2 ^ (1074 : ℤ) := by
    obtain ⟨k, hk⟩ : ∃ k, k = 1074 := ⟨_, rfl⟩
    rw [one_eq hk, Nat.pow_eq, Nat.cast_pow, Nat.cast_two, ← zpow_natCast, hk]
    rfl
  have hfraction : ((d.magnitude % 2 ^ 52 : Nat) / 2 ^ 52 : ℚ) * 2 ^ (52 : ℤ) =
      (d.magnitude % 2 ^ 52 : Nat) := div_mul_cancel₀ _ (by norm_num)
  simp only [absValue, units, significand, scale, hone, Nat.pow_eq]
  by_cases hsmall : d.magnitude < 2 ^ 52
  · have hexponent : d.magnitude / 2 ^ 52 = 0 := by omega
    rw [if_pos hsmall, if_pos hexponent, hexponent, mul_assoc, ← zpow_add₀ htwo]
    simp
  · obtain ⟨e, he⟩ : ∃ e, d.magnitude / 2 ^ 52 = e + 1 := ⟨d.magnitude / 2 ^ 52 - 1, by omega⟩
    have hsplit : ((e + 1 : ℕ) : ℤ) - 1023 + 1074 = 52 + e := by omega
    rw [if_neg hsmall, he, if_neg (Nat.succ_ne_zero e), mul_assoc, ← zpow_add₀ htwo, hsplit,
      zpow_add₀ htwo, ← mul_assoc, add_mul, hfraction]
    norm_num

theorem value?_zero (negative : Bool) : (zero negative).value? = some 0 := by
  have hfinite : (zero negative).isFinite = true := by cases negative <;> decide
  have hmagnitude : (zero negative).magnitude = 0 := by cases negative <;> decide
  simp [value?, absValue, hfinite, hmagnitude]

theorem value_mul_one (h : d.value? = some x) : x * one = d.signedUnits := by
  unfold value? at h
  split at h
  · cases h
    unfold signedUnits
    split
    · rw [neg_mul, absValue_mul_one, Int.cast_neg, Int.cast_natCast]
    · rw [absValue_mul_one, Int.cast_natCast]
  · cases h

/-- Numbers are compared as units. -/
theorem value_lt_iff (ha : a.value? = some x) (hb : b.value? = some y) :
    x < y ↔ a.signedUnits < b.signedUnits := by
  have hone : (0 : ℚ) < one := Nat.cast_pos.mpr one_pos
  rw [← mul_lt_mul_iff_left₀ hone, value_mul_one ha, value_mul_one hb, Int.cast_lt]

/-! ## Units -/

theorem units_lt_units (h : a.magnitude < b.magnitude) : a.units < b.units := by
  have ha := a.magnitude_eq
  have hb := b.magnitude_eq
  have hwidth := a.significand_lt
  have hlead := b.scale_eq_zero_or
  simp only [Nat.pow_eq] at ha hb hwidth hlead
  have hle : a.scale ≤ b.scale := by
    have haLead := a.scale_eq_zero_or
    have hbWidth := b.significand_lt
    simp only [Nat.pow_eq] at haLead hbWidth
    omega
  simp only [units, Nat.pow_eq]
  rcases Nat.lt_or_eq_of_le hle with hscale | hscale
  · -- the leading bit of the greater one is beyond all bits of the other
    calc a.significand * 2 ^ a.scale
        < 2 ^ 53 * 2 ^ a.scale := Nat.mul_lt_mul_of_pos_right hwidth (Nat.two_pow_pos _)
      _ = 2 ^ 52 * 2 ^ (a.scale + 1) := by rw [Nat.pow_succ 2 a.scale]; omega
      _ ≤ b.significand * 2 ^ b.scale :=
          Nat.mul_le_mul (by omega) (Nat.pow_le_pow_right (by decide) hscale)
  · rw [hscale]
    exact Nat.mul_lt_mul_of_pos_right (by omega) (Nat.two_pow_pos _)

theorem units_lt_iff : a.units < b.units ↔ a.magnitude < b.magnitude := by
  refine ⟨fun h => ?_, units_lt_units⟩
  rcases Nat.lt_trichotomy a.magnitude b.magnitude with hlt | heq | hgt
  · exact hlt
  · simp only [units, significand, scale, heq, Nat.lt_irrefl] at h
  · exact absurd (units_lt_units hgt) (Nat.lt_asymm h)

/-- A double without units is a zero. -/
theorem eq_zero_of_units (h : d.units = 0) : d = zero d.isNegative := by
  have hmagnitude : d.magnitude = 0 := by
    by_contra hpos
    exact (Nat.mul_pos (significand_pos hpos) (Nat.two_pow_pos d.scale)).ne' h
  rw [zero, ← hmagnitude]
  exact d.ofMagnitude_magnitude.symm

/-! ## Order -/

/-- The negative zero and the other one. -/
def ZerosInOrder (a b : Double) : Prop := a = zero true ∧ b = zero false

/-- Zeros of different sign. -/
def OppositeZeros (a b : Double) : Prop := a.ZerosInOrder b ∨ b.ZerosInOrder a

/-- Patterns are in the order of their signed units, but for the two zeros. -/
theorem key_lt_iff : a.key < b.key ↔ a.signedUnits < b.signedUnits ∨ a.ZerosInOrder b := by
  have hzeros : ∀ negative, (zero negative).isNegative = negative := by decide
  have hunits := units_lt_iff (a := a) (b := b)
  have hswap := units_lt_iff (a := b) (b := a)
  unfold key signedUnits ZerosInOrder
  cases ha : a.isNegative <;> cases hb : b.isNegative
  all_goals simp only [if_true, if_false, Bool.false_eq_true]
  · have hne : a ≠ zero true := fun h => by rw [h, hzeros] at ha; cases ha
    simp only [hne, false_and, or_false]
    omega
  · have hne : a ≠ zero true := fun h => by rw [h, hzeros] at ha; cases ha
    simp only [hne, false_and, or_false]
    omega
  · refine iff_of_true (by omega) ?_
    by_cases hboth : a.units = 0 ∧ b.units = 0
    · right
      exact ⟨ha ▸ eq_zero_of_units hboth.1, hb ▸ eq_zero_of_units hboth.2⟩
    · left
      omega
  · have hne : b ≠ zero false := fun h => by rw [h, hzeros] at hb; cases hb
    simp only [hne, and_false, or_false]
    omega

variable (ha : a.value? = some x) (hb : b.value? = some y)
include ha hb

theorem key_lt_iff_value : a.key < b.key ↔ x < y ∨ a.ZerosInOrder b := by
  rw [key_lt_iff, value_lt_iff ha hb]

theorem compare_eq_lt_iff_value : a.compare b = .lt ↔ x < y ∨ a.ZerosInOrder b :=
  Int.compare_eq_lt.trans (key_lt_iff_value ha hb)

theorem compare_eq_gt_iff_value : a.compare b = .gt ↔ y < x ∨ b.ZerosInOrder a :=
  Int.compare_eq_gt.trans (key_lt_iff_value hb ha)

theorem compare_eq_eq_iff_value : a.compare b = .eq ↔ x = y ∧ ¬ a.OppositeZeros b := by
  have hkeys : a.key = b.key ↔ ¬ a.key < b.key ∧ ¬ b.key < a.key := by omega
  have hvalues : x = y ↔ ¬ x < y ∧ ¬ y < x := by
    rw [not_lt, not_lt, and_comm, ← le_antisymm_iff]
  refine Int.compare_eq_eq.trans ?_
  rw [hkeys, key_lt_iff_value ha hb, key_lt_iff_value hb ha, hvalues, OppositeZeros]
  tauto

/-- Doubles of equal value are one double, unless they are zeros of different sign. -/
theorem eq_of_value_eq (h : x = y) (hzeros : ¬ a.OppositeZeros b) : a = b :=
  key_injective (Int.compare_eq_eq.mp ((compare_eq_eq_iff_value ha hb).mpr ⟨h, hzeros⟩))

omit ha hb in
/-- Whatever is no zero has both zeros on the same side. -/
theorem compare_eq_of_oppositeZeros (h : a.OppositeZeros b) (hd : ∀ negative, d ≠ zero negative) :
    a.compare d = b.compare d := by
  have hzeros : ∀ negative, (zero negative).key = if negative then -1 else 0 := by decide
  have hkey : ∀ negative : Bool, d.key ≠ if negative then -1 else 0 := fun negative heq =>
    hd negative (key_injective (heq.trans (hzeros negative).symm))
  have hside : (zero true).compare d = (zero false).compare d := by
    show Ord.compare (zero true).key d.key = Ord.compare (zero false).key d.key
    rw [hzeros, hzeros, if_pos rfl, if_neg Bool.false_ne_true]
    rcases Int.lt_or_le d.key 0 with hneg | hnonneg
    · have hne : d.key ≠ -1 := hkey true
      rw [Int.compare_eq_gt.mpr hneg, Int.compare_eq_gt]
      omega
    · have hne : d.key ≠ 0 := hkey false
      rw [Int.compare_eq_lt.mpr (by omega : -1 < d.key), eq_comm, Int.compare_eq_lt]
      omega
  rcases h with ⟨rfl, rfl⟩ | ⟨rfl, rfl⟩
  · exact hside
  · exact hside.symm

end FeatureFlags.Double
