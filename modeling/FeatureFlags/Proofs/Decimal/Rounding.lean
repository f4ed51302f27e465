import FeatureFlags.Decimal.Shortest
import Mathlib.Algebra.Order.Field.Rat
import Mathlib.Data.Nat.Cast.Order.Field
import Mathlib.Tactic.FieldSimp
import Mathlib.Tactic.Linarith
import Mathlib.Tactic.GCongr

/-!
# Decimals round to the double they stand for

- `Double.Attracts`: the rationals that round to a double.
- `Double.ofRatio_eq`, `Double.ofDecimal_eq`: a ratio, and a decimal, round to the double that
  attracts them.
- `Double.isFinite_ofInt`: a whole number of 64 bits rounds to a finite double.

A ratio is rounded at the scale that its own size gives, which is that of the double, except just
below a power of two: there the doubles lie twice as close, and rounding at the smaller scale
carries into the power.
-/

namespace FeatureFlags.Double

/-! ## The parts of a double -/

variable {d : Double}

theorem magnitude_eq (d : Double) : d.magnitude = d.scale * Nat.pow 2 52 + d.significand := by
  simp only [scale, significand, Nat.pow_eq]
  split <;> omega

theorem significand_lt (d : Double) : d.significand < Nat.pow 2 53 := by
  simp only [significand, Nat.pow_eq]
  split <;> omega

/-- The leading bit of a significand is set, unless the double is subnormal. -/
theorem scale_eq_zero_or (d : Double) : d.scale = 0 ∨ Nat.pow 2 52 ≤ d.significand := by
  simp only [scale, significand, Nat.pow_eq]
  split <;> omega

/-- The scale of the greatest double. -/
def maxScale : Nat := 2045

theorem scale_le (hfinite : d.isFinite = true) : d.scale ≤ maxScale := by
  have hlt : d.magnitude < infinityMagnitude := of_decide_eq_true hfinite
  simp only [infinityMagnitude, Nat.pow_eq] at hlt
  simp only [scale, Nat.pow_eq, maxScale]
  omega

theorem significand_pos (hpos : d.magnitude ≠ 0) : 0 < d.significand := by
  rcases d.scale_eq_zero_or with hscale | hlead
  · rw [magnitude_eq, hscale] at hpos
    omega
  · exact Nat.lt_of_lt_of_le (by decide) hlead

theorem gapBelow_le (d : Double) : d.gapBelow ≤ 2 * Nat.pow 2 d.scale := by
  unfold gapBelow
  split <;> omega

/-- A double is its sign and its magnitude. -/
theorem ofMagnitude_magnitude (d : Double) : ofMagnitude d.isNegative d.magnitude = d := by
  obtain ⟨bits⟩ := d
  have hlt := bits.toNat_lt
  refine congrArg Double.mk (UInt64.toNat_inj.mp ?_)
  simp only [isNegative, magnitude, Nat.pow_eq, decide_eq_true_eq, UInt64.toNat_ofNat']
  split <;> omega

/-! ## Rounding to integers -/

theorem roundHalfEven_le (num den : Nat) : roundHalfEven num den ≤ num / den + 1 := by
  unfold roundHalfEven
  dsimp only
  split
  · omega
  · split <;> omega

/-- A ratio rounds to an integer that is less than a half away, and to an even one that is a half
away. -/
theorem roundHalfEven_eq {num den m : Nat} (hlow : 2 * m * den ≤ 2 * num + den)
    (hhigh : 2 * num ≤ 2 * m * den + den)
    (hodd : m % 2 = 1 → 2 * m * den < 2 * num + den ∧ 2 * num < 2 * m * den + den)
    (hden : 0 < den) : roundHalfEven num den = m := by
  have hdiv : den * (num / den) + num % den = num := Nat.div_add_mod num den
  have hmod : num % den < den := Nat.mod_lt num hden
  unfold roundHalfEven
  dsimp only
  generalize num / den = q at *
  generalize num % den = r at *
  have hle : q ≤ m := by
    by_contra hlt
    have hmul : den * (m + 1) ≤ den * q := Nat.mul_le_mul_left den (by omega)
    linarith
  have hge : m ≤ q + 1 := by
    by_contra hlt
    have hmul : den * (q + 2) ≤ den * m := Nat.mul_le_mul_left den (by omega)
    linarith
  obtain rfl | rfl : q = m ∨ m = q + 1 := by omega
  · have htie : den = 2 * r → q % 2 = 0 := fun htie => by
      by_contra hq
      linarith [hodd (by omega)]
    split
    · rfl
    · split
      · linarith
      · omega
  · have htie : den = 2 * r → q % 2 = 1 := fun htie => by
      by_contra hq
      linarith [hodd (by omega)]
    split
    · linarith
    · split
      · rfl
      · omega

/-! ## Rounding to doubles -/

/-- How many units make one. -/
@[irreducible] def one : Nat := Nat.pow 2 1074

/-- One as a power whose exponent can be kept symbolic. -/
theorem one_eq {k : Nat} (hk : k = 1074) : one = Nat.pow 2 k := by
  unfold one
  rw [hk]

theorem one_pos : 0 < one := by decide +kernel

/-- The rationals that round to the absolute value of a double: those that are nearer to it than to
its neighbours and, if its significand is even, those in the middle between it and a neighbour. -/
structure Attracts (d : Double) (x : ℚ) : Prop where
  low : (4 * d.units : ℚ) ≤ 4 * (x * one) + d.gapBelow
  high : 4 * (x * one) ≤ 4 * d.units + d.gapAbove
  odd : d.significand % 2 = 1 →
    (4 * d.units : ℚ) < 4 * (x * one) + d.gapBelow ∧ 4 * (x * one) < 4 * d.units + d.gapAbove

/-- For ratios this is a matter of natural numbers. -/
theorem attracts_div_iff {num den : Nat} (hden : 0 < den) :
    d.Attracts (num / den) ↔
      4 * d.units * den ≤ 4 * (num * one) + d.gapBelow * den ∧
      4 * (num * one) ≤ (4 * d.units + d.gapAbove) * den ∧
      (d.significand % 2 = 1 → 4 * d.units * den < 4 * (num * one) + d.gapBelow * den ∧
        4 * (num * one) < (4 * d.units + d.gapAbove) * den) := by
  have hpos : (0 : ℚ) < den := Nat.cast_pos.mpr hden
  have hlow : 4 * ((num / den : ℚ) * one) + d.gapBelow =
      (4 * (num * one) + d.gapBelow * den) / den := by
    field_simp
  have hhigh : 4 * ((num / den : ℚ) * one) = 4 * (num * one) / den := by
    field_simp
  constructor
  · rintro ⟨h₁, h₂, h₃⟩
    rw [hlow, le_div_iff₀ hpos] at h₁
    rw [hhigh, div_le_iff₀ hpos] at h₂
    rw [hlow, hhigh, lt_div_iff₀ hpos, div_lt_iff₀ hpos] at h₃
    exact_mod_cast And.intro h₁ (And.intro h₂ h₃)
  · rintro ⟨h₁, h₂, h₃⟩
    constructor
    · rw [hlow, le_div_iff₀ hpos]
      exact_mod_cast h₁
    · rw [hhigh, div_le_iff₀ hpos]
      exact_mod_cast h₂
    · rw [hlow, hhigh, lt_div_iff₀ hpos, div_lt_iff₀ hpos]
      exact_mod_cast h₃

/-- The scale that a size gives. -/
theorem log2_sub_eq {y e : Nat} (hlt : y < Nat.pow 2 53 * Nat.pow 2 e)
    (hle : e = 0 ∨ Nat.pow 2 52 * Nat.pow 2 e ≤ y) : y.log2 - 52 = e := by
  simp only [Nat.pow_eq, ← Nat.pow_add] at hlt hle
  by_cases hy : y = 0
  · subst hy
    have hpos : 0 < 2 ^ (52 + e) := Nat.two_pow_pos _
    rw [Nat.log2_zero]
    omega
  · have hbelow : y.log2 < 53 + e := (Nat.log2_lt hy).mpr hlt
    rcases hle with rfl | hle
    · omega
    · have habove : 52 + e ≤ y.log2 := (Nat.le_log2 hy).mpr hle
      omega

section Ratio

variable {num den : Nat}

/-- Rounding to a significand of fifty-three bits, where the scale is known. -/
theorem ofRatio_of_scale {e m : Nat} (negative : Bool) (hfinite : d.isFinite = true)
    (hscale : (num * one / den).log2 - 52 = e)
    (hround : roundHalfEven (num * one) (den * Nat.pow 2 e) = m)
    (hmagnitude : e * Nat.pow 2 52 + m = d.magnitude) :
    ofRatio negative num den = ofMagnitude negative d.magnitude := by
  have hlt : d.magnitude < infinityMagnitude := of_decide_eq_true hfinite
  have hvalue : ofRatio negative num den =
      if e * Nat.pow 2 52 + m < infinityMagnitude then
        ofMagnitude negative (e * Nat.pow 2 52 + m)
      else infinity negative := by
    unfold one at hscale hround
    subst hscale hround
    rw [ofRatio]
  rw [hvalue, hmagnitude, if_pos hlt]

/-- A ratio that is not below the leading power of two of the double rounds at its scale. -/
theorem ofRatio_of_le (negative : Bool) (hfinite : d.isFinite = true) (hden : 0 < den)
    (h : d.Attracts (num / den))
    (hle : d.scale = 0 ∨ Nat.pow 2 52 * Nat.pow 2 d.scale * den ≤ num * one) :
    ofRatio negative num den = ofMagnitude negative d.magnitude := by
  obtain ⟨hlow, hhigh, hodd⟩ := (attracts_div_iff hden).mp h
  simp only [units, gapAbove] at hlow hhigh hodd
  have hstep : 0 < Nat.pow 2 d.scale * den := Nat.mul_pos (Nat.two_pow_pos _) hden
  have hgap : d.gapBelow * den ≤ 2 * Nat.pow 2 d.scale * den :=
    Nat.mul_le_mul_right den d.gapBelow_le
  have hbits : (d.significand + 1) * (Nat.pow 2 d.scale * den) ≤
      Nat.pow 2 53 * (Nat.pow 2 d.scale * den) :=
    Nat.mul_le_mul_right _ d.significand_lt
  have hscale : (num * one / den).log2 - 52 = d.scale := by
    refine log2_sub_eq ?_ (hle.imp_right (Nat.le_div_iff_mul_le hden).mpr)
    rw [Nat.div_lt_iff_lt_mul hden]
    linarith
  have hround : roundHalfEven (num * one) (den * Nat.pow 2 d.scale) = d.significand := by
    refine roundHalfEven_eq (by linarith) (by linarith) (fun h => ?_) (by linarith)
    constructor <;> linarith [hodd h]
  exact ofRatio_of_scale negative hfinite hscale hround d.magnitude_eq.symm

/-- A ratio below the leading power of two of the double rounds at the next smaller scale, and
carries. -/
theorem ofRatio_of_lt (negative : Bool) (hfinite : d.isFinite = true) (hden : 0 < den)
    (h : d.Attracts (num / den)) (hpos : d.scale ≠ 0)
    (hlt : num * one < Nat.pow 2 52 * Nat.pow 2 d.scale * den) :
    ofRatio negative num den = ofMagnitude negative d.magnitude := by
  obtain ⟨hlow, -, -⟩ := (attracts_div_iff hden).mp h
  have hlead : Nat.pow 2 52 ≤ d.significand := d.scale_eq_zero_or.resolve_left hpos
  have hmagnitude := d.magnitude_eq
  rw [units] at hlow
  have hstep : 0 < Nat.pow 2 d.scale * den := Nat.mul_pos (Nat.two_pow_pos _) hden
  have hleast : d.significand = Nat.pow 2 52 := by
    by_contra hne
    have hgap : d.gapBelow = 2 * Nat.pow 2 d.scale := if_neg fun h => hne h.1
    have hbits : (Nat.pow 2 52 + 1) * (Nat.pow 2 d.scale * den) ≤
        d.significand * (Nat.pow 2 d.scale * den) :=
      Nat.mul_le_mul_right _ (by omega)
    rw [hgap] at hlow
    linarith
  have hgap : d.gapBelow = Nat.pow 2 d.scale := if_pos ⟨hleast, by omega⟩
  obtain ⟨e, he⟩ : ∃ e, d.scale = e + 1 := ⟨d.scale - 1, by omega⟩
  have htwice : Nat.pow 2 (e + 1) = 2 * Nat.pow 2 e := by
    rw [Nat.pow_eq, Nat.pow_eq, Nat.pow_succ, Nat.mul_comm]
  rw [hgap, hleast] at hlow
  rw [hleast] at hmagnitude
  rw [he, htwice] at hlow hlt hstep
  rw [he] at hmagnitude
  have hcarry : Nat.pow 2 53 = 2 * Nat.pow 2 52 := rfl
  have hscale : (num * one / den).log2 - 52 = e := by
    have hsmall : Nat.pow 2 e * den ≤ Nat.pow 2 52 * (Nat.pow 2 e * den) :=
      Nat.le_mul_of_pos_left _ (by decide)
    refine log2_sub_eq ?_ (.inr ?_)
    · rw [Nat.div_lt_iff_lt_mul hden]
      linarith
    · rw [Nat.le_div_iff_mul_le hden]
      linarith
  have hround : roundHalfEven (num * one) (den * Nat.pow 2 e) = Nat.pow 2 53 := by
    refine roundHalfEven_eq (by linarith) (by linarith) (fun h => ?_) (by linarith)
    cases h
  exact ofRatio_of_scale negative hfinite hscale hround (by linarith)

/-- A ratio rounds to the double that attracts it. -/
theorem ofRatio_eq (negative : Bool) (hfinite : d.isFinite = true) (hden : 0 < den)
    (h : d.Attracts (num / den)) :
    ofRatio negative num den = ofMagnitude negative d.magnitude := by
  by_cases hscale : d.scale = 0
  · exact ofRatio_of_le negative hfinite hden h (.inl hscale)
  · by_cases hle : Nat.pow 2 52 * Nat.pow 2 d.scale * den ≤ num * one
    · exact ofRatio_of_le negative hfinite hden h (.inr hle)
    · exact ofRatio_of_lt negative hfinite hden h hscale (Nat.not_le.mp hle)

end Ratio

/-! ## Rounding decimals -/

section Decimals

variable {x : ℚ} {digits : Nat} {exponent : Int}

/-- What rounds to a positive double is at least half a unit. -/
theorem Attracts.half_le (h : d.Attracts x) (hpos : d.magnitude ≠ 0) : 1 ≤ 2 * (x * one) := by
  have hunits : (Nat.pow 2 d.scale : ℚ) ≤ d.units := by
    exact_mod_cast Nat.le_mul_of_pos_left _ (significand_pos hpos)
  have hgap : (d.gapBelow : ℚ) ≤ 2 * Nat.pow 2 d.scale := by exact_mod_cast d.gapBelow_le
  have hstep : (1 : ℚ) ≤ Nat.pow 2 d.scale := by exact_mod_cast Nat.two_pow_pos d.scale
  linarith [h.low]

theorem Attracts.digits_pos (h : d.Attracts (digits * 10 ^ exponent)) (hpos : d.magnitude ≠ 0) :
    0 < digits := by
  refine Nat.pos_of_ne_zero ?_
  rintro rfl
  have hhalf := h.half_le hpos
  rw [Nat.cast_zero, zero_mul, zero_mul, mul_zero] at hhalf
  exact absurd hhalf (by norm_num)

theorem units_add_gapAbove_le (d : Double) {e : Nat} (hscale : d.scale ≤ e) :
    4 * d.units + d.gapAbove ≤ 4 * (Nat.pow 2 53 * Nat.pow 2 e) := by
  have hstep : Nat.pow 2 d.scale ≤ Nat.pow 2 e := Nat.pow_le_pow_right (by decide) hscale
  have hbits : (d.significand + 1) * Nat.pow 2 d.scale ≤ Nat.pow 2 53 * Nat.pow 2 e :=
    Nat.mul_le_mul d.significand_lt hstep
  rw [units, gapAbove]
  linarith

/-- What rounds to a finite double is at most the power of two that no double reaches. -/
theorem Attracts.le_two_pow (h : d.Attracts x) (hfinite : d.isFinite = true) :
    x ≤ (Nat.pow 2 1024 : Nat) := by
  have hpow : Nat.pow 2 53 * Nat.pow 2 maxScale = Nat.pow 2 1024 * one := by
    unfold one maxScale
    decide +kernel
  have hunits := d.units_add_gapAbove_le (scale_le hfinite)
  rw [hpow] at hunits
  have hcast : (4 * d.units + d.gapAbove : ℚ) ≤ 4 * ((Nat.pow 2 1024 : Nat) * one) := by
    exact_mod_cast hunits
  have hone : (0 : ℚ) < one := Nat.cast_pos.mpr one_pos
  refine le_of_mul_le_mul_right ?_ hone
  linarith [h.high]

theorem pow_log2_le (hdigits : digits ≠ 0) : 10 ^ (digits.log2 * 3 / 10) ≤ digits := by
  refine Nat.le_trans ?_ (Nat.log2_self_le hdigits)
  refine le_of_pow_le_pow_left₀ (n := 10) (by decide) (Nat.zero_le _) ?_
  calc (10 ^ (digits.log2 * 3 / 10)) ^ 10 = 10 ^ (digits.log2 * 3 / 10 * 10) := (pow_mul _ _ _).symm
    _ ≤ 10 ^ (3 * digits.log2) := Nat.pow_le_pow_right (by decide) (by omega)
    _ = (10 ^ 3) ^ digits.log2 := pow_mul _ _ _
    _ ≤ (2 ^ 10) ^ digits.log2 := Nat.pow_le_pow_left (by decide) _
    _ = (2 ^ digits.log2) ^ 10 := pow_right_comm _ _ _

theorem lt_pow_log2 (digits : Nat) : digits < 10 ^ (digits.log2 / 3 + 1) := by
  calc digits < 2 ^ (digits.log2 + 1) := Nat.lt_log2_self
    _ ≤ 2 ^ (3 * (digits.log2 / 3 + 1)) := Nat.pow_le_pow_right (by decide) (by omega)
    _ = (2 ^ 3) ^ (digits.log2 / 3 + 1) := pow_mul _ _ _
    _ ≤ 10 ^ (digits.log2 / 3 + 1) := Nat.pow_le_pow_left (by decide) _

/-- A decimal that rounds to a positive double is not below the least one. -/
theorem Attracts.least_le (h : d.Attracts (digits * 10 ^ exponent)) (hpos : d.magnitude ≠ 0) :
    -330 ≤ (digits.log2 / 3 + 1 : Nat) + exponent := by
  by_contra hlt
  have hten : (10 : ℚ) ≠ 0 := by norm_num
  have hpow : (0 : ℚ) < 10 ^ exponent := zpow_pos (by norm_num) exponent
  have hle : (digits : ℚ) ≤ 10 ^ (digits.log2 / 3 + 1) := by
    exact_mod_cast (lt_pow_log2 digits).le
  have hvalue : (digits : ℚ) * 10 ^ exponent * 10 ^ 331 ≤ 1 := by
    calc (digits : ℚ) * 10 ^ exponent * 10 ^ 331
        ≤ 10 ^ (digits.log2 / 3 + 1) * 10 ^ exponent * 10 ^ 331 := by gcongr
      _ = 10 ^ ((digits.log2 / 3 + 1 : Nat) + exponent + (331 : Nat)) := by
          rw [zpow_add₀ hten, zpow_add₀ hten, zpow_natCast, zpow_natCast]
      _ ≤ 1 := zpow_le_one_of_nonpos₀ (by norm_num) (by omega)
  have hone : (2 * one : ℚ) < 10 ^ 331 := by
    exact_mod_cast (by unfold one; decide +kernel : 2 * one < 10 ^ 331)
  have hhalf : 1 ≤ (digits : ℚ) * 10 ^ exponent * (2 * one) := by
    rw [mul_left_comm]
    exact h.half_le hpos
  have hdecimal : (0 : ℚ) < digits * 10 ^ exponent :=
    mul_pos (Nat.cast_pos.mpr (h.digits_pos hpos)) hpow
  have hless := mul_lt_mul_of_pos_left hone hdecimal
  exact absurd (hless.trans_le hvalue) (not_lt.mpr hhalf)

/-- A decimal that rounds to a finite double is not beyond the greatest one. -/
theorem Attracts.le_most (h : d.Attracts (digits * 10 ^ exponent)) (hfinite : d.isFinite = true)
    (hpos : d.magnitude ≠ 0) : (digits.log2 * 3 / 10 : Nat) + exponent ≤ 310 := by
  by_contra hlt
  have hten : (10 : ℚ) ≠ 0 := by norm_num
  have hpow : (0 : ℚ) < 10 ^ exponent := zpow_pos (by norm_num) exponent
  have hle : (10 : ℚ) ^ (digits.log2 * 3 / 10) ≤ digits := by
    exact_mod_cast pow_log2_le (h.digits_pos hpos).ne'
  have hvalue : (10 : ℚ) ^ 311 ≤ digits * 10 ^ exponent := by
    calc (10 : ℚ) ^ 311 = 10 ^ ((311 : Nat) : Int) := (zpow_natCast _ _).symm
      _ ≤ 10 ^ ((digits.log2 * 3 / 10 : Nat) + exponent) :=
          zpow_le_zpow_right₀ (by norm_num) (by omega)
      _ = 10 ^ (digits.log2 * 3 / 10) * 10 ^ exponent := by rw [zpow_add₀ hten, zpow_natCast]
      _ ≤ digits * 10 ^ exponent := by gcongr
  have hbeyond : ((Nat.pow 2 1024 : Nat) : ℚ) < 10 ^ 311 := by
    exact_mod_cast (by decide +kernel : Nat.pow 2 1024 < 10 ^ 311)
  exact absurd (hvalue.trans (h.le_two_pow hfinite)) (not_le.mpr hbeyond)

/-- A decimal rounds to the positive double that attracts it. -/
theorem ofDecimal_eq (negative : Bool) (hfinite : d.isFinite = true) (hpos : d.magnitude ≠ 0)
    (h : d.Attracts (digits * 10 ^ exponent)) :
    ofDecimal negative digits exponent = ofMagnitude negative d.magnitude := by
  have hzero : ¬ (digits = 0 ∨ (digits.log2 / 3 + 1 : Nat) + exponent < -330) :=
    not_or.mpr ⟨(h.digits_pos hpos).ne', not_lt.mpr (h.least_le hpos)⟩
  unfold ofDecimal
  dsimp only
  rw [if_neg hzero, if_neg (not_lt.mpr (h.le_most hfinite hpos))]
  split
  · next hexponent =>
    obtain ⟨n, rfl⟩ := Int.eq_ofNat_of_zero_le hexponent
    refine ofRatio_eq negative hfinite Nat.one_pos ?_
    simpa using h
  · next hexponent =>
    obtain ⟨n, rfl⟩ : ∃ n : Nat, exponent = -n := ⟨(-exponent).toNat, by omega⟩
    refine ofRatio_eq negative hfinite (Nat.pow_pos (by decide)) ?_
    simpa [div_eq_mul_inv] using h

end Decimals

/-! ## Rounding whole numbers -/

theorem isFinite_of_lt (negative : Bool) {magnitude : Nat} (h : magnitude < infinityMagnitude) :
    (if magnitude < infinityMagnitude then ofMagnitude negative magnitude
      else infinity negative).isFinite = true := by
  have hbound : infinityMagnitude ≤ 2 ^ 63 := by decide
  have hmagnitude : (ofMagnitude negative magnitude).magnitude = magnitude := by
    simp only [ofMagnitude, Double.magnitude, UInt64.toNat_ofNat', Nat.pow_eq]
    cases negative <;> simp <;> omega
  rw [if_pos h, isFinite, hmagnitude]
  exact decide_eq_true h

theorem log2_mul_one_le {m : Nat} (h : m < 2 ^ 65) : (m * one).log2 ≤ 64 + 1074 := by
  obtain ⟨k, hk⟩ : ∃ k, k = 1074 := ⟨_, rfl⟩
  by_cases hzero : m * one = 0
  · rw [hzero]
    exact Nat.zero_le _
  · refine Nat.lt_succ_iff.mp ((Nat.log2_lt hzero).mpr ?_)
    rw [one_eq hk, ← hk, show (64 + k).succ = 65 + k by omega, Nat.pow_add]
    exact Nat.mul_lt_mul_of_pos_right h (Nat.two_pow_pos k)

theorem magnitude_lt {units : Nat} (h : units.log2 ≤ 64 + 1074) :
    (units.log2 - 52) * Nat.pow 2 52 + roundHalfEven units (Nat.pow 2 (units.log2 - 52)) <
      infinityMagnitude := by
  have hround : units / Nat.pow 2 (units.log2 - 52) < 2 ^ 53 := by
    refine Nat.div_lt_of_lt_mul (Nat.lt_log2_self.trans_le ?_)
    rw [Nat.pow_eq, ← Nat.pow_add]
    exact Nat.pow_le_pow_right (by decide) (by omega)
  calc (units.log2 - 52) * Nat.pow 2 52 + roundHalfEven units (Nat.pow 2 (units.log2 - 52))
    _ ≤ 1086 * Nat.pow 2 52 + 2 ^ 53 :=
      Nat.add_le_add (Nat.mul_le_mul_right _ (Nat.sub_le_sub_right h 52))
        ((roundHalfEven_le _ _).trans hround)
    _ < infinityMagnitude := by decide

/-- The double nearest to a whole number of 64 bits is finite. -/
theorem isFinite_ofInt {n : Int} (h : n.natAbs < 2 ^ 65) : (ofInt n).isFinite = true := by
  have hlog := log2_mul_one_le h
  generalize hunits : n.natAbs * one = units at hlog
  have hvalue : ofInt n =
      if (units.log2 - 52) * Nat.pow 2 52 + roundHalfEven units (Nat.pow 2 (units.log2 - 52)) <
        infinityMagnitude then
        ofMagnitude (n < 0)
          ((units.log2 - 52) * Nat.pow 2 52 + roundHalfEven units (Nat.pow 2 (units.log2 - 52)))
      else infinity (n < 0) := by
    unfold one at hunits
    subst hunits
    rw [ofInt, ofRatio, Nat.div_one, Nat.one_mul]
  rw [hvalue]
  exact isFinite_of_lt _ (magnitude_lt hlog)

end FeatureFlags.Double
