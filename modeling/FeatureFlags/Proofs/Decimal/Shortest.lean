import FeatureFlags.Proofs.Decimal.Rounding
import Mathlib.Tactic.Ring

/-!
# The shortest decimal reads back

`Double.shortest_attracts`: the decimal that is chosen for a positive double is one that rounds to
the double.

The search looks at finer and finer grids of decimals. What it finds on a grid rounds to the double
(`Grid.reads_of_nearest?`), and on the seventeenth grid it finds something: there the grid is finer
than the stretch that rounds to the double is wide (`step_lt_width`), so one of the two neighbours
of the double on the grid lies in it (`Grid.isSome_nearest?`).
-/

namespace FeatureFlags.Double

namespace Grid

variable {g : Grid} {tie : Tie} {n : Nat}

/-- What is taken from a grid rounds to the double. -/
theorem reads_of_nearest? (h : g.nearest? tie = some n) : g.reads n = true := by
  unfold nearest? at h
  dsimp only at h
  generalize g.value / g.step = q at h
  split at h
  · next hbelow habove =>
    split at h
    · cases h
      exact hbelow
    · split at h
      · cases h
        exact habove
      · cases tie with
        | even =>
          cases h
          rcases Nat.mod_two_eq_zero_or_one q with hq | hq
          · rwa [hq]
          · rwa [hq]
        | up =>
          cases h
          exact habove
  · next hbelow _ =>
    cases h
    exact hbelow
  · next _ habove =>
    cases h
    exact habove
  · cases h

theorem le_low_of_not_reads (h : g.reads n = false) (hhigh : n * g.step < g.high) :
    n * g.step ≤ g.low := by
  unfold reads at h
  cases hclosed : g.closed <;> simp [hclosed] at h <;> omega

theorem high_le_of_not_reads (h : g.reads n = false) (hlow : g.low < n * g.step) :
    g.high ≤ n * g.step := by
  unfold reads at h
  cases hclosed : g.closed <;> simp [hclosed] at h <;> omega

/-- A grid that is finer than the stretch around the double has a point in it. -/
theorem isSome_nearest? (hstep : 0 < g.step) (hlow : g.low < g.value) (hhigh : g.value < g.high)
    (hfine : g.step + g.low < g.high) (tie : Tie) : (g.nearest? tie).isSome = true := by
  have hdiv : g.step * (g.value / g.step) + g.value % g.step = g.value := Nat.div_add_mod _ _
  have hmod : g.value % g.step < g.step := Nat.mod_lt _ hstep
  unfold nearest?
  dsimp only
  generalize hq : g.value / g.step = q at *
  have hnext : (q + 1) * g.step = g.step * q + g.step := by
    rw [Nat.add_mul, Nat.one_mul, Nat.mul_comm]
  split
  · split
    · rfl
    · split
      · rfl
      · cases tie <;> rfl
  · rfl
  · rfl
  · next hbelow habove =>
    -- the neighbours would lie on both sides of the stretch
    have hle := le_low_of_not_reads hbelow (by rw [Nat.mul_comm]; omega)
    have hge := high_le_of_not_reads habove (by omega)
    rw [Nat.mul_comm] at hle
    omega

end Grid

variable {d : Double} {n : Nat} {exponent : Int}

/-! ## The grids of a double -/

theorem step_grid (d : Double) (exponent : Int) :
    (d.grid exponent).step = 4 * one * Nat.pow 10 exponent.toNat := by
  unfold one grid
  rfl

theorem low_grid (d : Double) (exponent : Int) :
    (d.grid exponent).low = (4 * d.units - d.gapBelow) * 10 ^ (-exponent).toNat := rfl

theorem high_grid (d : Double) (exponent : Int) :
    (d.grid exponent).high = (4 * d.units + d.gapAbove) * 10 ^ (-exponent).toNat := rfl

theorem closed_grid (d : Double) (exponent : Int) :
    (d.grid exponent).closed = decide (d.significand % 2 = 0) := rfl

theorem gapBelow_le_units (hpos : d.magnitude ≠ 0) : d.gapBelow ≤ 4 * d.units := by
  have hgap := d.gapBelow_le
  have hunits : Nat.pow 2 d.scale ≤ d.units := Nat.le_mul_of_pos_left _ (significand_pos hpos)
  omega

/-- A power of ten as a ratio of natural numbers. -/
theorem zpow_eq_div (exponent : Int) :
    (10 : ℚ) ^ exponent = (10 ^ exponent.toNat : Nat) / (10 ^ (-exponent).toNat : Nat) := by
  rcases Int.eq_nat_or_neg exponent with ⟨n, rfl | rfl⟩
  · simp
  · simp

/-- A point of a grid rounds to the double if the double attracts it. -/
theorem reads_grid_iff (hpos : d.magnitude ≠ 0) :
    (d.grid exponent).reads n = true ↔ d.Attracts (n * 10 ^ exponent) := by
  have hdown : 0 < 10 ^ (-exponent).toNat := Nat.pow_pos (by decide)
  have hvalue : (n : ℚ) * 10 ^ exponent =
      (n * 10 ^ exponent.toNat : Nat) / (10 ^ (-exponent).toNat : Nat) := by
    rw [zpow_eq_div, Nat.cast_mul, mul_div_assoc]
  have hpoint : n * (4 * one * 10 ^ exponent.toNat) = 4 * (n * 10 ^ exponent.toNat * one) := by
    ring
  have hgap := Nat.mul_le_mul_right (10 ^ (-exponent).toNat) (gapBelow_le_units hpos)
  rw [hvalue, attracts_div_iff hdown, Grid.reads, step_grid, Nat.pow_eq, low_grid, high_grid,
    closed_grid, hpoint, Nat.sub_mul]
  generalize 4 * (n * 10 ^ exponent.toNat * one) = x
  generalize 4 * d.units * 10 ^ (-exponent).toNat = centre at *
  generalize d.gapBelow * 10 ^ (-exponent).toNat = below at *
  generalize (4 * d.units + d.gapAbove) * 10 ^ (-exponent).toNat = high
  rcases Nat.mod_two_eq_zero_or_one d.significand with heven | hodd
  · simp [heven]
  · simp [hodd]
    omega

/-! ## Finding a point -/

theorem pow_length_toDigits_le {whole : Nat} (hwhole : 0 < whole) :
    10 ^ ((Nat.toDigits 10 whole).length - 1) ≤ whole := by
  by_cases hlength : (Nat.toDigits 10 whole).length - 1 = 0
  · rwa [hlength]
  · have hiff := Nat.length_toDigits_le_iff (n := whole) (by decide : 1 < 10)
      (Nat.pos_of_ne_zero hlength)
    exact Nat.not_lt.mp fun hlt => by
      have hle := hiff.mpr hlt
      omega

/-- The power of ten of the leading digit is not above the double. -/
theorem zpow_decimalExponent_le (hpos : d.magnitude ≠ 0) :
    (10 : ℚ) ^ d.decimalExponent * one ≤ d.units := by
  have hunits : 0 < d.units := Nat.mul_pos (significand_pos hpos) (Nat.two_pow_pos _)
  have hexponent : d.decimalExponent =
      if 0 < d.units / one then ((Nat.toDigits 10 (d.units / one)).length : Int) - 1
      else -(((List.range 330).find? fun j => one ≤ d.units * Nat.pow 10 j).getD 0 : Nat) := by
    unfold one
    rw [decimalExponent]
  rw [hexponent]
  split
  · next hwhole =>
    have hlength : 0 < (Nat.toDigits 10 (d.units / one)).length := Nat.length_toDigits_pos
    obtain ⟨n, hn⟩ : ∃ n, (Nat.toDigits 10 (d.units / one)).length = n + 1 :=
      ⟨_, (Nat.sub_add_cancel hlength).symm⟩
    have hle : 10 ^ n * one ≤ d.units := by
      have hdigits := pow_length_toDigits_le hwhole
      rw [hn, Nat.add_sub_cancel] at hdigits
      exact (Nat.mul_le_mul_right one hdigits).trans (Nat.div_mul_le_self _ _)
    rw [hn, Nat.cast_add_one, add_sub_cancel_right, zpow_natCast]
    exact_mod_cast hle
  · obtain ⟨j, hj⟩ : ∃ j,
        (List.range 330).find? (fun j => one ≤ d.units * Nat.pow 10 j) = some j := by
      rw [← Option.isSome_iff_exists, List.find?_isSome]
      have hone : one ≤ Nat.pow 10 329 := by
        unfold one
        decide +kernel
      exact ⟨329, by decide, decide_eq_true (hone.trans (Nat.le_mul_of_pos_left _ hunits))⟩
    have hle := List.find?_some hj
    rw [decide_eq_true_eq, Nat.pow_eq] at hle
    have hcast : (one : ℚ) ≤ d.units * 10 ^ j := by exact_mod_cast hle
    rw [hj, Option.getD_some, zpow_neg, zpow_natCast, inv_mul_le_iff₀ (by positivity), mul_comm]
    exact hcast

/-- The stretch that rounds to a double is more than a part in 10^16 of it. -/
theorem units_lt (d : Double) : 4 * d.units < 10 ^ 16 * (d.gapAbove + d.gapBelow) := by
  have hstep : 0 < Nat.pow 2 d.scale := Nat.two_pow_pos _
  unfold units gapAbove gapBelow
  split
  · next hleast =>
    have hlead : Nat.pow 2 52 = 2 ^ 52 := rfl
    rw [hleast.1, hlead]
    omega
  · have hbits := Nat.mul_lt_mul_of_pos_right d.significand_lt hstep
    have hbound : Nat.pow 2 53 = 2 ^ 53 := rfl
    rw [hbound] at hbits
    omega

/-- On the seventeenth grid a step is shorter than the stretch that rounds to the double. -/
theorem step_lt_width (hpos : d.magnitude ≠ 0) (hexponent : exponent + 16 = d.decimalExponent) :
    (d.grid exponent).step + (d.grid exponent).low < (d.grid exponent).high := by
  have hdown : 0 < 10 ^ (-exponent).toNat := Nat.pow_pos (by decide)
  have hlead : 10 ^ exponent.toNat * 10 ^ 16 * one ≤ d.units * 10 ^ (-exponent).toNat := by
    have hcast : (0 : ℚ) < (10 ^ (-exponent).toNat : Nat) := Nat.cast_pos.mpr hdown
    have hle := zpow_decimalExponent_le hpos
    rw [← hexponent, zpow_add₀ (by norm_num), zpow_eq_div, div_mul_eq_mul_div, div_mul_eq_mul_div,
      div_le_iff₀ hcast] at hle
    exact_mod_cast hle
  have hgap := Nat.mul_le_mul_right (10 ^ (-exponent).toNat) (gapBelow_le_units hpos)
  have hunits := Nat.mul_lt_mul_of_pos_right d.units_lt hdown
  rw [step_grid, Nat.pow_eq, low_grid, high_grid, Nat.sub_mul]
  have hshort : 4 * one * 10 ^ exponent.toNat <
      (d.gapAbove + d.gapBelow) * 10 ^ (-exponent).toNat := by
    refine Nat.lt_of_mul_lt_mul_left (a := 10 ^ 16) ?_
    linarith
  rw [Nat.add_mul] at hshort ⊢
  omega

/-- Seventeen digits suffice. -/
theorem isSome_nearest?_grid (hpos : d.magnitude ≠ 0)
    (hexponent : exponent + 16 = d.decimalExponent) (tie : Tie) :
    ((d.grid exponent).nearest? tie).isSome = true := by
  have hdown : 0 < 10 ^ (-exponent).toNat := Nat.pow_pos (by decide)
  have hunits : 0 < d.units := Nat.mul_pos (significand_pos hpos) (Nat.two_pow_pos _)
  have hbelow : 0 < d.gapBelow := by
    have hstep : 0 < Nat.pow 2 d.scale := Nat.two_pow_pos _
    unfold gapBelow
    split <;> omega
  have habove : 0 < d.gapAbove := Nat.mul_pos (by decide) (Nat.two_pow_pos _)
  refine Grid.isSome_nearest? ?_ ?_ ?_ (step_lt_width hpos hexponent) tie
  · rw [step_grid]
    exact Nat.mul_pos (Nat.mul_pos (by decide) one_pos) (Nat.pow_pos (by decide))
  · exact Nat.mul_lt_mul_of_pos_right (by omega) hdown
  · exact Nat.mul_lt_mul_of_pos_right (by omega) hdown

/-- Taking zeros off the end keeps the value. -/
theorem stripZeros_value (fuel : Nat) (x : Decimal) :
    ((stripZeros fuel x).digits : ℚ) * 10 ^ (stripZeros fuel x).exponent =
      x.digits * 10 ^ x.exponent := by
  induction fuel generalizing x with
  | zero => rfl
  | succ fuel ih =>
    unfold stripZeros
    split
    · next h =>
      have hdigits : x.digits = x.digits / 10 * 10 := by omega
      rw [ih]
      show ((x.digits / 10 : Nat) : ℚ) * 10 ^ (x.exponent + 1) = _
      conv_rhs => rw [hdigits]
      rw [zpow_add_one₀ (by norm_num), Nat.cast_mul]
      ring
    · rfl

/-- The decimal that is chosen for a positive double rounds to the double. -/
theorem shortest_attracts (hpos : d.magnitude ≠ 0) (tie : Tie) :
    d.Attracts ((d.shortest tie).digits * 10 ^ (d.shortest tie).exponent) := by
  unfold shortest
  rw [stripZeros_value]
  generalize hfound : List.findSome? _ _ = found
  cases found with
  | none =>
    rw [List.findSome?_eq_none_iff] at hfound
    have hnone : (d.grid (d.decimalExponent - 16)).nearest? tie = none :=
      Option.map_eq_none_iff.mp (hfound 16 (by decide))
    have hsome := isSome_nearest?_grid hpos (Int.sub_add_cancel d.decimalExponent 16) tie
    rw [hnone] at hsome
    cases hsome
  | some x =>
    obtain ⟨i, -, h⟩ := List.exists_of_findSome?_eq_some hfound
    obtain ⟨n, hn, rfl⟩ := Option.map_eq_some_iff.mp h
    exact (reads_grid_iff hpos).mp (Grid.reads_of_nearest? hn)

end FeatureFlags.Double
