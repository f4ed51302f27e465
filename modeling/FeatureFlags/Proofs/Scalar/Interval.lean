import FeatureFlags.Proofs.Fallible
import FeatureFlags.Proofs.Scalar.Kinds
import FeatureFlags.Proofs.Scalar.Order
import FeatureFlags.Scalar.Interval

/-!
# What lies between bounds

- `Bound.Admits`: what a bound lets through on its side. A value is let through as the bound that it
  sets itself (`Bound.point`), so that membership in an interval (`Interval.Has`) and room between
  bounds (`Interval.Meets`) are one relation.
- `Interval.contains_eq_ok_iff`, `Interval.overlaps_eq_ok_iff`: both computations succeed exactly
  for values of one kind, and tell membership and room.
- `Interval.Has.meets`: intervals with a common value leave room for each other.

The tighter of two bounds lets through what both let through (`Interval.tighter_admits_iff`),
whichever of them is taken where their values are the same. This is shown for both sides at once.
-/

namespace FeatureFlags

open Std

namespace Bound

/-- The bound that a value sets on either side of itself. -/
def point (x : Scalar) : Bound := { value := x, inclusive := true }

/-- Whether a bound lets another one through on its side, which is `.gt` for lower bounds and `.lt`
for upper ones: the other lies on that side, or both have one value and include it. -/
def Admits (side : Ordering) (b other : Bound) : Prop :=
  other.value.order b.value = side ∨
    other.value.order b.value = .eq ∧ b.inclusive = true ∧ other.inclusive = true

variable {side : Ordering} {a b l u : Bound} {x y : Scalar}

theorem admits_swap : l.Admits .gt u ↔ u.Admits .lt l := by
  unfold Admits
  rw [OrientedCmp.gt_iff_lt, OrientedCmp.eq_comm, and_comm (a := l.inclusive = true)]

/-- What lies between two bounds makes room between them. -/
theorem Admits.through (hl : l.Admits .gt (point x)) (hu : u.Admits .lt (point x)) :
    u.Admits .lt l := by
  rw [admits_swap] at hl
  unfold Admits at hl hu ⊢
  rcases hl with hl | ⟨hl, -, hincluded⟩ <;> rcases hu with hu | ⟨hu, hincluded', -⟩
  · exact .inl (TransCmp.lt_trans hl hu)
  · exact .inl (TransCmp.lt_of_lt_of_eq hl hu)
  · exact .inl (TransCmp.lt_of_eq_of_lt hl hu)
  · exact .inr ⟨TransCmp.eq_trans hl hu, hincluded', hincluded⟩

/-- What a bound lets through, a bound to the other side of it lets through as well. -/
theorem Admits.mono (hside : side ≠ .eq) (hb : a.value.order b.value = side)
    (h : a.Admits side u) : b.Admits side u := by
  left
  cases side with
  | eq => exact absurd rfl hside
  | lt =>
    rcases h with h | ⟨h, -⟩
    · exact TransCmp.lt_trans h hb
    · exact TransCmp.lt_of_eq_of_lt h hb
  | gt =>
    rcases h with h | ⟨h, -⟩
    · exact TransCmp.gt_trans h hb
    · exact TransCmp.gt_of_eq_of_gt h hb

/-- Of two bounds with one value, the one that includes it only if both do lets through what both
let through. -/
theorem admits_and_iff (h : a.value.order b.value = .eq) :
    Admits side { value := a.value, inclusive := a.inclusive && b.inclusive } u ↔
      a.Admits side u ∧ b.Admits side u := by
  have hsame : u.value.order a.value = u.value.order b.value := TransCmp.congr_right h
  unfold Admits
  rw [← hsame, ← or_and_left, Bool.and_eq_true]
  grind

/-- A value sets a bound that lets through values that are the same and those on its side. -/
theorem point_admits_point_iff :
    (point y).Admits side (point x) ↔ x.order y = side ∨ x.order y = .eq := by
  simp [Admits, point]

end Bound

namespace Interval

/-- The value lies between the bounds. -/
def Has (i : Interval) (x : Scalar) : Prop :=
  (∀ l ∈ i.lower, l.Admits .gt (.point x)) ∧ ∀ u ∈ i.upper, u.Admits .lt (.point x)

/-- Every lower bound of the two intervals leaves room below every upper one. -/
def Meets (i j : Interval) : Prop :=
  ∀ l, l ∈ i.lower ∨ l ∈ j.lower → ∀ u, u ∈ i.upper ∨ u ∈ j.upper → u.Admits .lt l

variable {i j : Interval} {x y : Scalar} {result : Bool}

theorem Meets.symm (h : i.Meets j) : j.Meets i :=
  fun l hl u hu => h l hl.symm u hu.symm

/-- Intervals with a common value leave room for each other. -/
theorem Has.meets (hi : i.Has x) (hj : j.Has x) : i.Meets j := by
  intro l hl u hu
  have hlower : l.Admits .gt (.point x) := hl.elim (hi.1 l) (hj.1 l)
  have hupper : u.Admits .lt (.point x) := hu.elim (hi.2 u) (hj.2 u)
  exact hlower.through hupper

/-! ## Membership -/

theorem mem_endpoints_iff : x ∈ i.endpoints ↔ ∃ b, (b ∈ i.lower ∨ b ∈ i.upper) ∧ b.value = x := by
  unfold endpoints
  rw [List.mem_map]
  simp only [List.mem_append, Option.mem_toList, Option.mem_def]

theorem keeps_eq {admits : Bound → Ordering → Bool} {bound : Option Bound}
    (hkind : ∀ b ∈ bound, x.kind = b.value.kind) :
    keeps admits x bound = .ok (bound.all fun b => admits b (x.order b.value)) := by
  cases bound with
  | none => rfl
  | some b =>
    have horder : Scalar.compareOfKind x b.value = .ok (x.order b.value) :=
      Scalar.compareOfKind_eq_ok_iff.mpr ⟨hkind b rfl, rfl⟩
    rw [keeps, horder]
    rfl

theorem admitsBelow_iff {b : Bound} :
    admitsBelow b (x.order b.value) = true ↔ b.Admits .gt (.point x) := by
  show _ ↔ x.order b.value = .gt ∨ x.order b.value = .eq ∧ b.inclusive = true ∧ true = true
  unfold admitsBelow
  cases b.inclusive <;> cases x.order b.value <;> decide

theorem admitsAbove_iff {b : Bound} :
    admitsAbove b (x.order b.value) = true ↔ b.Admits .lt (.point x) := by
  show _ ↔ x.order b.value = .lt ∨ x.order b.value = .eq ∧ b.inclusive = true ∧ true = true
  unfold admitsAbove
  cases b.inclusive <;> cases x.order b.value <;> decide

/-- Membership is told exactly where the value and the bounds are of one kind. -/
theorem contains_eq_ok_iff :
    i.contains x = .ok result ↔ Scalar.OneKind (x :: i.endpoints) ∧ (result = true ↔ i.Has x) := by
  unfold contains
  rw [Scalar.withUniformKind_eq_ok_iff]
  refine and_congr_right fun hone => ?_
  have hkind : ∀ b, b ∈ i.lower ∨ b ∈ i.upper → x.kind = b.value.kind := by
    intro b hb
    exact (Scalar.oneKind_cons_iff.mp hone _ (mem_endpoints_iff.mpr ⟨b, hb, rfl⟩)).symm
  rw [keeps_eq fun l hl => hkind l (.inl hl), keeps_eq fun u hu => hkind u (.inr hu)]
  show Except.ok (_ && _) = Except.ok result ↔ _
  rw [Except.ok.injEq, Bool.eq_iff_iff, Bool.and_eq_true, Option.all_eq_true, Option.all_eq_true,
    Has]
  simp only [admitsBelow_iff, admitsAbove_iff, Option.mem_def]
  exact iff_comm

/-! ## Tighter bounds -/

section Tighter

variable {side : Ordering} {a b t : Option Bound}

theorem exists_tighter (side : Ordering)
    (hkind : ∀ x ∈ a, ∀ y ∈ b, x.value.kind = y.value.kind) : ∃ t, tighter side a b = .ok t := by
  cases a with
  | none => exact ⟨b, rfl⟩
  | some x =>
    cases b with
    | none => exact ⟨some x, rfl⟩
    | some y =>
      have horder : Scalar.compareOfKind x.value y.value = .ok (x.value.order y.value) :=
        Scalar.compareOfKind_eq_ok_iff.mpr ⟨hkind x rfl y rfl, rfl⟩
      rw [tighter, horder]
      exact ⟨_, rfl⟩

/-- The tighter bound has the value of one of the two. -/
theorem exists_value_of_tighter (h : tighter side a b = .ok t) :
    ∀ s ∈ t, ∃ s', (s' ∈ a ∨ s' ∈ b) ∧ s'.value = s.value := by
  intro s hs
  cases a with
  | none =>
    cases h
    exact ⟨s, .inr hs, rfl⟩
  | some x =>
    cases b with
    | none =>
      cases h
      exact ⟨s, .inl hs, rfl⟩
    | some y =>
      obtain ⟨order, -, rfl⟩ := map_eq_ok_iff.mp h
      split at hs
      · cases hs
        exact ⟨x, .inl rfl, rfl⟩
      · split at hs
        · exact ⟨s, .inl hs, rfl⟩
        · exact ⟨s, .inr hs, rfl⟩

/-- The tighter bound lets through what both bounds let through. -/
theorem tighter_admits_iff (hside : side ≠ .eq) (h : tighter side a b = .ok t) (other : Bound) :
    (∀ s ∈ t, s.Admits side other) ↔ ∀ s, s ∈ a ∨ s ∈ b → s.Admits side other := by
  simp only [or_imp, forall_and]
  cases a with
  | none =>
    cases h
    simp
  | some x =>
    cases b with
    | none =>
      cases h
      simp
    | some y =>
      obtain ⟨order, horder, rfl⟩ := map_eq_ok_iff.mp h
      obtain ⟨-, rfl⟩ := Scalar.compareOfKind_eq_ok_iff.mp horder
      split
      · next heq => simpa using Bound.admits_and_iff heq
      · next hne =>
        split
        · next htight => simpa using fun hx => Bound.Admits.mono hside htight hx
        · next hloose =>
          -- the second bound lies on the side of the first
          have htight : y.value.order x.value = side := by
            have hswap : y.value.order x.value = (x.value.order y.value).swap :=
              OrientedCmp.eq_swap
            rw [hswap]
            cases hxy : x.value.order y.value <;> cases side <;> simp_all
          simpa using fun hy => Bound.Admits.mono hside htight hy

end Tighter

/-! ## Room between bounds -/

/-- An interval is empty if its bounds leave no room. -/
theorem isEmpty_eq_ok_iff (hkind : ∀ l ∈ i.lower, ∀ u ∈ i.upper, l.value.kind = u.value.kind) :
    i.isEmpty = .ok result ↔ (result = false ↔ ∀ l ∈ i.lower, ∀ u ∈ i.upper, u.Admits .lt l) := by
  unfold isEmpty
  split
  · next l u hl hu =>
    have horder : Scalar.compareOfKind l.value u.value = .ok (l.value.order u.value) :=
      Scalar.compareOfKind_eq_ok_iff.mpr ⟨hkind l hl u hu, rfl⟩
    rw [horder, hl, hu, Except.map, Except.ok.injEq]
    simp only [Option.mem_some_iff, forall_eq', Bound.Admits]
    cases l.value.order u.value <;> cases l.inclusive <;> cases u.inclusive <;>
      cases result <;> decide
  · next hopen =>
    have hroom : ∀ l ∈ i.lower, ∀ u ∈ i.upper, u.Admits .lt l :=
      fun l hl u hu => absurd hu (hopen l u hl)
    rw [Except.ok.injEq, iff_true_right hroom, eq_comm]

variable {both : Interval}

theorem exists_inter_iff :
    (∃ both, i.inter j = .ok both) ↔ Scalar.OneKind (i.endpoints ++ j.endpoints) := by
  simp only [inter, Scalar.withUniformKind_eq_ok_iff, exists_and_left]
  refine and_iff_left_of_imp fun hone => ?_
  have hkind : ∀ b, b ∈ i.lower ∨ b ∈ i.upper → ∀ c, c ∈ j.lower ∨ c ∈ j.upper →
      b.value.kind = c.value.kind := fun b hb c hc =>
    hone _ (List.mem_append_left _ (mem_endpoints_iff.mpr ⟨b, hb, rfl⟩))
      _ (List.mem_append_right _ (mem_endpoints_iff.mpr ⟨c, hc, rfl⟩))
  obtain ⟨lower, hlower⟩ :=
    exists_tighter .gt fun b hb c hc => hkind b (.inl hb) c (.inl hc)
  obtain ⟨upper, hupper⟩ :=
    exists_tighter .lt fun b hb c hc => hkind b (.inr hb) c (.inr hc)
  exact ⟨{ lower, upper }, by rw [hlower, hupper]; rfl⟩

theorem eq_tighter_of_inter (h : i.inter j = .ok both) :
    tighter .gt i.lower j.lower = .ok both.lower ∧
      tighter .lt i.upper j.upper = .ok both.upper := by
  obtain ⟨-, hbody⟩ := Scalar.withUniformKind_eq_ok_iff.mp h
  obtain ⟨lower, hlower, hbody⟩ := bind_eq_ok_iff.mp hbody
  obtain ⟨upper, hupper, hbody⟩ := bind_eq_ok_iff.mp hbody
  cases hbody
  exact ⟨hlower, hupper⟩

/-- The bounds of the intersection leave room exactly if those of the two intervals do. -/
theorem meets_iff_of_inter (h : i.inter j = .ok both) :
    i.Meets j ↔ ∀ l ∈ both.lower, ∀ u ∈ both.upper, u.Admits .lt l := by
  obtain ⟨hlower, hupper⟩ := eq_tighter_of_inter h
  calc i.Meets j
      ↔ ∀ l, l ∈ i.lower ∨ l ∈ j.lower → ∀ u ∈ both.upper, u.Admits .lt l :=
        forall₂_congr fun l _ => (tighter_admits_iff (by decide) hupper l).symm
    _ ↔ ∀ u ∈ both.upper, ∀ l, l ∈ i.lower ∨ l ∈ j.lower → l.Admits .gt u := by
        simp only [Bound.admits_swap]
        exact ⟨fun h u hu l hl => h l hl u hu, fun h l hl u hu => h u hu l hl⟩
    _ ↔ ∀ u ∈ both.upper, ∀ l ∈ both.lower, l.Admits .gt u :=
        forall₂_congr fun u _ => (tighter_admits_iff (by decide) hlower u).symm
    _ ↔ ∀ l ∈ both.lower, ∀ u ∈ both.upper, u.Admits .lt l := by
        simp only [Bound.admits_swap]
        exact ⟨fun h l hl u hu => h u hu l hl, fun h u hu l hl => h l hl u hu⟩

/-- The bounds of the intersection have the values of bounds of the two intervals. -/
theorem endpoints_subset_of_inter (h : i.inter j = .ok both) :
    both.endpoints ⊆ i.endpoints ++ j.endpoints := by
  obtain ⟨hlower, hupper⟩ := eq_tighter_of_inter h
  intro x hx
  obtain ⟨b, hb, rfl⟩ := mem_endpoints_iff.mp hx
  have hfrom : ∃ b', ((b' ∈ i.lower ∨ b' ∈ i.upper) ∨ b' ∈ j.lower ∨ b' ∈ j.upper) ∧
      b'.value = b.value := by
    rcases hb with hb | hb
    · obtain ⟨b', hb', hvalue⟩ := exists_value_of_tighter hlower b hb
      exact ⟨b', hb'.imp .inl .inl, hvalue⟩
    · obtain ⟨b', hb', hvalue⟩ := exists_value_of_tighter hupper b hb
      exact ⟨b', hb'.imp .inr .inr, hvalue⟩
  obtain ⟨b', hb', hvalue⟩ := hfrom
  rw [List.mem_append, mem_endpoints_iff, mem_endpoints_iff]
  exact hb'.imp (fun h => ⟨b', h, hvalue⟩) fun h => ⟨b', h, hvalue⟩

theorem kind_eq_of_inter (h : i.inter j = .ok both) :
    ∀ l ∈ both.lower, ∀ u ∈ both.upper, l.value.kind = u.value.kind := by
  have hone : Scalar.OneKind both.endpoints :=
    (exists_inter_iff.mp ⟨both, h⟩).mono (endpoints_subset_of_inter h)
  intro l hl u hu
  exact hone _ (mem_endpoints_iff.mpr ⟨l, .inl hl, rfl⟩) _ (mem_endpoints_iff.mpr ⟨u, .inr hu, rfl⟩)

/-- Whether two intervals overlap is told exactly where their bounds are of one kind. -/
theorem overlaps_eq_ok_iff :
    i.overlaps j = .ok result ↔
      Scalar.OneKind (i.endpoints ++ j.endpoints) ∧ (result = true ↔ i.Meets j) := by
  unfold overlaps
  rw [bind_eq_ok_iff, ← exists_inter_iff, ← exists_and_right]
  refine exists_congr fun both => and_congr_right fun hinter => ?_
  have hempty : ∀ empty, both.isEmpty = .ok empty ↔ (empty = false ↔ i.Meets j) := fun empty => by
    rw [isEmpty_eq_ok_iff (kind_eq_of_inter hinter), meets_iff_of_inter hinter]
  rw [bind_eq_ok_iff]
  constructor
  · rintro ⟨empty, h, hresult⟩
    cases hresult
    simpa using (hempty empty).mp h
  · intro h
    refine ⟨!result, (hempty _).mpr (by simpa using h), ?_⟩
    show Except.ok (!!result) = _
    rw [Bool.not_not]

end Interval

end FeatureFlags
