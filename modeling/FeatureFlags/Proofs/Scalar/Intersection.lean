import FeatureFlags.Proofs.Scalar.Interval

/-!
# Intersections are exact

`Interval.inter_exact`: intervals whose bounds are of one kind can be intersected in either order,
both results contain just the values that both intervals contain, and an interval that is told to be
empty contains no value.

What a bound lets through is one relation for values and bounds, so the law of tighter bounds
(`Interval.tighter_admits_iff`) already says what becomes of a value (`Interval.has_inter_iff`). It
leaves open which of two bounds with one value is kept: two versions may be the same and be spelled
differently, so the intersections in the two orders need not be equal, only contain the same values.
-/

namespace FeatureFlags

namespace Interval

variable {i j both : Interval} {x : Scalar} {inside inside' result : Bool}

/-- The values in the intersection are those in both intervals. -/
theorem has_inter_iff (h : i.inter j = .ok both) : both.Has x ↔ i.Has x ∧ j.Has x := by
  obtain ⟨hlower, hupper⟩ := eq_tighter_of_inter h
  unfold Has
  rw [tighter_admits_iff (by decide) hlower, tighter_admits_iff (by decide) hupper]
  simp only [or_imp, forall_and]
  exact and_and_and_comm

/-- Membership is told of every value of the kind of the bounds. -/
theorem exists_contains (h : Scalar.OneKind (x :: i.endpoints)) :
    ∃ inside, i.contains x = .ok inside := by
  classical
  exact ⟨decide (i.Has x), contains_eq_ok_iff.mpr ⟨h, decide_eq_true_iff⟩⟩

/-- Membership in the intersection is told from what is told of the two intervals. -/
theorem contains_inter (h : i.inter j = .ok both)
    (hone : Scalar.OneKind (x :: (i.endpoints ++ j.endpoints)))
    (hi : i.contains x = .ok inside) (hj : j.contains x = .ok inside') :
    both.contains x = .ok (inside && inside') := by
  have hboth : Scalar.OneKind (x :: both.endpoints) :=
    hone.mono (List.cons_subset_cons x (endpoints_subset_of_inter h))
  refine contains_eq_ok_iff.mpr ⟨hboth, ?_⟩
  rw [Bool.and_eq_true, has_inter_iff h, (contains_eq_ok_iff.mp hi).2,
    (contains_eq_ok_iff.mp hj).2]

/-! ## Empty intervals -/

theorem kind_eq_of_isEmpty (h : i.isEmpty = .ok result) :
    ∀ l ∈ i.lower, ∀ u ∈ i.upper, l.value.kind = u.value.kind := by
  intro l hl u hu
  unfold isEmpty at h
  rw [hl, hu] at h
  obtain ⟨order, horder, -⟩ := map_eq_ok_iff.mp h
  exact (Scalar.compareOfKind_eq_ok_iff.mp horder).1

/-- A value in the interval makes room between its bounds. -/
theorem not_has_of_isEmpty (h : i.isEmpty = .ok true) : ¬ i.Has x := by
  intro hx
  have hroom : ∀ l ∈ i.lower, ∀ u ∈ i.upper, u.Admits .lt l :=
    fun l hl u hu => (hx.1 l hl).through (hx.2 u hu)
  cases ((isEmpty_eq_ok_iff (kind_eq_of_isEmpty h)).mp h).mpr hroom

theorem contains_of_isEmpty (h : i.isEmpty = .ok true) (hkind : i.kind = .ok (some x.kind)) :
    i.contains x = .ok false := by
  refine contains_eq_ok_iff.mpr ⟨Scalar.oneKind_cons_of_uniformKind hkind, ?_⟩
  simpa using not_has_of_isEmpty h

/-! ## Intersections -/

/-- **Intersection is exact.** Intervals whose bounds are of one kind have an intersection, in
either order, and of each value of that kind it is told to be in it exactly if it is in both. An
interval that is told to be empty is told to contain no value of its kind. -/
theorem inter_exact (h : Scalar.OneKind (i.endpoints ++ j.endpoints)) :
    (∃ both both', i.inter j = .ok both ∧ j.inter i = .ok both' ∧
      ∀ x, Scalar.OneKind (x :: (i.endpoints ++ j.endpoints)) →
        ∃ inside inside', i.contains x = .ok inside ∧ j.contains x = .ok inside' ∧
          both.contains x = .ok (inside && inside') ∧
          both'.contains x = .ok (inside && inside')) ∧
      ∀ k : Interval, k.isEmpty = .ok true →
        ∀ x, k.kind = .ok (some x.kind) → k.contains x = .ok false := by
  refine ⟨?_, fun k hempty x hkind => contains_of_isEmpty hempty hkind⟩
  obtain ⟨both, hboth⟩ := exists_inter_iff.mpr h
  obtain ⟨both', hboth'⟩ := exists_inter_iff.mpr (Scalar.oneKind_append_comm.mp h)
  refine ⟨both, both', hboth, hboth', fun x hx => ?_⟩
  have hi : Scalar.OneKind (x :: i.endpoints) :=
    hx.mono (List.cons_subset_cons x (List.subset_append_left _ _))
  have hj : Scalar.OneKind (x :: j.endpoints) :=
    hx.mono (List.cons_subset_cons x (List.subset_append_right _ _))
  have hx' : Scalar.OneKind (x :: (j.endpoints ++ i.endpoints)) :=
    hx.mono (List.cons_subset_cons x (List.append_subset.mpr
      ⟨List.subset_append_right _ _, List.subset_append_left _ _⟩))
  obtain ⟨inside, hinside⟩ := exists_contains hi
  obtain ⟨inside', hinside'⟩ := exists_contains hj
  refine ⟨inside, inside', hinside, hinside', contains_inter hboth hx hinside hinside', ?_⟩
  rw [Bool.and_comm]
  exact contains_inter hboth' hx' hinside' hinside

open Scalar (preRelease)

/-- From `1.0.0-1` on. -/
def fromFirst : Interval := { lower := some { value := preRelease "1", inclusive := true } }

/-- Behind the same version, which is spelled `1.0.0-01` here. -/
def behindFirst : Interval := { lower := some { value := preRelease "01", inclusive := false } }

/-- The intersections keep the spelling that they meet first. Neither contains the version, and both
contain the next one, as the intervals do. -/
theorem inter_respelled :
    Scalar.OneKind (fromFirst.endpoints ++ behindFirst.endpoints) ∧
      (∃ both both', fromFirst.inter behindFirst = .ok both ∧
        behindFirst.inter fromFirst = .ok both' ∧ both ≠ both' ∧
        (fromFirst.contains (preRelease "1") = .ok true ∧
          both.contains (preRelease "1") = .ok false ∧
          both'.contains (preRelease "1") = .ok false) ∧
        fromFirst.contains (preRelease "2") = .ok true ∧
        behindFirst.contains (preRelease "2") = .ok true ∧
        both.contains (preRelease "2") = .ok true ∧
        both'.contains (preRelease "2") = .ok true) ∧
      contains { lower := behindFirst.lower, upper := fromFirst.lower } (preRelease "1") =
        .ok false := by
  have hone : Scalar.OneKind (fromFirst.endpoints ++ behindFirst.endpoints) :=
    Scalar.oneKind_pair_iff.mpr rfl
  obtain ⟨⟨both, both', h, h', hvalues⟩, hempty⟩ := inter_exact hone
  have hversion (tag : String) : Scalar.OneKind
      (preRelease tag :: (fromFirst.endpoints ++ behindFirst.endpoints)) :=
    Scalar.oneKind_cons_iff.mpr (List.forall_mem_cons.mpr ⟨rfl, List.forall_mem_singleton.mpr rfl⟩)
  -- what the intersections say is known from what the intervals say
  have htold (tag : String) {inside inside' : Bool}
      (hin : fromFirst.contains (preRelease tag) = .ok inside)
      (hin' : behindFirst.contains (preRelease tag) = .ok inside') :
      both.contains (preRelease tag) = .ok (inside && inside') ∧
        both'.contains (preRelease tag) = .ok (inside && inside') := by
    obtain ⟨_, _, heq, heq', hboth⟩ := hvalues _ (hversion tag)
    cases heq.symm.trans hin
    cases heq'.symm.trans hin'
    exact hboth
  have hdiffer : both ≠ both' := by
    cases h
    cases h'
    decide
  exact ⟨hone, ⟨both, both', h, h', hdiffer, ⟨rfl, htold "1" rfl rfl⟩, rfl, rfl,
    htold "2" rfl rfl⟩, hempty _ rfl _ rfl⟩

end Interval

end FeatureFlags
