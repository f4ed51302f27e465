import FeatureFlags.Proofs.Scalar.Intersection
import FeatureFlags.Proofs.Scalar.Neighbours

/-!
# Overlaps without a common value

`Interval.exists_common_iff`: two intervals of a kind have a value in common exactly if they are
told to overlap and there is no gap (`Interval.Gap`). Overlaps are told from the bounds alone.
Bounds that leave room may still have no value between them: those that exclude two neighbours, a
lower one that excludes the greatest value, and an upper one that excludes the least.

A lower bound lets through what is not below its first value (`Bound.first?`), the bound itself or
the next value. So there is a common value if the greatest of the first values is one.
-/

namespace FeatureFlags

open Std

variable {kind : ScalarKind} {x first : Scalar}

namespace Bound

variable {l u : Bound}

/-- The first value that a lower bound lets through. -/
def first? (l : Bound) : Option Scalar := if l.inclusive then some l.value else l.value.next?

/-- The bounds exclude two neighbours. -/
structure Adjacent (l u : Bound) : Prop where
  lower : l.inclusive = false
  upper : u.inclusive = false
  next : ∃ next ∈ l.value.next?, u.value.sameAs next = true

theorem first?_of_inclusive (h : l.inclusive = true) : l.first? = some l.value := if_pos h

theorem first?_of_exclusive (h : l.inclusive = false) : l.first? = l.value.next? := by
  rw [first?, h]
  rfl

theorem ofKind_of_first? (hl : Scalar.OfKind kind l.value) (h : first ∈ l.first?) :
    Scalar.OfKind kind first := by
  cases hinclusive : l.inclusive with
  | true =>
    rw [first?_of_inclusive hinclusive] at h
    cases h
    exact hl
  | false =>
    rw [first?_of_exclusive hinclusive] at h
    exact (Scalar.discrete kind).valid_next _ hl _ h

/-- A lower bound lets through its first value and what is above that. -/
theorem admits_iff_first? (hl : Scalar.OfKind kind l.value) (hx : Scalar.OfKind kind x) :
    l.Admits .gt (point x) ↔ ∃ first ∈ l.first?, (first.order x).isLE = true := by
  unfold Admits
  rw [OrientedCmp.gt_iff_lt]
  cases hinclusive : l.inclusive with
  | true =>
    rw [first?_of_inclusive hinclusive, OrientedCmp.eq_comm]
    simp only [point, Option.mem_some_iff, exists_eq_left', Ordering.isLE_iff_eq_lt_or_eq_eq,
      and_true]
  | false =>
    rw [first?_of_exclusive hinclusive, ← (Scalar.discrete kind).lt_iff _ hl _ hx]
    simp [point]

/-- An upper bound lets through what is below a value that it lets through. -/
theorem Admits.mono_isLE {y : Scalar} (h : u.Admits .lt (point y)) (hle : (x.order y).isLE = true) :
    u.Admits .lt (point x) := by
  rcases h with h | ⟨h, hinclusive, -⟩
  · exact .inl (TransCmp.lt_of_isLE_of_lt hle h)
  · rcases Ordering.isLE_iff_eq_lt_or_eq_eq.mp hle with hlt | heq
    · exact .inl (TransCmp.lt_of_lt_of_eq hlt h)
    · exact .inr ⟨TransCmp.eq_trans heq h, hinclusive, rfl⟩

/-- An upper bound lets through the first value of a lower one if it leaves room above that and the
two do not exclude neighbours. -/
theorem admits_first_iff (hl : Scalar.OfKind kind l.value) (hu : Scalar.OfKind kind u.value)
    (hfirst : first ∈ l.first?) :
    u.Admits .lt (point first) ↔ u.Admits .lt l ∧ ¬ l.Adjacent u := by
  cases hinclusive : l.inclusive with
  | true =>
    rw [first?_of_inclusive hinclusive] at hfirst
    cases hfirst
    have hadjacent : ¬ l.Adjacent u := fun h => by
      rw [h.lower] at hinclusive
      cases hinclusive
    simp [Admits, point, hinclusive, hadjacent]
  | false =>
    rw [first?_of_exclusive hinclusive] at hfirst
    have hroom : u.Admits .lt l ↔ (first.order u.value).isLE = true := by
      have hnext := (Scalar.discrete kind).lt_iff _ hl _ hu
      rw [hfirst] at hnext
      simpa [Admits, hinclusive] using hnext
    have hadjacent : l.Adjacent u ↔ u.inclusive = false ∧ first.order u.value = .eq := by
      constructor
      · rintro ⟨-, hupper, next, hnext, hsame⟩
        rw [hfirst] at hnext
        cases hnext
        exact ⟨hupper, OrientedCmp.eq_symm (Scalar.sameAs_iff.mp hsame)⟩
      · rintro ⟨hupper, hsame⟩
        exact ⟨hinclusive, hupper, first, hfirst, Scalar.sameAs_iff.mpr (OrientedCmp.eq_symm hsame)⟩
    rw [hroom, hadjacent, Admits]
    dsimp only [point]
    cases first.order u.value <;> cases u.inclusive <;> decide

/-- An upper bound lets through the least value unless it excludes that one. -/
theorem admits_least_iff (hu : Scalar.OfKind kind u.value) :
    u.Admits .lt (point (.least kind)) ↔
      ¬ (u.inclusive = false ∧ u.value.sameAs (.least u.value.kind) = true) := by
  have hle := (Scalar.discrete kind).least_le _ hu
  rw [hu.kind_eq, Scalar.sameAs_comm, Scalar.sameAs_iff, Admits]
  dsimp only [point]
  cases h : (Scalar.least kind).order u.value with
  | lt => simp
  | eq => simp
  | gt =>
    rw [h] at hle
    cases hle

/-- Some value is let through by all lower bounds of a kind that exclude no greatest value: the
least one, or the first value of one of the bounds. -/
theorem exists_admitted (bounds : List Bound) (hkind : ∀ l ∈ bounds, Scalar.OfKind kind l.value)
    (hfirst : ∀ l ∈ bounds, ∃ first, first ∈ l.first?) :
    ∃ x, Scalar.OfKind kind x ∧ (x = .least kind ∨ ∃ l ∈ bounds, x ∈ l.first?) ∧
      ∀ l ∈ bounds, l.Admits .gt (point x) := by
  induction bounds with
  | nil => exact ⟨.least kind, (Scalar.discrete kind).valid_least, .inl rfl, fun _ h => by cases h⟩
  | cons l rest ih =>
    obtain ⟨hl, hrest⟩ := List.forall_mem_cons.mp hkind
    obtain ⟨⟨first, hin⟩, hfirsts⟩ := List.forall_mem_cons.mp hfirst
    obtain ⟨x, hx, horigin, hadmits⟩ := ih hrest hfirsts
    have hvalue : Scalar.OfKind kind first := ofKind_of_first? hl hin
    -- the greater of the two values is let through by all
    cases hle : (first.order x).isLE with
    | true =>
      refine ⟨x, hx, horigin.imp_right fun ⟨l', h, hx⟩ => ⟨l', List.mem_cons_of_mem l h, hx⟩, ?_⟩
      exact List.forall_mem_cons.mpr ⟨(admits_iff_first? hl hx).mpr ⟨first, hin, hle⟩, hadmits⟩
    | false =>
      have hge : (x.order first).isLE = true := by
        have hgt : first.order x = .gt := by
          cases h : first.order x <;> rw [h] at hle <;> first | rfl | cases hle
        rw [OrientedCmp.gt_iff_lt.mp hgt]
        rfl
      refine ⟨first, hvalue, .inr ⟨l, List.mem_cons_self, hin⟩, ?_⟩
      refine List.forall_mem_cons.mpr ⟨(admits_iff_first? hl hvalue).mpr ⟨first, hin, ?_⟩, ?_⟩
      · have hself : first.order first = .eq := ReflCmp.compare_self
        rw [hself]
        rfl
      · intro l' hl'
        obtain ⟨first', hin', hle'⟩ := (admits_iff_first? (hrest l' hl') hx).mp (hadmits l' hl')
        exact (admits_iff_first? (hrest l' hl') hvalue).mpr
          ⟨first', hin', TransCmp.isLE_trans hle' hge⟩

end Bound

namespace Interval

variable {i j : Interval}

/-- There is no value between the bounds of two intervals although they may leave room. -/
inductive Gap (i j : Interval) : Prop where
  /-- The greatest value is excluded from below. -/
  | above {l : Bound} (hl : l ∈ i.lower ∨ l ∈ j.lower) (hexclusive : l.inclusive = false)
    (hgreatest : l.value.next? = none)
  /-- The least value is excluded from above. -/
  | below {u : Bound} (hu : u ∈ i.upper ∨ u ∈ j.upper) (hexclusive : u.inclusive = false)
    (hleast : u.value.sameAs (.least u.value.kind) = true)
  /-- Two neighbours are excluded, the lower one from below and the upper one from above. -/
  | between {l u : Bound} (hl : l ∈ i.lower ∨ l ∈ j.lower) (hu : u ∈ i.upper ∨ u ∈ j.upper)
    (hadjacent : l.Adjacent u)

theorem has_and_has_iff :
    i.Has x ∧ j.Has x ↔ (∀ l, l ∈ i.lower ∨ l ∈ j.lower → l.Admits .gt (.point x)) ∧
      ∀ u, u ∈ i.upper ∨ u ∈ j.upper → u.Admits .lt (.point x) := by
  simp only [Has, or_imp, forall_and]
  exact and_and_and_comm

section Common

variable (hi : ∀ x ∈ i.endpoints, Scalar.OfKind kind x)
  (hj : ∀ x ∈ j.endpoints, Scalar.OfKind kind x)

include hi hj

theorem ofKind_of_lower {l : Bound} (hl : l ∈ i.lower ∨ l ∈ j.lower) :
    Scalar.OfKind kind l.value :=
  hl.elim (fun h => hi _ (mem_endpoints_iff.mpr ⟨l, .inl h, rfl⟩))
    fun h => hj _ (mem_endpoints_iff.mpr ⟨l, .inl h, rfl⟩)

theorem ofKind_of_upper {u : Bound} (hu : u ∈ i.upper ∨ u ∈ j.upper) :
    Scalar.OfKind kind u.value :=
  hu.elim (fun h => hi _ (mem_endpoints_iff.mpr ⟨u, .inr h, rfl⟩))
    fun h => hj _ (mem_endpoints_iff.mpr ⟨u, .inr h, rfl⟩)

/-- Where there is a gap there is no common value. -/
theorem not_gap_of_has (hx : Scalar.OfKind kind x) (hhas : i.Has x ∧ j.Has x) : ¬ i.Gap j := by
  obtain ⟨hlower, hupper⟩ := has_and_has_iff.mp hhas
  rintro (⟨hl, hexclusive, hgreatest⟩ | ⟨hu, hexclusive, hleast⟩ | ⟨hl, hu, hadjacent⟩)
  · obtain ⟨first, hfirst, -⟩ :=
      (Bound.admits_iff_first? (ofKind_of_lower hi hj hl) hx).mp (hlower _ hl)
    rw [Bound.first?_of_exclusive hexclusive, hgreatest] at hfirst
    cases hfirst
  · have hadmits := (hupper _ hu).mono_isLE ((Scalar.discrete kind).least_le _ hx)
    exact (Bound.admits_least_iff (ofKind_of_upper hi hj hu)).mp hadmits ⟨hexclusive, hleast⟩
  · have hl' := ofKind_of_lower hi hj hl
    obtain ⟨first, hfirst, hle⟩ := (Bound.admits_iff_first? hl' hx).mp (hlower _ hl)
    have hadmits := (hupper _ hu).mono_isLE hle
    exact ((Bound.admits_first_iff hl' (ofKind_of_upper hi hj hu) hfirst).mp hadmits).2 hadjacent

/-- Bounds that leave room have a common value between them unless there is a gap. -/
theorem exists_has_of_meets (hmeets : i.Meets j) (hgap : ¬ i.Gap j) :
    ∃ x, Scalar.OfKind kind x ∧ i.Has x ∧ j.Has x := by
  have hmem (l : Bound) : l ∈ i.lower.toList ++ j.lower.toList ↔ l ∈ i.lower ∨ l ∈ j.lower := by
    simp
  have hfirst : ∀ l ∈ i.lower.toList ++ j.lower.toList, ∃ first, first ∈ l.first? := by
    intro l hl
    cases hinclusive : l.inclusive with
    | true => exact ⟨l.value, Bound.first?_of_inclusive hinclusive⟩
    | false =>
      rw [Bound.first?_of_exclusive hinclusive]
      exact Option.ne_none_iff_exists'.mp fun h => hgap (.above ((hmem l).mp hl) hinclusive h)
  obtain ⟨x, hx, horigin, hlower⟩ := Bound.exists_admitted (i.lower.toList ++ j.lower.toList)
    (fun l hl => ofKind_of_lower hi hj ((hmem l).mp hl)) hfirst
  refine ⟨x, hx, has_and_has_iff.mpr ⟨fun l hl => hlower l ((hmem l).mpr hl), fun u hu => ?_⟩⟩
  have hu' := ofKind_of_upper hi hj hu
  rcases horigin with rfl | ⟨l, hl, hfirst⟩
  · exact (Bound.admits_least_iff hu').mpr fun ⟨hexclusive, hleast⟩ =>
      hgap (.below hu hexclusive hleast)
  · have hl := (hmem l).mp hl
    exact (Bound.admits_first_iff (ofKind_of_lower hi hj hl) hu' hfirst).mpr
      ⟨hmeets l hl u hu, fun h => hgap (.between hl hu h)⟩

theorem contains_iff_has (hx : Scalar.OfKind kind x) :
    i.contains x = .ok true ∧ j.contains x = .ok true ↔ i.Has x ∧ j.Has x := by
  have htold : ∀ k : Interval, (∀ y ∈ k.endpoints, Scalar.OfKind kind y) →
      (k.contains x = .ok true ↔ k.Has x) := by
    intro k hk
    have hone : Scalar.OneKind (x :: k.endpoints) :=
      Scalar.oneKind_cons_iff.mpr fun y hy => (hk y hy).kind_eq.trans hx.kind_eq.symm
    rw [contains_eq_ok_iff, and_iff_right hone]
    exact ⟨fun h => h.mp rfl, fun h => iff_of_true rfl h⟩
  rw [htold i hi, htold j hj]

theorem overlaps_iff_meets : i.overlaps j = .ok true ↔ i.Meets j := by
  have hof : ∀ x ∈ i.endpoints ++ j.endpoints, Scalar.OfKind kind x :=
    List.forall_mem_append.mpr ⟨hi, hj⟩
  have hone : Scalar.OneKind (i.endpoints ++ j.endpoints) :=
    fun x hx y hy => (hof x hx).kind_eq.trans (hof y hy).kind_eq.symm
  rw [overlaps_eq_ok_iff, and_iff_right hone]
  exact ⟨fun h => h.mp rfl, fun h => iff_of_true rfl h⟩

end Common

/-- **When an overlap is one.** Two intervals of a kind have a value of the kind in common exactly
if they are told to overlap and there is no gap between their bounds. -/
theorem exists_common_iff (hi : ∀ x ∈ i.endpoints, Scalar.OfKind kind x)
    (hj : ∀ x ∈ j.endpoints, Scalar.OfKind kind x) :
    (∃ x, Scalar.OfKind kind x ∧ i.contains x = .ok true ∧ j.contains x = .ok true) ↔
      i.overlaps j = .ok true ∧ ¬ i.Gap j := by
  rw [overlaps_iff_meets hi hj]
  constructor
  · rintro ⟨x, hx, hcontains⟩
    have hhas := (contains_iff_has hi hj hx).mp hcontains
    exact ⟨hhas.1.meets hhas.2, not_gap_of_has hi hj hx hhas⟩
  · rintro ⟨hmeets, hgap⟩
    obtain ⟨x, hx, hhas⟩ := exists_has_of_meets hi hj hmeets hgap
    exact ⟨x, hx, (contains_iff_has hi hj hx).mpr hhas⟩

/-- The release `1.0.` with a patch number. -/
def patchRelease (patch : Nat) : Scalar := .version { major := 1, minor := 0, patch, pre := none }

/-- Behind a release. -/
def behindRelease (patch : Nat) : Interval :=
  { lower := some { value := patchRelease patch, inclusive := false } }

/-- Before a release. -/
def beforeRelease (patch : Nat) : Interval :=
  { upper := some { value := patchRelease patch, inclusive := false } }

/-- There are versions between a release and the next one. -/
theorem between_releases :
    (∀ x ∈ (behindRelease 0).endpoints, Scalar.OfKind .version x) ∧
      (∀ x ∈ (beforeRelease 1).endpoints, Scalar.OfKind .version x) ∧
      ∃ x, Scalar.OfKind .version x ∧ (behindRelease 0).contains x = .ok true ∧
        (beforeRelease 1).contains x = .ok true := by
  have hrelease : ∀ patch < Version.numberBound, Scalar.OfKind .version (patchRelease patch) := by
    intro patch hpatch
    have hmajor : 1 < Version.numberBound := by decide
    have hminor : 0 < Version.numberBound := by decide
    exact .version ⟨hmajor, hminor, hpatch, fun tag htag => by cases htag⟩
  have hbehind : ∀ x ∈ (behindRelease 0).endpoints, Scalar.OfKind .version x :=
    List.forall_mem_singleton.mpr (hrelease 0 (by decide))
  have hbefore : ∀ x ∈ (beforeRelease 1).endpoints, Scalar.OfKind .version x :=
    List.forall_mem_singleton.mpr (hrelease 1 (by decide))
  refine ⟨hbehind, hbefore, (exists_common_iff hbehind hbefore).mpr ⟨rfl, ?_⟩⟩
  rintro (⟨hl, -, hgreatest⟩ | ⟨hu, -, hleast⟩ | ⟨hl, hu, -, -, next, hnext, hsame⟩)
  · rcases hl with hl | hl <;> cases hl
    exact absurd hgreatest (by decide +kernel)
  · rcases hu with hu | hu <;> cases hu
    exact absurd hleast (by decide +kernel)
  · rcases hl with hl | hl <;> rcases hu with hu | hu <;> cases hl <;> cases hu
    cases hnext
    exact absurd hsame (by decide +kernel)

/-- Behind `false`. -/
def behindFalse : Interval := { lower := some { value := .bool false, inclusive := false } }

/-- Before `true`. -/
def beforeTrue : Interval := { upper := some { value := .bool true, inclusive := false } }

/-- There is no boolean between `false` and `true`. -/
theorem no_bool_between :
    behindFalse.overlaps beforeTrue = .ok true ∧
      ¬ ∃ x : Scalar, x.kind = .bool ∧ behindFalse.contains x = .ok true ∧
        beforeTrue.contains x = .ok true := by
  refine ⟨rfl, ?_⟩
  rintro ⟨x, hkind, hbehind, hbefore⟩
  cases x with
  | bool b =>
    cases b with
    | false => exact absurd hbehind (by decide)
    | true => exact absurd hbefore (by decide)
  | number _ => cases hkind
  | string _ => cases hkind
  | timestamp _ => cases hkind
  | version _ => cases hkind

end Interval

end FeatureFlags
