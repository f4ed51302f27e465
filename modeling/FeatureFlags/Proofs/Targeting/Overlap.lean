import FeatureFlags.Proofs.Scalar.Interval
import FeatureFlags.Targeting.AttributeRule
import Mathlib.Logic.Basic

/-!
# Overlap of conditions

A condition takes the values of some intervals (`Condition.spans`): a single value is the interval
from itself to itself, a set one such interval for each of its values. Two conditions overlap if an
interval of one leaves room for an interval of the other (`Condition.Meets`).

- `Condition.overlaps_eq_ok_iff`: every branch of `Condition.overlaps` tells just this, and succeeds
  exactly if the values that the branch compares are of one kind (`Condition.Comparable`).
- `Condition.accepts_cases`: what an accepted attribute is read as.
- `Condition.meets_of_accepts`: comparable conditions that accept one attribute overlap.
-/

namespace FeatureFlags

open Std

namespace Interval

/-- The interval of a single value. -/
def point (x : Scalar) : Interval := { lower := some (.point x), upper := some (.point x) }

variable {i : Interval} {x y : Scalar}

theorem point_has_iff : (point y).Has x ↔ x.order y = .eq := by
  simp only [Has, point, Option.mem_some_iff, forall_eq', Bound.point_admits_point_iff]
  grind

theorem has_of_endpoints_eq_nil (h : i.endpoints = []) : i.Has x := by
  have hnone : ∀ b, ¬ (b ∈ i.lower ∨ b ∈ i.upper) := by
    intro b hb
    have hvalue := mem_endpoints_iff.mpr ⟨b, hb, rfl⟩
    rw [h] at hvalue
    cases hvalue
  exact ⟨fun l hl => absurd (.inl hl) (hnone l), fun u hu => absurd (.inr hu) (hnone u)⟩

/-- A value leaves room within an interval exactly if it belongs to it. -/
theorem point_meets_iff : (point y).Meets i ↔ i.Has y := by
  constructor
  · intro h
    refine ⟨fun l hl => Bound.admits_swap.mpr ?_, fun u hu => ?_⟩
    · exact h l (.inr hl) (.point y) (.inl rfl)
    · exact h (.point y) (.inl rfl) u (.inr hu)
  · exact (point_has_iff.mpr ReflCmp.compare_self).meets

end Interval

namespace Condition

variable {c d : Condition} {i : Interval} {x y : Scalar} {xs ys : List Scalar} {result : Bool}
  {found : Json}

/-- The intervals whose values satisfy the condition. -/
def spans : Condition → List Interval
  | eq x => [.point x]
  | oneOf xs => xs.map .point
  | within i => [i]

/-- The value satisfies the condition. -/
def Holds (c : Condition) (x : Scalar) : Prop := ∃ i ∈ c.spans, i.Has x

/-- The conditions leave room for each other. -/
def Meets (c d : Condition) : Prop := ∃ i ∈ c.spans, ∃ j ∈ d.spans, i.Meets j

/-- The values that have to be of one kind for the overlap to be told: all of them, but for a set
and an interval each value of the set with the bounds alone. -/
def Comparable : Condition → Condition → Prop
  | oneOf xs, within i | within i, oneOf xs => ∀ x ∈ xs, Scalar.OneKind (x :: i.endpoints)
  | c, d => Scalar.OneKind (c.values ++ d.values)

theorem holds_eq_iff : (eq y).Holds x ↔ x.order y = .eq := by
  simp only [Holds, spans, List.mem_singleton, exists_eq_left, Interval.point_has_iff]

theorem holds_oneOf_iff : (oneOf ys).Holds x ↔ ∃ y ∈ ys, x.order y = .eq := by
  simp only [Holds, spans, List.mem_map, exists_exists_and_eq_and, Interval.point_has_iff]

theorem holds_within_iff : (within i).Holds x ↔ i.Has x := by
  simp only [Holds, spans, List.mem_singleton, exists_eq_left]

theorem Meets.symm (h : c.Meets d) : d.Meets c := by
  obtain ⟨i, hi, j, hj, hmeets⟩ := h
  exact ⟨j, hj, i, hi, hmeets.symm⟩

theorem meets_comm : c.Meets d ↔ d.Meets c := ⟨Meets.symm, Meets.symm⟩

/-- Conditions with a common value leave room for each other. -/
theorem Holds.meets (hc : c.Holds x) (hd : d.Holds x) : c.Meets d := by
  obtain ⟨i, hi, hix⟩ := hc
  obtain ⟨j, hj, hjx⟩ := hd
  exact ⟨i, hi, j, hj, hix.meets hjx⟩

theorem eq_meets_iff : (eq x).Meets d ↔ d.Holds x := by
  show (∃ i ∈ [Interval.point x], ∃ j ∈ d.spans, i.Meets j) ↔ _
  simp only [List.mem_singleton, exists_eq_left, Interval.point_meets_iff, Holds]

theorem oneOf_meets_iff : (oneOf xs).Meets d ↔ ∃ x ∈ xs, d.Holds x := by
  show (∃ i ∈ xs.map Interval.point, ∃ j ∈ d.spans, i.Meets j) ↔ _
  simp only [List.mem_map, exists_exists_and_eq_and, Interval.point_meets_iff, Holds]

theorem within_meets_within_iff {j : Interval} :
    (within i).Meets (within j) ↔ i.Meets j := by
  simp only [Meets, spans, List.mem_singleton, exists_eq_left]

theorem comparable_comm : c.Comparable d ↔ d.Comparable c := by
  cases c <;> cases d
  all_goals first
    | exact Iff.rfl
    | exact Scalar.oneKind_append_comm

/-- Comparable conditions have one kind. -/
theorem Comparable.kind_eq (h : c.Comparable d) (hx : x ∈ c.values) (hy : y ∈ d.values) :
    x.kind = y.kind := by
  have happend : Scalar.OneKind (c.values ++ d.values) → x.kind = y.kind :=
    fun hone => hone x (List.mem_append_left _ hx) y (List.mem_append_right _ hy)
  cases c <;> cases d
  case oneOf.within xs i => exact (Scalar.oneKind_cons_iff.mp (h x hx) y hy).symm
  case within.oneOf i ys => exact Scalar.oneKind_cons_iff.mp (h y hy) x hx
  all_goals exact happend h

/-! ## What the branches tell -/

theorem equals_eq_ok_iff :
    x.equals y = .ok result ↔ Scalar.OneKind [x, y] ∧ (result = true ↔ x.order y = .eq) := by
  rw [Scalar.equals, map_eq_ok_iff, Scalar.oneKind_pair_iff]
  simp only [Scalar.compareOfKind_eq_ok_iff, and_assoc, exists_and_left, exists_eq_left']
  rw [Bool.eq_iff_iff, beq_iff_eq, iff_comm (a := _ = Ordering.eq)]

theorem any_sameAs_iff : (xs.any fun y => y.sameAs x) = true ↔ ∃ y ∈ xs, x.order y = .eq := by
  simp only [List.any_eq_true, Scalar.sameAs_iff, OrientedCmp.eq_comm (a := x)]

theorem isIn_eq_ok_iff :
    x.isIn ys = .ok result ↔
      Scalar.OneKind (x :: ys) ∧ (result = true ↔ ∃ y ∈ ys, x.order y = .eq) := by
  rw [Scalar.isIn, Scalar.withUniformKind_eq_ok_iff, Except.ok.injEq, Bool.eq_iff_iff,
    any_sameAs_iff, iff_comm (a := _ = true)]

theorem setsOverlap_eq_ok_iff :
    Scalar.setsOverlap xs ys = .ok result ↔
      Scalar.OneKind (xs ++ ys) ∧ (result = true ↔ ∃ x ∈ xs, ∃ y ∈ ys, x.order y = .eq) := by
  rw [Scalar.setsOverlap, Scalar.withUniformKind_eq_ok_iff, Except.ok.injEq, Bool.eq_iff_iff]
  simp only [Scalar.memberOf, List.any_eq_true, Scalar.sameAs_iff]
  exact and_congr_right fun _ => iff_comm

/-- Every value of the set is looked at, also behind one that lies in the interval. -/
theorem setOverlapsInterval_eq_ok_iff :
    setOverlapsInterval i xs = .ok result ↔
      (∀ x ∈ xs, Scalar.OneKind (x :: i.endpoints)) ∧ (result = true ↔ ∃ x ∈ xs, i.Has x) := by
  induction xs generalizing result with
  | nil => simp [setOverlapsInterval, eq_comm]
  | cons x rest ih =>
    rw [setOverlapsInterval, bind_eq_ok_iff]
    simp only [bind_eq_ok_iff, Interval.contains_eq_ok_iff, ih, List.mem_cons, forall_eq_or_imp,
      exists_eq_or_imp]
    constructor
    · rintro ⟨here, ⟨hx, hhere⟩, there, ⟨hrest, hthere⟩, hresult⟩
      cases hresult
      exact ⟨⟨hx, hrest⟩, by rw [Bool.or_eq_true, hhere, hthere]⟩
    · rintro ⟨⟨hx, hrest⟩, hresult⟩
      classical
      refine ⟨decide (i.Has x), ⟨hx, decide_eq_true_iff⟩, decide (∃ y ∈ rest, i.Has y),
        ⟨hrest, decide_eq_true_iff⟩, congrArg Except.ok ?_⟩
      rw [Bool.eq_iff_iff, Bool.or_eq_true, decide_eq_true_iff, decide_eq_true_iff, hresult]

theorem eq_overlaps_iff :
    (eq x).overlaps d = .ok result ↔
      (eq x).Comparable d ∧ (result = true ↔ (eq x).Meets d) := by
  rw [eq_meets_iff]
  cases d with
  | eq y =>
    rw [holds_eq_iff]
    exact equals_eq_ok_iff
  | oneOf ys =>
    rw [holds_oneOf_iff]
    exact isIn_eq_ok_iff
  | within i =>
    rw [holds_within_iff]
    exact Interval.contains_eq_ok_iff

theorem oneOf_overlaps_iff :
    (oneOf xs).overlaps d = .ok result ↔
      (oneOf xs).Comparable d ∧ (result = true ↔ (oneOf xs).Meets d) := by
  cases d with
  | eq y =>
    show (eq y).overlaps (oneOf xs) = _ ↔ _
    rw [comparable_comm, meets_comm]
    exact eq_overlaps_iff
  | oneOf ys =>
    simp only [oneOf_meets_iff, holds_oneOf_iff]
    exact setsOverlap_eq_ok_iff
  | within i =>
    simp only [oneOf_meets_iff, holds_within_iff]
    exact setOverlapsInterval_eq_ok_iff

/-- The overlap of two conditions is told exactly if they are comparable, and it is whether they
leave room for each other. -/
theorem overlaps_eq_ok_iff :
    c.overlaps d = .ok result ↔ c.Comparable d ∧ (result = true ↔ c.Meets d) := by
  cases c with
  | eq x => exact eq_overlaps_iff
  | oneOf xs => exact oneOf_overlaps_iff
  | within i =>
    -- with anything but an interval the branch is that of the pair in the other order
    cases d with
    | eq y =>
      show (eq y).overlaps (within i) = _ ↔ _
      rw [comparable_comm, meets_comm]
      exact eq_overlaps_iff
    | oneOf ys =>
      show (oneOf ys).overlaps (within i) = _ ↔ _
      rw [comparable_comm, meets_comm]
      exact oneOf_overlaps_iff
    | within j =>
      rw [within_meets_within_iff]
      exact Interval.overlaps_eq_ok_iff

theorem exists_overlaps_iff : (∃ result, c.overlaps d = .ok result) ↔ c.Comparable d := by
  simp only [overlaps_eq_ok_iff, exists_and_left]
  refine and_iff_left ?_
  classical
  exact ⟨decide (c.Meets d), decide_eq_true_iff⟩

/-! ## Accepted attributes -/

theorem holds_of_contains (h : (i.contains x).toOption.getD false = true) :
    (within i).Holds x := by
  cases htold : i.contains x with
  | error cause => simp [htold, Except.toOption] at h
  | ok inside =>
    rw [htold] at h
    exact holds_within_iff.mpr ((Interval.contains_eq_ok_iff.mp htold).2.mp h)

/-- An accepted attribute is read as a value that satisfies the condition, of the kind of a value
that the condition names. A condition that names none is satisfied by every value. -/
theorem accepts_cases (h : c.accepts found = true) :
    (c.values = [] ∧ ∀ x, c.Holds x) ∨
      ∃ v ∈ c.values, ∃ x, Scalar.coerce found v.kind = some x ∧ c.Holds x := by
  cases c with
  | eq y =>
    obtain ⟨x, hread, hsame⟩ := (Option.any_eq_true ..).mp h
    have hx : (eq y).Holds x := holds_eq_iff.mpr (Scalar.sameAs_iff.mp hsame)
    exact .inr ⟨y, List.mem_singleton_self y, x, hread, hx⟩
  | oneOf ys =>
    cases ys with
    | nil => cases h
    | cons first rest =>
      obtain ⟨x, hread, hsame⟩ := (Option.any_eq_true ..).mp h
      have hx : (oneOf (first :: rest)).Holds x := holds_oneOf_iff.mpr (any_sameAs_iff.mp hsame)
      exact .inr ⟨first, List.mem_cons_self, x, hread, hx⟩
  | within i =>
    rw [accepts] at h
    split at h
    · -- the kind is that of the first bound
      next kind hkind =>
      obtain ⟨-, hfirst⟩ := Scalar.uniformKind_eq_ok_iff.mp hkind
      obtain ⟨v, hv, rfl⟩ := Option.map_eq_some_iff.mp hfirst.symm
      obtain ⟨x, hread, hinside⟩ := (Option.any_eq_true ..).mp h
      exact .inr ⟨v, List.mem_of_head? hv, x, hread, holds_of_contains hinside⟩
    · next hkind =>
      obtain ⟨-, hfirst⟩ := Scalar.uniformKind_eq_ok_iff.mp hkind
      have hnone : i.endpoints = [] := by simpa using hfirst.symm
      exact .inl ⟨hnone, fun x => holds_within_iff.mpr (Interval.has_of_endpoints_eq_nil hnone)⟩
    · cases h

/-- Comparable conditions that accept one attribute leave room for each other. -/
theorem meets_of_accepts (hc : c.accepts found = true) (hd : d.accepts found = true)
    (hcomparable : c.Comparable d) : c.Meets d := by
  rcases accepts_cases hc with ⟨-, hall⟩ | ⟨v, hv, x, hread, hx⟩ <;>
    rcases accepts_cases hd with ⟨-, hall'⟩ | ⟨v', hv', x', hread', hx'⟩
  · exact (hall (.bool true)).meets (hall' (.bool true))
  · exact (hall x').meets hx'
  · exact hx.meets (hall' x)
  · -- both read the attribute as a value of the same kind
    rw [hcomparable.kind_eq hv hv', hread'] at hread
    cases hread
    exact hx.meets hx'

end Condition

end FeatureFlags
