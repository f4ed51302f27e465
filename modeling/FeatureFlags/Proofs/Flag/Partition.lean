import FeatureFlags.Flag.Allocation
import Mathlib.Data.List.Pairwise

/-!
# Sound allocations

- `Allocation.error?_eq_none_iff`: what the check of an allocation finds out is `Allocation.Sound`:
  there are buckets, every range takes some of them, and no two ranges share one.
- `Allocation.partition_exact`: so a bucket belongs to one assignment at most, that assignment is
  found, and it does not matter in which order the assignments are listed.

The check lays the ranges side by side and compares neighbours only. Two facts carry this. Sorting
permutes the ranges, and to share no bucket is symmetric, so it may be asked of the sorted ranges.
And if every range is non-empty and ends before its right neighbour begins, it ends before
everything to its right begins (`Allocation.firstOverlap?_eq_none_iff`).
-/

namespace FeatureFlags

namespace BucketRange

/-- No bucket is in both ranges. -/
def Disjoint (a b : BucketRange) : Prop :=
  ∀ bucket, ¬ (a.contains bucket = true ∧ b.contains bucket = true)

variable {a b c : BucketRange}

theorem contains_iff {bucket : Nat} :
    a.contains bucket = true ↔ a.lower ≤ bucket ∧ bucket < a.upper := by
  simp [contains]

theorem Disjoint.symm (h : a.Disjoint b) : b.Disjoint a :=
  fun bucket hboth => h bucket hboth.symm

theorem lower_le_of_comesBefore (h : a.comesBefore b = true) : a.lower ≤ b.lower := by
  simp only [comesBefore, Bool.or_eq_true, Bool.and_eq_true, decide_eq_true_eq, beq_iff_eq] at h
  omega

theorem comesBefore_trans (hab : a.comesBefore b = true) (hbc : b.comesBefore c = true) :
    a.comesBefore c = true := by
  simp only [comesBefore, Bool.or_eq_true, Bool.and_eq_true, decide_eq_true_eq, beq_iff_eq] at *
  omega

theorem comesBefore_total (a b : BucketRange) : (a.comesBefore b || b.comesBefore a) = true := by
  simp only [comesBefore, Bool.or_eq_true, Bool.and_eq_true, decide_eq_true_eq, beq_iff_eq]
  omega

/-- Ranges share no bucket if one of them ends before the other one begins. -/
theorem disjoint_of_upper_le (h : a.upper ≤ b.lower ∨ b.upper ≤ a.lower) : a.Disjoint b := by
  intro bucket hboth
  rw [contains_iff, contains_iff] at hboth
  omega

/-- Non-empty ranges of which the first begins no later share no bucket exactly if the first one
ends before the second begins. -/
theorem disjoint_iff (hb : b.lower < b.upper) (hlower : a.lower ≤ b.lower) :
    a.Disjoint b ↔ a.upper ≤ b.lower := by
  constructor
  · intro h
    -- otherwise they share the first bucket of the second range
    by_contra hlt
    exact h b.lower ⟨contains_iff.mpr ⟨hlower, by omega⟩, contains_iff.mpr ⟨Nat.le_refl _, hb⟩⟩
  · intro hle
    exact disjoint_of_upper_le (.inl hle)

end BucketRange

namespace Allocation

/-- The buckets are divided: there are some, every range takes some of them, and no two ranges,
be they of one assignment or of two, share a bucket. -/
structure Sound (a : Allocation) : Prop where
  positive : 0 < a.bucketCount
  inside : ∀ r ∈ a.ranges, r.1.lower < r.1.upper ∧ r.1.upper ≤ a.bucketCount
  disjoint : a.ranges.Pairwise fun x y => x.1.Disjoint y.1

variable {ranges : List (BucketRange × String)} {a : Allocation}

/-- Of non-empty ranges, that none begins before its left neighbour ends means that none begins
before any range to its left ends. -/
theorem firstOverlap?_eq_none_iff (hne : ∀ r ∈ ranges, r.1.lower < r.1.upper) :
    firstOverlap? ranges = none ↔ ranges.Pairwise fun x y => x.1.upper ≤ y.1.lower := by
  induction ranges with
  | nil => simp [firstOverlap?]
  | cons x rest ih =>
    cases rest with
    | nil => simp [firstOverlap?]
    | cons y rest =>
      obtain ⟨hx, hrest⟩ := List.forall_mem_cons.mp hne
      rw [firstOverlap?, List.pairwise_cons, List.forall_mem_cons, ← ih hrest]
      split
      · next hlt =>
        simp only [reduceCtorEq, false_iff]
        omega
      · next hle =>
        have hxy : x.1.upper ≤ y.1.lower := by omega
        refine ⟨fun h => ⟨⟨hxy, fun z hz => ?_⟩, h⟩, fun h => h.2⟩
        -- the neighbour is not empty, so it ends even further to the right
        have hyz := (List.pairwise_cons.mp ((ih hrest).mp h)).1 z hz
        have hy := hrest y List.mem_cons_self
        omega

/-- The ranges side by side. -/
def sorted (ranges : List (BucketRange × String)) : List (BucketRange × String) :=
  ranges.mergeSort fun x y => x.1.comesBefore y.1

theorem sorted_perm (ranges : List (BucketRange × String)) : (sorted ranges).Perm ranges :=
  List.mergeSort_perm ranges _

theorem pairwise_lower_sorted (ranges : List (BucketRange × String)) :
    (sorted ranges).Pairwise fun x y => x.1.lower ≤ y.1.lower := by
  have hsorted : (sorted ranges).Pairwise fun x y => x.1.comesBefore y.1 = true := by
    apply List.pairwise_mergeSort
    · intro x y z hxy hyz
      exact BucketRange.comesBefore_trans hxy hyz
    · intro x y
      exact BucketRange.comesBefore_total x.1 y.1
  exact hsorted.imp BucketRange.lower_le_of_comesBefore

/-- Once they are laid side by side, neighbours tell whether ranges share a bucket. -/
theorem firstOverlap?_sorted_eq_none_iff (hne : ∀ r ∈ ranges, r.1.lower < r.1.upper) :
    firstOverlap? (sorted ranges) = none ↔ ranges.Pairwise fun x y => x.1.Disjoint y.1 := by
  have hne' : ∀ r ∈ sorted ranges, r.1.lower < r.1.upper :=
    fun r hr => hne r ((sorted_perm ranges).mem_iff.mp hr)
  have hlaid : (sorted ranges).Pairwise fun x y =>
      x.1.Disjoint y.1 ↔ x.1.upper ≤ y.1.lower :=
    (pairwise_lower_sorted ranges).imp_of_mem fun _ hy hlower =>
      BucketRange.disjoint_iff (hne' _ hy) hlower
  rw [firstOverlap?_eq_none_iff hne', ← (sorted_perm ranges).pairwise_iff fun h => h.symm]
  constructor
  · intro h
    exact (hlaid.and h).imp fun hxy => hxy.1.mpr hxy.2
  · intro h
    exact (hlaid.and h).imp fun hxy => hxy.1.mp hxy.2

/-- The check of an allocation finds nothing wrong exactly if the allocation is sound. -/
theorem error?_eq_none_iff : a.error? = none ↔ a.Sound := by
  unfold error?
  split
  · next hzero =>
    simp only [reduceCtorEq, false_iff]
    intro hsound
    exact absurd hzero (Nat.ne_of_gt hsound.positive)
  · next hpositive =>
    split
    · next r id hodd =>
      simp only [reduceCtorEq, false_iff]
      intro hsound
      have hfits := hsound.inside (r, id) (List.mem_of_find?_eq_some hodd)
      have hout := List.find?_some hodd
      simp [fits, hfits] at hout
    · next hnone =>
      have hinside : ∀ r ∈ a.ranges, r.1.lower < r.1.upper ∧ r.1.upper ≤ a.bucketCount := by
        intro r hr
        simpa [fits] using List.find?_eq_none.mp hnone r hr
      have hlaid := firstOverlap?_sorted_eq_none_iff fun r hr => (hinside r hr).1
      exact ⟨fun h => ⟨by omega, hinside, hlaid.mp h⟩, fun hsound => hlaid.mpr hsound.disjoint⟩

/-! ## The assignment of a bucket -/

section Assignments

variable {assignments : List Assignment} {bucket : Nat} {x : Assignment}

theorem ranges_perm (h : assignments.Perm a.assignments) :
    ({ a with assignments } : Allocation).ranges.Perm a.ranges :=
  List.Perm.flatMap_right _ h

/-- Soundness does not depend on the order in which the assignments are listed. -/
theorem Sound.of_perm (ha : a.Sound) (h : assignments.Perm a.assignments) :
    ({ a with assignments } : Allocation).Sound where
  positive := ha.positive
  inside r hr := ha.inside r ((ranges_perm h).mem_iff.mp hr)
  disjoint := ((ranges_perm h).pairwise_iff fun hxy => hxy.symm).mpr ha.disjoint

/-- No two assignments of a sound allocation cover the same bucket. -/
theorem Sound.pairwise_not_covers (ha : a.Sound) (bucket : Nat) :
    a.assignments.Pairwise fun x y => ¬ (x.covers bucket = true ∧ y.covers bucket = true) := by
  have hranges := (List.pairwise_flatMap.mp ha.disjoint).2
  refine hranges.imp fun {x y} hdisjoint => ?_
  rintro ⟨hx, hy⟩
  obtain ⟨r, hr, hrx⟩ := List.any_eq_true.mp hx
  obtain ⟨s, hs, hsy⟩ := List.any_eq_true.mp hy
  have hrs := hdisjoint (r, x.id) (List.mem_map_of_mem hr) (s, y.id) (List.mem_map_of_mem hs)
  exact hrs bucket ⟨hrx, hsy⟩

/-- The assignment that covers a bucket is found, wherever it is listed. -/
theorem Sound.assignmentFor?_eq_some_iff (ha : a.Sound) :
    a.assignmentFor? bucket = some x ↔ x ∈ a.assignments ∧ x.covers bucket = true := by
  rw [assignmentFor?]
  constructor
  · intro hfound
    have hcovers := List.find?_some hfound
    exact ⟨List.mem_of_find?_eq_some hfound, hcovers⟩
  · rintro ⟨hx, hcovers⟩
    have hsome : (a.assignments.find? (·.covers bucket)).isSome = true :=
      List.find?_isSome.mpr ⟨x, hx, hcovers⟩
    obtain ⟨y, hfound⟩ := Option.isSome_iff_exists.mp hsome
    -- what is found covers the bucket too
    have hy := List.mem_of_find?_eq_some hfound
    have hcovers' := List.find?_some hfound
    have : Std.Symm fun x y : Assignment => ¬ (x.covers bucket = true ∧ y.covers bucket = true) :=
      ⟨fun _ _ h hboth => h hboth.symm⟩
    have hxy : x = y := by
      by_contra hne
      exact (ha.pairwise_not_covers bucket).forall hx hy hne ⟨hcovers, hcovers'⟩
    rw [hxy]
    exact hfound

/-- An assignment covers a bucket if the bucket lies in one of its ranges. -/
theorem covers_iff :
    x.covers bucket = true ↔ ∃ r ∈ x.ranges, r.lower ≤ bucket ∧ bucket < r.upper := by
  rw [Assignment.covers, List.any_eq_true]
  exact exists_congr fun r => and_congr_right' BucketRange.contains_iff

/-- **What the check of an allocation tells.** It finds nothing wrong exactly if there are buckets,
every range takes some of them and no two ranges share one. Then no two assignments cover the same
bucket, and the assignment with a range that the bucket lies in is the one that is found. So
whatever the order of the assignments, nothing is wrong and every bucket has the same assignment. -/
theorem partition_exact (a : Allocation) :
    (a.error? = none ↔ a.Sound) ∧
    (a.error? = none → ∀ bucket,
      (a.assignments.Pairwise fun x y => ¬ (x.covers bucket = true ∧ y.covers bucket = true)) ∧
      (∀ x, a.assignmentFor? bucket = some x ↔
        x ∈ a.assignments ∧ ∃ r ∈ x.ranges, r.lower ≤ bucket ∧ bucket < r.upper) ∧
      ∀ assignments, assignments.Perm a.assignments →
        ({ a with assignments } : Allocation).error? = none ∧
        ({ a with assignments } : Allocation).assignmentFor? bucket = a.assignmentFor? bucket) := by
  refine ⟨error?_eq_none_iff, ?_⟩
  intro hnone bucket
  have ha : a.Sound := error?_eq_none_iff.mp hnone
  refine ⟨ha.pairwise_not_covers bucket, ?_, ?_⟩
  · intro x
    rw [ha.assignmentFor?_eq_some_iff, covers_iff]
  · intro assignments hperm
    have hsound := ha.of_perm hperm
    refine ⟨error?_eq_none_iff.mpr hsound, Option.ext fun x => ?_⟩
    rw [hsound.assignmentFor?_eq_some_iff, ha.assignmentFor?_eq_some_iff]
    exact and_congr_left' hperm.mem_iff

/-- An assignment on both sides of another one. -/
def outer : Assignment := { id := "outer", kind := .variant "on", ranges := [⟨6, 9⟩, ⟨0, 2⟩] }

/-- Two assignments, one of them on both sides of the other, and a bucket that nobody has. -/
def scattered : Allocation :=
  { bucketCount := 10
    assignments := [outer, { id := "inner", kind := .clientDefault, ranges := [⟨2, 6⟩] }] }

/-- The two assignments may be listed the other way round: bucket 7 is the outer one's, and nobody
has bucket 9. -/
theorem scattered_reversed :
    let reversed : Allocation := { scattered with assignments := scattered.assignments.reverse }
    scattered.error? = none ∧ reversed.error? = none ∧
      scattered.assignmentFor? 7 = some outer ∧ reversed.assignmentFor? 7 = some outer ∧
      scattered.assignmentFor? 9 = none ∧ reversed.assignmentFor? 9 = none := by
  obtain ⟨-, hsound⟩ := partition_exact scattered
  have hnone : scattered.error? = none := by
    have hapart : scattered.ranges.Pairwise fun x y =>
        x.1.upper ≤ y.1.lower ∨ y.1.upper ≤ x.1.lower := by decide
    exact error?_eq_none_iff.mpr
      ⟨by decide, by decide, hapart.imp BucketRange.disjoint_of_upper_le⟩
  obtain ⟨-, hfound, hperm⟩ := hsound hnone 7
  obtain ⟨-, -, hperm'⟩ := hsound hnone 9
  have houter : scattered.assignmentFor? 7 = some outer := (hfound outer).mpr (by decide)
  have hnobody : scattered.assignmentFor? 9 = none := by decide
  obtain ⟨hreversed, hsame⟩ := hperm _ (List.reverse_perm _)
  have hsame' := (hperm' _ (List.reverse_perm _)).2
  exact ⟨hnone, hreversed, houter, hsame.trans houter, hnobody, hsame'.trans hnobody⟩

end Assignments

end Allocation

end FeatureFlags
