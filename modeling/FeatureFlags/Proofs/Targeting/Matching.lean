import FeatureFlags.Proofs.Scalar.Intersection
import FeatureFlags.Proofs.Scalar.Values
import FeatureFlags.Proofs.Targeting.Conflicts

/-!
# Matching and overlap agree

There are two tests for a value in a condition: the one that an attribute is put to
(`Condition.accepts`), and the overlap with the rule of equality to the value.
`AttributeRule.accepts_iff_overlaps` says that they are one test: a plain rule of a kind accepts an
attribute exactly if the attribute can be read as a value of that kind with which the rule overlaps.

What is read as a value of a kind is of this kind (`Scalar.kind_of_coerce`). For such values neither
test can fail, so the answer `false` for an interval that cannot be asked is never given.
-/

namespace FeatureFlags

/-! ## Reading an attribute -/

namespace Scalar

variable {found : Json} {k : ScalarKind} {x : Scalar}

/-- What is read as a value of a kind is of this kind. -/
theorem kind_of_coerce (h : coerce found k = some x) : x.kind = k := (ofKind_of_coerce h).kind_eq

end Scalar

/-! ## Conditions of a kind -/

namespace Condition

variable {c : Condition} {found : Json} {k : ScalarKind} {x : Scalar} {result : Bool}

/-- The overlap with a value of the condition's kind is told, and it is whether the value satisfies
the condition. -/
theorem overlaps_eq_iff_holds (hkind : c.kind = .ok (some x.kind)) :
    c.overlaps (eq x) = .ok result ↔ (result = true ↔ c.Holds x) := by
  have hone : Scalar.OneKind (x :: c.values) := Scalar.oneKind_cons_of_uniformKind hkind
  have hsingle : Scalar.OneKind (eq x).values :=
    hone.mono (List.cons_subset_cons x (List.nil_subset _))
  have hcomparable : c.Comparable (eq x) := by
    rw [comparable_iff (hone.mono (List.subset_cons_self x _)) hsingle]
    intro y hy z hz
    cases List.mem_singleton.mp hz
    exact Scalar.oneKind_cons_iff.mp hone y hy
  rw [overlaps_eq_ok_iff, and_iff_right hcomparable, meets_comm, eq_meets_iff]

theorem exists_overlaps_eq (hkind : c.kind = .ok (some x.kind)) :
    ∃ told, c.overlaps (eq x) = .ok told := by
  classical
  exact ⟨decide (c.Holds x), (overlaps_eq_iff_holds hkind).mpr decide_eq_true_iff⟩

/-- Membership in an interval is told of every value of the kind of its bounds, so what stands in
for an error does not matter. -/
theorem getD_contains_iff {i : Interval} (hkind : i.kind = .ok (some x.kind)) :
    (i.contains x).toOption.getD false = true ↔ i.Has x := by
  obtain ⟨inside, hinside⟩ :=
    Interval.exists_contains (Scalar.oneKind_cons_of_uniformKind hkind)
  rw [hinside]
  exact (Interval.contains_eq_ok_iff.mp hinside).2

/-- An attribute is accepted exactly if it can be read as a value that satisfies the condition. -/
theorem accepts_iff_holds (hkind : c.kind = .ok (some k)) :
    c.accepts found = true ↔ ∃ x, Scalar.coerce found k = some x ∧ c.Holds x := by
  obtain ⟨-, hfirst⟩ := Scalar.uniformKind_eq_ok_iff.mp hkind
  cases c with
  | eq y =>
    cases hfirst
    simp only [accepts, Option.any_eq_true, Scalar.sameAs_iff, holds_eq_iff]
  | oneOf ys =>
    cases ys with
    | nil => cases hfirst
    | cons first rest =>
      cases hfirst
      simp only [accepts, Option.any_eq_true, any_sameAs_iff, holds_oneOf_iff]
  | within i =>
    have hi : i.kind = .ok (some k) := hkind
    rw [accepts, hi]
    simp only [Option.any_eq_true, holds_within_iff]
    refine exists_congr fun x => and_congr_right fun hread => getD_contains_iff ?_
    rw [hi, Scalar.kind_of_coerce hread]

end Condition

/-! ## Rules -/

namespace AttributeRule

variable {r : AttributeRule} {k : ScalarKind}

/-- **Matching agrees with overlap.** Let a plain rule be well formed and of a kind. What an
attribute is read as is of this kind, the overlap of the rule with it is told, and so is whether it
lies in an interval that the rule is about. The rule accepts an attribute exactly if it overlaps
with what the attribute is read as. -/
theorem accepts_iff_overlaps (hplain : r.isQuantified = false) (hvalid : r.validate = .ok ())
    (hkind : r.kind = .ok (some k)) (found : Json) :
    (∀ x, Scalar.coerce found k = some x →
      x.kind = k ∧ (∃ told, r.overlaps (plain (.eq x)) = .ok told) ∧
        ∀ i, r = plain (.within i) → ∃ inside, i.contains x = .ok inside) ∧
      (r.accepts found = true ↔
        ∃ x, Scalar.coerce found k = some x ∧ r.overlaps (plain (.eq x)) = .ok true) := by
  obtain ⟨c, rfl⟩ : ∃ c, r = plain c := by
    cases r with
    | plain c => exact ⟨c, rfl⟩
    | any r | all r => cases hplain
  have hkind : c.kind = .ok (some k) := hkind
  have hread : ∀ x, Scalar.coerce found k = some x → c.kind = .ok (some x.kind) := by
    intro x h
    rw [Scalar.kind_of_coerce h]
    exact hkind
  constructor
  · intro x h
    refine ⟨Scalar.kind_of_coerce h, Condition.exists_overlaps_eq (hread x h), ?_⟩
    rintro i ⟨⟩
    exact Interval.exists_contains (Scalar.oneKind_cons_of_uniformKind (hread x h))
  · show c.accepts found = true ↔
      ∃ x, Scalar.coerce found k = some x ∧ c.overlaps (.eq x) = .ok true
    rw [Condition.accepts_iff_holds hkind]
    refine exists_congr fun x => and_congr_right fun h => ?_
    rw [Condition.overlaps_eq_iff_holds (hread x h)]
    exact (iff_true_left rfl).symm

/-- The betas of `1.0.0`, from the first one on. -/
def betas : Interval where
  lower := some { value := Scalar.preRelease "beta.1", inclusive := true }
  upper := some { value := Scalar.preRelease "rc", inclusive := false }

theorem second_beta_accepted :
    (plain (.within betas)).isQuantified = false ∧ (plain (.within betas)).validate = .ok () ∧
      (plain (.within betas)).kind = .ok (some .version) ∧
      (∃ inside, betas.contains (Scalar.preRelease "beta.2") = .ok inside) ∧
      (plain (.within betas)).accepts (.string "v1.0-beta.2") = true := by
  have hread : Scalar.coerce (.string "v1.0-beta.2") .version =
      some (Scalar.preRelease "beta.2") := rfl
  obtain ⟨htold, haccepts⟩ :=
    accepts_iff_overlaps (r := plain (.within betas)) rfl rfl rfl (.string "v1.0-beta.2")
  exact ⟨rfl, rfl, rfl, (htold _ hread).2.2 betas rfl, haccepts.mpr ⟨_, hread, rfl⟩⟩

end AttributeRule

end FeatureFlags
