import FeatureFlags.Proofs.OrderedSet
import FeatureFlags.Targeting.Expr.Basic

/-!
# The order of expressions

`Expr.compare` is a linear order, so the operands of a junction come out the same whatever the order
in which they are listed. Expressions of two forms are ordered by the rank of the form, and within a
form the order is that of the contents; transitivity is by induction over both at once, because only
equal expressions compare as equal.
-/

namespace FeatureFlags

namespace Expr

open Std

variable {a b c : Expr}

theorem compare_of_rank_ne (h : a.rank ≠ b.rank) : a.compare b = Ord.compare a.rank b.rank := by
  cases a <;> cases b <;> first | rfl | exact absurd rfl h

theorem compare_of_rank_lt (h : a.rank < b.rank) : a.compare b = .lt := by
  rw [compare_of_rank_ne (Nat.ne_of_lt h)]
  exact Nat.compare_eq_lt.mpr h

theorem rank_le_of_compare (h : a.compare b = .lt) : a.rank ≤ b.rank := by
  by_cases hrank : a.rank = b.rank
  · exact Nat.le_of_eq hrank
  · rw [compare_of_rank_ne hrank] at h
    exact Nat.le_of_lt (Nat.compare_eq_lt.mp h)

/-- Only expressions of one form need an argument. -/
theorem compare_trans_of_rank (hab : a.compare b = .lt) (hbc : b.compare c = .lt)
    (h : b.rank = a.rank → c.rank = a.rank → a.compare c = .lt) : a.compare c = .lt := by
  have hle := rank_le_of_compare hab
  have hle' := rank_le_of_compare hbc
  by_cases hrank : a.rank < c.rank
  · exact compare_of_rank_lt hrank
  · exact h (by omega) (by omega)

theorem then_eq_lt {o o' : Ordering} : o.then o' = .lt ↔ o = .lt ∨ o = .eq ∧ o' = .lt := by
  cases o <;> simp [Ordering.then]

mutual

theorem compare_swap : (a b : Expr) → a.compare b = (b.compare a).swap
  | always, b => by cases b <;> rfl
  | never, b => by cases b <;> rfl
  | ref a, b => by
    cases b with
    | ref b => exact OrientedOrd.eq_swap (a := a)
    | _ => rfl
  | not a, b => by
    cases b with
    | not b => exact compare_swap a b
    | _ => rfl
  | all as, b => by
    cases b with
    | all bs => exact compareLists_swap as bs
    | _ => rfl
  | any as, b => by
    cases b with
    | any bs => exact compareLists_swap as bs
    | _ => rfl

theorem compareLists_swap : (as bs : List Expr) → compareLists as bs = (compareLists bs as).swap
  | [], bs => by cases bs <;> rfl
  | a :: as, bs => by
    cases bs with
    | nil => rfl
    | cons b bs =>
      rw [compareLists, compareLists, compare_swap a b, compareLists_swap as bs, Ordering.swap_then]

end

mutual

theorem compare_trans : {a b c : Expr} → a.compare b = .lt → b.compare c = .lt → a.compare c = .lt
  | always, b, c, hab, hbc => compare_trans_of_rank hab hbc fun hb _ => by
    cases b <;> cases hb
    cases hab
  | never, b, c, hab, hbc => compare_trans_of_rank hab hbc fun hb _ => by
    cases b <;> cases hb
    cases hab
  | ref a, b, c, hab, hbc => compare_trans_of_rank hab hbc fun hb hc => by
    cases b <;> cases hb
    cases c <;> cases hc
    next b c =>
      show Ord.compare a c = .lt
      exact TransCmp.lt_trans (b := b) hab hbc
  | not a, b, c, hab, hbc => compare_trans_of_rank hab hbc fun hb hc => by
    cases b <;> cases hb
    cases c <;> cases hc
    exact compare_trans (a := a) hab hbc
  | all as, b, c, hab, hbc => compare_trans_of_rank hab hbc fun hb hc => by
    cases b <;> cases hb
    cases c <;> cases hc
    exact compareLists_trans hab hbc
  | any as, b, c, hab, hbc => compare_trans_of_rank hab hbc fun hb hc => by
    cases b <;> cases hb
    cases c <;> cases hc
    exact compareLists_trans hab hbc

theorem compareLists_trans : {as bs cs : List Expr} → compareLists as bs = .lt →
    compareLists bs cs = .lt → compareLists as cs = .lt
  | [], bs, cs, hab, hbc => by
    cases cs with
    | nil => cases bs <;> cases hbc
    | cons c cs => rfl
  | a :: as, bs, cs, hab, hbc => by
    cases bs with
    | nil => cases hab
    | cons b bs =>
      cases cs with
      | nil => cases hbc
      | cons c cs =>
        rw [compareLists, then_eq_lt] at hab hbc ⊢
        obtain hab | ⟨heq, hab⟩ := hab
        · obtain hbc | ⟨heq', -⟩ := hbc
          · exact .inl (compare_trans hab hbc)
          · obtain rfl := compare_eq_iff.mp heq'
            exact .inl hab
        · obtain rfl := compare_eq_iff.mp heq
          exact hbc.imp_right fun ⟨heq', hbc⟩ => ⟨heq', compareLists_trans hab hbc⟩

end

instance : LawfulEqCmp compare where
  compare_self := compare_eq_iff.mpr rfl
  eq_of_compare := compare_eq_iff.mp

instance : TransCmp compare where
  eq_swap := compare_swap _ _
  isLE_trans {a b c} hab hbc := by
    rw [Ordering.isLE_iff_eq_lt_or_eq_eq] at hab hbc ⊢
    obtain hab | hab := hab
    · obtain hbc | hbc := hbc
      · exact .inl (compare_trans hab hbc)
      · obtain rfl := compare_eq_iff.mp hbc
        exact .inl hab
    · obtain rfl := compare_eq_iff.mp hab
      exact hbc

end Expr

end FeatureFlags
