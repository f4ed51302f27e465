import FeatureFlags.Materialization
import FeatureFlags.OrderedSet

/-!
# Sets are in order

- `OrderedSet.strict_ofList`: the set of a list is in strictly ascending order, for
  every comparison that is transitive.
- `OrderedSet.ofList_of_strict`: what is in strictly ascending order is its own set.
- `OrderedSet.Strict.ext`: a set is known by its members.
- `MissingRecord.distinct`: the comparison of missing records is of this kind, so a
  report is in order and has each record once.
-/

namespace FeatureFlags

namespace OrderedSet

open Std

universe u

variable {α : Type u} {cmp : α → α → Ordering} [TransCmp cmp] [LawfulEqCmp cmp]

theorem strict_insert {set : List α} (h : Strict cmp set) (a : α) :
    Strict cmp (insert cmp a set) := by
  induction set with
  | nil => exact List.pairwise_singleton _ a
  | cons x rest ih =>
    obtain ⟨hx, hrest⟩ := List.pairwise_cons.mp h
    unfold insert
    split
    · next hlt =>
      refine List.pairwise_cons.mpr ⟨fun b hb => ?_, h⟩
      rcases List.mem_cons.mp hb with rfl | hb
      · exact hlt
      · exact TransCmp.lt_trans hlt (hx b hb)
    · exact h
    · next hgt =>
      -- what is below the new element and what was below the old ones are both above `x`
      refine List.pairwise_cons.mpr ⟨fun b hb => ?_, ih hrest⟩
      rcases (mem_insert_iff LawfulEqCmp.eq_of_compare).mp hb with rfl | hb
      · exact OrientedCmp.lt_of_gt hgt
      · exact hx b hb

/-- Adding all members of a list keeps the order. -/
theorem strict_insertAll {set : List α} (h : Strict cmp set) (items : List α) :
    Strict cmp (insertAll cmp set items) := by
  unfold insertAll
  induction items generalizing set with
  | nil => exact h
  | cons a rest ih => exact ih (strict_insert h a)

/-- The set of a list is in strictly ascending order. -/
theorem strict_ofList (items : List α) : Strict cmp (ofList cmp items) :=
  strict_insertAll List.Pairwise.nil items

omit [TransCmp cmp] in
/-- What is in strictly ascending order has each member once. -/
theorem Strict.nodup {set : List α} (h : Strict cmp set) : set.Nodup := by
  refine List.Pairwise.imp (fun {a b} hlt heq => ?_) h
  have hself : cmp b b = .eq := ReflCmp.compare_self
  rw [heq, hself] at hlt
  cases hlt

/-- Sets with the same members are the same list. -/
theorem Strict.ext {set other : List α} (h : Strict cmp set) (h' : Strict cmp other)
    (hmem : ∀ a, a ∈ set ↔ a ∈ other) : set = other := by
  refine List.Perm.eq_of_pairwise (fun a b _ _ hab hba => ?_) h h' ?_
  · -- no two members come before each other
    rw [OrientedCmp.gt_of_lt hba] at hab
    cases hab
  · exact (List.perm_ext_iff_of_nodup h.nodup h'.nodup).mpr hmem

omit [LawfulEqCmp cmp] in
/-- What comes behind all members is put behind them. -/
theorem insert_of_forall_lt {set : List α} {a : α} (h : ∀ x ∈ set, cmp x a = .lt) :
    insert cmp a set = set ++ [a] := by
  induction set with
  | nil => rfl
  | cons x rest ih =>
    obtain ⟨hx, hrest⟩ := List.forall_mem_cons.mp h
    have hgt : cmp a x = .gt := OrientedCmp.gt_of_lt hx
    rw [insert, hgt, List.cons_append, ← ih hrest]

omit [LawfulEqCmp cmp] in
/-- A set that is listed in its order is the list. -/
theorem ofList_of_strict {set : List α} (h : Strict cmp set) : ofList cmp set = set := by
  suffices hall : ∀ before, Strict cmp (before ++ set) →
      insertAll cmp before set = before ++ set from hall [] h
  clear h
  unfold insertAll
  induction set with
  | nil => exact fun before _ => (List.append_nil before).symm
  | cons a rest ih =>
    intro before hstrict
    have hbefore : ∀ x ∈ before, cmp x a = .lt := fun x hx =>
      (List.pairwise_append.mp hstrict).2.2 x hx a List.mem_cons_self
    rw [List.append_cons] at hstrict ⊢
    rw [List.foldl_cons, insert_of_forall_lt hbefore, ih _ hstrict]

end OrderedSet

namespace MissingRecord

instance : Std.TransCmp compare :=
  inferInstanceAs <| Std.TransCmp <| compareLex (compareOn MissingRecord.unit) <|
    compareLex (compareOn MissingRecord.rule) (compareOn MissingRecord.materialization)

instance : Std.LawfulEqCmp compare where
  eq_of_compare {a b} h := by
    obtain ⟨unit, rule, materialization⟩ := a
    obtain ⟨unit', rule', materialization'⟩ := b
    simpa [compare, Ordering.then_eq_eq] using h

theorem mem_distinct_iff {item : MissingRecord} {items : List MissingRecord} :
    item ∈ distinct items ↔ item ∈ items :=
  OrderedSet.mem_ofList_iff Std.LawfulEqCmp.eq_of_compare

theorem strict_distinct (items : List MissingRecord) :
    OrderedSet.Strict compare (distinct items) :=
  OrderedSet.strict_ofList items

end MissingRecord

end FeatureFlags
