import FeatureFlags.Proofs.Scalar.Kinds
import FeatureFlags.Proofs.Scalar.Order
import FeatureFlags.Scalar.Sets
import Mathlib.Data.List.Induction

/-!
# Finite sets are exact

`Scalar.set_algebra_exact`: union, intersection and difference of two lists of one kind hold the
elements that they should, the first of each (`Scalar.FirstSeen`), and whether sets overlap is told
by what is in the intersection and in the difference. Lists of two kinds are refused by all of them
for the same reason.

Being the same is coarser than equality, so it matters which of several elements is listed.
Everything is reduced to `Scalar.distinct`, which goes through a list from its front: what it has
seen is told by induction from the end (`Scalar.firstSeen_distinct`). A condition that does not tell
elements that are the same apart may be asked before or after it (`Scalar.distinct_filter`), so
intersection and difference of `a` are two complementary parts of what is distinct in `a`.
-/

namespace FeatureFlags.Scalar

variable {x y : Scalar} {a b l set : List Scalar} {p : Scalar → Bool}

/-! ## Members -/

theorem memberOf_eq_true_iff : x.memberOf l = true ↔ ∃ y ∈ l, x.sameAs y = true := List.any_eq_true

theorem memberOf_congr (h : x.sameAs y = true) (l : List Scalar) : x.memberOf l = y.memberOf l := by
  unfold memberOf
  congr 1
  funext z
  exact sameAs_congr h z

theorem memberOf_of_mem (h : x ∈ l) : x.memberOf l = true :=
  memberOf_eq_true_iff.mpr ⟨x, h, sameAs_self x⟩

@[simp] theorem memberOf_append (x : Scalar) (a b : List Scalar) :
    x.memberOf (a ++ b) = (x.memberOf a || x.memberOf b) := List.any_append

theorem memberOf_singleton (x y : Scalar) : x.memberOf [y] = x.sameAs y := by
  simp [memberOf]

/-- A condition does not tell elements that are the same apart. -/
def Respects (p : Scalar → Bool) : Prop := ∀ x y, x.sameAs y = true → p x = p y

theorem respects_memberOf (b : List Scalar) : Respects (memberOf · b) :=
  fun _ _ h => memberOf_congr h b

theorem Respects.not (h : Respects p) : Respects fun x => !p x := by
  intro x y hxy
  show (!p x) = !p y
  rw [h x y hxy]

theorem memberOf_filter (hp : Respects p) (x : Scalar) (l : List Scalar) :
    x.memberOf (l.filter p) = (x.memberOf l && p x) := by
  rw [Bool.eq_iff_iff, Bool.and_eq_true, memberOf_eq_true_iff, memberOf_eq_true_iff]
  constructor
  · rintro ⟨y, hy, hxy⟩
    obtain ⟨hmem, hpy⟩ := List.mem_filter.mp hy
    exact ⟨⟨y, hmem, hxy⟩, (hp x y hxy).trans hpy⟩
  · rintro ⟨⟨y, hmem, hxy⟩, hpx⟩
    exact ⟨y, List.mem_filter.mpr ⟨hmem, (hp x y hxy).symm.trans hpx⟩, hxy⟩

/-! ## The first of each -/

/-- The elements of a set are the first of their kind in a list, and stand in the order in which
the list first has them. -/
structure FirstSeen (source set : List Scalar) : Prop where
  /-- No two elements are the same. -/
  apart : set.Pairwise fun x y => x.sameAs y = false
  /-- Of what is the same in the list, the first is taken. -/
  first : ∀ x ∈ set, source.find? (·.sameAs x) = some x
  /-- What is seen earlier comes earlier. -/
  ordered : set.Pairwise fun x y =>
    source.findIdx (·.sameAs x) < source.findIdx (·.sameAs y)

theorem findIdx_lt_of_find? {source : List Scalar} (h : source.find? (·.sameAs x) = some y) :
    source.findIdx (·.sameAs x) < source.length :=
  List.findIdx_lt_length_of_exists
    ⟨y, List.mem_of_find?_eq_some h, by simpa using List.find?_some h⟩

namespace FirstSeen

theorem nil : FirstSeen l [] := ⟨List.Pairwise.nil, List.forall_mem_nil _, List.Pairwise.nil⟩

/-- What follows in the list does not matter. -/
theorem append (h : FirstSeen l set) (rest : List Scalar) : FirstSeen (l ++ rest) set where
  apart := h.apart
  first x hx := by rw [List.find?_append, h.first x hx, Option.some_or]
  ordered := by
    refine h.ordered.imp_of_mem ?_
    intro x y hx hy hxy
    rw [List.findIdx_append, List.findIdx_append, if_pos (findIdx_lt_of_find? (h.first x hx)),
      if_pos (findIdx_lt_of_find? (h.first y hy))]
    exact hxy

theorem filter (h : FirstSeen l set) (p : Scalar → Bool) : FirstSeen l (set.filter p) where
  apart := h.apart.filter p
  first x hx := h.first x (List.mem_filter.mp hx).1
  ordered := h.ordered.filter p

/-- What the list has not seen so far is put at the end. -/
theorem append_singleton (h : FirstSeen l set) (hsub : ∀ y ∈ set, y.memberOf l = true)
    (hx : x.memberOf l = false) : FirstSeen (l ++ [x]) (set ++ [x]) := by
  have hnone : ∀ y ∈ l, y.sameAs x = false := by
    intro y hy
    rw [sameAs_comm]
    exact Bool.eq_false_iff.mpr (List.any_eq_false.mp hx y hy)
  have hlast : (l ++ [x]).find? (·.sameAs x) = some x := by
    rw [List.find?_append, List.find?_eq_none.mpr fun y hy => by simp [hnone y hy], Option.none_or,
      List.find?_singleton, sameAs_self]
    rfl
  have hplace : (l ++ [x]).findIdx (·.sameAs x) = l.length := by
    have hbehind : l.findIdx (·.sameAs x) = l.length :=
      List.findIdx_eq_length.mpr hnone
    rw [List.findIdx_append, if_neg (by omega), List.findIdx_singleton, sameAs_self]
    simp
  have hkept := h.append [x]
  refine ⟨?_, ?_, ?_⟩
  · refine List.pairwise_append.mpr ⟨h.apart, List.pairwise_singleton _ x, ?_⟩
    intro y hy z hz
    obtain rfl := List.mem_singleton.mp hz
    have hseen := hsub y hy
    by_contra hsame
    rw [Bool.not_eq_false] at hsame
    rw [memberOf_congr hsame, hx] at hseen
    cases hseen
  · exact List.forall_mem_append.mpr ⟨hkept.first, List.forall_mem_singleton.mpr hlast⟩
  · refine List.pairwise_append.mpr ⟨hkept.ordered, List.pairwise_singleton _ x, ?_⟩
    intro y hy z hz
    obtain rfl := List.mem_singleton.mp hz
    have hlt : l.findIdx (·.sameAs y) < l.length := findIdx_lt_of_find? (h.first y hy)
    rw [hplace, List.findIdx_append, if_pos hlt]
    exact hlt

end FirstSeen

/-! ## What is distinct -/

theorem distinct_append_singleton (l : List Scalar) (x : Scalar) :
    distinct (l ++ [x]) = if x.memberOf (distinct l) then distinct l else distinct l ++ [x] := by
  have hany : (distinct l).any (fun y => y.sameAs x) = x.memberOf (distinct l) := by
    unfold memberOf
    congr 1
    funext y
    exact sameAs_comm y x
  rw [← hany, distinct, List.foldl_append]
  rfl

/-- Nothing is lost. -/
theorem memberOf_distinct (x : Scalar) (l : List Scalar) :
    x.memberOf (distinct l) = x.memberOf l := by
  induction l using List.reverseRecOn with
  | nil => rfl
  | append_singleton l y ih =>
    rw [distinct_append_singleton, memberOf_append, memberOf_singleton, ← ih]
    by_cases hy : y.memberOf (distinct l) = true
    · rw [if_pos hy]
      by_cases hxy : x.sameAs y = true
      · rw [memberOf_congr hxy, hy, Bool.true_or]
      · rw [Bool.not_eq_true] at hxy
        rw [hxy, Bool.or_false]
    · rw [if_neg hy, memberOf_append, memberOf_singleton]

theorem mem_of_mem_distinct (h : x ∈ distinct l) : x.memberOf l = true := by
  rw [← memberOf_distinct]
  exact memberOf_of_mem h

theorem firstSeen_distinct (l : List Scalar) : FirstSeen l (distinct l) := by
  induction l using List.reverseRecOn with
  | nil => exact .nil
  | append_singleton l x ih =>
    rw [distinct_append_singleton, memberOf_distinct]
    by_cases hx : x.memberOf l = true
    · rw [if_pos hx]
      exact ih.append [x]
    · rw [if_neg hx]
      exact ih.append_singleton (fun y hy => mem_of_mem_distinct hy) (Bool.not_eq_true _ ▸ hx)

/-- It does not matter whether elements are left out before or after. -/
theorem distinct_filter (hp : Respects p) (l : List Scalar) :
    distinct (l.filter p) = (distinct l).filter p := by
  induction l using List.reverseRecOn with
  | nil => rfl
  | append_singleton l x ih =>
    rw [List.filter_append, distinct_append_singleton]
    by_cases hpx : p x = true
    · rw [List.filter_cons_of_pos hpx, List.filter_nil, distinct_append_singleton, ih,
        memberOf_filter hp, hpx, Bool.and_true]
      by_cases hx : x.memberOf (distinct l) = true
      · rw [if_pos hx, if_pos hx]
      · rw [if_neg hx, if_neg hx, List.filter_append, List.filter_cons_of_pos hpx, List.filter_nil]
    · rw [List.filter_cons_of_neg hpx, List.filter_nil, List.append_nil, ih]
      by_cases hx : x.memberOf (distinct l) = true
      · rw [if_pos hx]
      · rw [if_neg hx, List.filter_append, List.filter_cons_of_neg hpx, List.filter_nil,
          List.append_nil]

/-- Some element meets a condition exactly if one is left over by it. -/
theorem any_eq_not_isEmpty (hp : Respects p) (l : List Scalar) :
    l.any p = !((distinct l).filter p).isEmpty := by
  rw [Bool.eq_iff_iff, List.any_eq_true, Bool.not_eq_true', List.isEmpty_eq_false_iff_exists_mem]
  constructor
  · rintro ⟨x, hx, hpx⟩
    have hmember : x.memberOf (distinct l) = true := by
      rw [memberOf_distinct]
      exact memberOf_of_mem hx
    obtain ⟨y, hy, hxy⟩ := memberOf_eq_true_iff.mp hmember
    exact ⟨y, List.mem_filter.mpr ⟨hy, (hp x y hxy).symm.trans hpx⟩⟩
  · rintro ⟨x, hx⟩
    obtain ⟨hmem, hpx⟩ := List.mem_filter.mp hx
    obtain ⟨y, hy, hxy⟩ := memberOf_eq_true_iff.mp (mem_of_mem_distinct hmem)
    exact ⟨y, hy, (hp x y hxy).symm.trans hpx⟩

/-! ## The algebra of sets -/

/-- What union, intersection and difference of `a` and `b` are. -/
structure SetAlgebra (a b union inter diff : List Scalar) : Prop where
  union_firstSeen : FirstSeen (a ++ b) union
  inter_firstSeen : FirstSeen (a ++ b) inter
  diff_firstSeen : FirstSeen (a ++ b) diff
  mem_union : ∀ x : Scalar, x.memberOf union = (x.memberOf a || x.memberOf b)
  mem_inter : ∀ x : Scalar, x.memberOf inter = (x.memberOf a && x.memberOf b)
  mem_diff : ∀ x : Scalar, x.memberOf diff = (x.memberOf a && !x.memberOf b)
  /-- Intersection and difference make up what is distinct in `a`. -/
  partition : ∃ parts, FirstSeen a parts ∧ (∀ x : Scalar, x.memberOf parts = x.memberOf a) ∧
    (inter ++ diff).Perm parts

theorem setAlgebra (a b : List Scalar) :
    SetAlgebra a b (distinct (a ++ b)) (distinct (a.filter (memberOf · b)))
      (distinct (a.filter fun x => !memberOf x b)) := by
  have hin := respects_memberOf b
  have hout := hin.not
  rw [distinct_filter hin, distinct_filter hout]
  have hseen := firstSeen_distinct a
  exact {
    union_firstSeen := firstSeen_distinct (a ++ b)
    inter_firstSeen := (hseen.filter _).append b
    diff_firstSeen := (hseen.filter _).append b
    mem_union := fun x => by rw [memberOf_distinct, memberOf_append]
    mem_inter := fun x => by rw [memberOf_filter hin, memberOf_distinct]
    mem_diff := fun x => by rw [memberOf_filter hout, memberOf_distinct]
    partition := ⟨distinct a, hseen, fun x => memberOf_distinct x a, List.filter_append_perm _ _⟩ }

/-- **The algebra of sets is exact.** For lists of one kind, union, intersection and difference are
what they should be, intersection in either order has the same members, and overlap is told by
whether something is in the intersection or in the difference. Lists of two kinds are refused by
all of them, for the same reason. -/
theorem set_algebra_exact (a b : List Scalar) :
    (OneKind (a ++ b) →
      ∃ union inter diff inter', unionSets a b = .ok union ∧ intersectSets a b = .ok inter ∧
        subtractSets a b = .ok diff ∧ intersectSets b a = .ok inter' ∧
        SetAlgebra a b union inter diff ∧ (∀ x : Scalar, x.memberOf inter' = x.memberOf inter) ∧
        setsOverlap a b = .ok (!inter.isEmpty) ∧ setsOverlapNegated a b = .ok (!diff.isEmpty)) ∧
    (¬ OneKind (a ++ b) →
      ∃ cause, unionSets a b = .error cause ∧ intersectSets a b = .error cause ∧
        subtractSets a b = .error cause ∧ setsOverlap a b = .error cause ∧
        setsOverlapNegated a b = .error cause) := by
  constructor
  · intro h
    have halgebra := setAlgebra a b
    have hswapped := setAlgebra b a
    refine ⟨_, _, _, _, withUniformKind_of_oneKind h _, withUniformKind_of_oneKind h _,
      withUniformKind_of_oneKind h _, withUniformKind_of_oneKind (oneKind_append_comm.mp h) _,
      halgebra, ?_, ?_, ?_⟩
    · intro x
      rw [hswapped.mem_inter, halgebra.mem_inter, Bool.and_comm]
    · rw [setsOverlap, withUniformKind_of_oneKind h, distinct_filter (respects_memberOf b),
        any_eq_not_isEmpty (respects_memberOf b)]
    · rw [setsOverlapNegated, withUniformKind_of_oneKind h,
        distinct_filter (respects_memberOf b).not, any_eq_not_isEmpty (respects_memberOf b).not]
  · intro h
    obtain ⟨cause, hcause⟩ := exists_withUniformKind_eq_error h
    exact ⟨cause, hcause _, hcause _, hcause _, hcause _, hcause _⟩

/-- A pre-release in two spellings, and a release. -/
def spelledTwice : List Scalar :=
  [.version { major := 1, minor := 0, patch := 0, pre := some "1" },
    .version { major := 1, minor := 0, patch := 0, pre := some "01" },
    .version { major := 2, minor := 0, patch := 0, pre := none }]

/-- The same pre-release in the second spelling. -/
def spelledAnew : List Scalar :=
  [.version { major := 1, minor := 0, patch := 0, pre := some "01" }]

/-- The intersection has the spelling that it meets first, but the same members in either order; and
a truth value is no text. -/
theorem spelled_algebra :
    (OneKind (spelledTwice ++ spelledAnew) ∧
      ∃ union inter diff inter', unionSets spelledTwice spelledAnew = .ok union ∧
        intersectSets spelledTwice spelledAnew = .ok inter ∧
        subtractSets spelledTwice spelledAnew = .ok diff ∧
        intersectSets spelledAnew spelledTwice = .ok inter' ∧
        SetAlgebra spelledTwice spelledAnew union inter diff ∧ inter' ≠ inter ∧
        (∀ x : Scalar, x.memberOf inter' = x.memberOf inter) ∧
        setsOverlap spelledTwice spelledAnew = .ok true ∧
        setsOverlapNegated spelledTwice spelledAnew = .ok true) ∧
    ∃ cause, unionSets [.bool true] [.string "true"] = .error cause ∧
      setsOverlap [.bool true] [.string "true"] = .error cause := by
  have hone : OneKind (spelledTwice ++ spelledAnew) :=
    oneKind_cons_iff.mpr (by decide)
  have hmixed : ¬ OneKind ([.bool true] ++ [.string "true"]) := by
    intro h
    cases oneKind_pair_iff.mp h
  obtain ⟨union, inter, diff, inter', hunion, hinter, hdiff, hinter', halgebra, hsame, hoverlap,
    hnegated⟩ := (set_algebra_exact spelledTwice spelledAnew).1 hone
  obtain ⟨cause, herror, -, -, herror', -⟩ :=
    (set_algebra_exact [.bool true] [.string "true"]).2 hmixed
  refine ⟨⟨hone, union, inter, diff, inter', hunion, hinter, hdiff, hinter', halgebra, ?_, hsame,
    ?_, ?_⟩, cause, herror, herror'⟩
  · cases hinter
    cases hinter'
    decide
  · cases hinter
    exact hoverlap
  · cases hdiff
    exact hnegated

end FeatureFlags.Scalar
