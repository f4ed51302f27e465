import FeatureFlags.Scalar.Kinds

/-!
# The order of scalars

Within a kind scalars are totally ordered, up to `Scalar.sameAs`: `Scalar.compare_total_preorder`.
`Scalar.order` puts the kinds one behind the other, which makes the order total on all scalars and
lets the laws of comparisons (`Std.TransCmp`) be used for it. `Scalar.compare_eq` says that
`Scalar.compare` is this order wherever it tells anything.

Doubles and instants are ordered by integers. Of versions only the pre-release tags need an
argument: an identifier is compared as a number or as text, and a number comes before any text.
-/

namespace FeatureFlags

open Std

instance : TransCmp Double.compare := inferInstanceAs (TransCmp (compareOn Double.key))

instance : TransCmp Instant.compare :=
  inferInstanceAs (TransCmp (compareLex (compareOn Instant.seconds) (compareOn Instant.nanos)))

namespace Version

instance : TransCmp compareIdentifiers where
  eq_swap {a b} := by
    unfold compareIdentifiers
    cases identifierNumber? a <;> cases identifierNumber? b
    · exact OrientedOrd.eq_swap
    · rfl
    · rfl
    · exact OrientedOrd.eq_swap
  isLE_trans {a b c} := by
    unfold compareIdentifiers
    -- once a text is reached, only texts follow
    cases identifierNumber? a <;> cases identifierNumber? b <;> cases identifierNumber? c <;>
      intro hab hbc
    · exact TransOrd.isLE_trans hab hbc
    · cases hbc
    · cases hab
    · cases hab
    · rfl
    · cases hbc
    · rfl
    · exact TransOrd.isLE_trans hab hbc

theorem compareIdentifierLists_eq (as bs : List (List Char)) :
    compareIdentifierLists as bs = as.compareLex compareIdentifiers bs := by
  induction as generalizing bs with
  | nil => cases bs <;> rfl
  | cons a as ih =>
    cases bs with
    | nil => rfl
    | cons b bs => rw [compareIdentifierLists, ih, List.compareLex_cons_cons]

/-- Tags are compared like words over their identifiers. -/
theorem compareTags_eq (a b : String) :
    compareTags a b =
      (Text.split '.' a.toList).compareLex compareIdentifiers (Text.split '.' b.toList) :=
  compareIdentifierLists_eq _ _

instance : TransCmp comparePre where
  eq_swap {a b} := by
    cases a <;> cases b
    · rfl
    · rfl
    · rfl
    · rw [comparePre, comparePre, compareTags_eq, compareTags_eq]
      exact OrientedCmp.eq_swap
  isLE_trans {a b c} hab hbc := by
    cases a <;> cases b <;> cases c
    · rfl
    · cases hbc
    · cases hab
    · cases hab
    · rfl
    · cases hbc
    · rfl
    · rw [comparePre, compareTags_eq] at hab hbc ⊢
      exact TransCmp.isLE_trans hab hbc

instance : TransCmp Version.compare :=
  have : TransCmp fun a b : Version => comparePre a.pre b.pre :=
    { eq_swap := OrientedCmp.eq_swap
      isLE_trans := TransCmp.isLE_trans }
  inferInstanceAs (TransCmp (compareLex (compareOn major) (compareLex (compareOn minor)
    (compareLex (compareOn patch) fun a b => comparePre a.pre b.pre))))

end Version

/-- The place of a kind among the kinds. -/
def ScalarKind.rank : ScalarKind → Nat
  | bool => 0
  | number => 1
  | string => 2
  | timestamp => 3
  | version => 4

theorem ScalarKind.rank_injective {k k' : ScalarKind} (h : k.rank = k'.rank) : k = k' := by
  cases k <;> cases k' <;> first | rfl | cases h

namespace Scalar

/-- The order within the kinds, with the kinds one behind the other. -/
def order (a b : Scalar) : Ordering := (a.compare b).getD (Ord.compare a.kind.rank b.kind.rank)

variable {a b c : Scalar}

theorem order_of_rank_lt (h : a.kind.rank < b.kind.rank) : a.order b = .lt := by
  have hrank : Ord.compare a.kind.rank b.kind.rank = .lt := Nat.compare_eq_lt.mpr h
  cases a <;> cases b
  all_goals first
    | exact hrank
    | exact absurd h (Nat.lt_irrefl _)

instance : OrientedCmp order where
  eq_swap {a b} := by
    cases a <;> cases b
    -- where the kinds differ, their places decide
    all_goals try rfl
    · exact OrientedOrd.eq_swap (α := Bool)
    · show Double.compare _ _ = _
      exact OrientedCmp.eq_swap
    · exact OrientedOrd.eq_swap (α := String)
    · show Instant.compare _ _ = _
      exact OrientedCmp.eq_swap
    · show Version.compare _ _ = _
      exact OrientedCmp.eq_swap

theorem isLE_order_iff :
    (a.order b).isLE = true ↔
      a.kind.rank < b.kind.rank ∨ a.kind = b.kind ∧ (a.order b).isLE = true := by
  rcases Nat.lt_trichotomy a.kind.rank b.kind.rank with hlt | heq | hgt
  · simp [order_of_rank_lt hlt, hlt]
  · simp [ScalarKind.rank_injective heq]
  · have hswap : a.order b = .gt := OrientedCmp.gt_iff_lt.mpr (order_of_rank_lt hgt)
    have hnot : ¬ a.kind.rank < b.kind.rank := by omega
    simp [hswap, hnot]

instance : TransCmp order where
  isLE_trans {a b c} hab hbc := by
    rw [isLE_order_iff] at hab hbc ⊢
    rcases hab with hab | ⟨hkind, hab⟩
    · left
      rcases hbc with hbc | ⟨hkind', -⟩
      · omega
      · rwa [← hkind']
    rcases hbc with hbc | ⟨hkind', hbc⟩
    · left
      rwa [hkind]
    -- all three are of one kind
    refine .inr ⟨hkind.trans hkind', ?_⟩
    cases a <;> cases b <;> cases hkind <;> cases c <;> cases hkind'
    · show (Ord.compare (α := Bool) _ _).isLE = true
      exact TransOrd.isLE_trans hab hbc
    · show (Double.compare _ _).isLE = true
      exact TransCmp.isLE_trans hab hbc
    · show (Ord.compare (α := String) _ _).isLE = true
      exact TransOrd.isLE_trans hab hbc
    · show (Instant.compare _ _).isLE = true
      exact TransCmp.isLE_trans hab hbc
    · show (Version.compare _ _).isLE = true
      exact TransCmp.isLE_trans hab hbc

/-- Values of one kind are compared by their order, values of two kinds not at all. -/
theorem compare_eq (a b : Scalar) :
    a.compare b = if a.kind = b.kind then some (a.order b) else none := by
  cases a <;> cases b <;> rfl

theorem kind_eq_of_order_eq (h : a.order b = .eq) : a.kind = b.kind := by
  have hle : (a.order b).isLE = true := by rw [h]; rfl
  have hge : (b.order a).isLE = true := by rw [OrientedCmp.eq_comm.mp h]; rfl
  rcases isLE_order_iff.mp hle with hlt | ⟨hkind, -⟩
  · rcases isLE_order_iff.mp hge with hgt | ⟨hkind, -⟩
    · omega
    · exact hkind.symm
  · exact hkind

theorem sameAs_iff : a.sameAs b = true ↔ a.order b = .eq := by
  rw [sameAs, compare_eq, decide_eq_true_iff]
  constructor
  · intro h
    split at h
    · exact Option.some.inj h
    · cases h
  · intro h
    rw [if_pos (kind_eq_of_order_eq h), h]

theorem sameAs_self (a : Scalar) : a.sameAs a = true := sameAs_iff.mpr ReflCmp.compare_self

theorem sameAs_comm (a b : Scalar) : a.sameAs b = b.sameAs a := by
  rw [Bool.eq_iff_iff, sameAs_iff, sameAs_iff]
  exact OrientedCmp.eq_comm

/-- Values that are the same are the same as the same others. -/
theorem sameAs_congr (h : a.sameAs b = true) (c : Scalar) : a.sameAs c = b.sameAs c := by
  have hab : a.order b = .eq := sameAs_iff.mp h
  rw [Bool.eq_iff_iff, sameAs_iff, sameAs_iff]
  constructor
  · intro hac
    exact TransCmp.eq_trans (OrientedCmp.eq_symm hab) hac
  · intro hbc
    exact TransCmp.eq_trans hab hbc

/-- The order of two values is told exactly if they are of one kind. -/
theorem compareOfKind_eq_ok_iff {order : Ordering} :
    compareOfKind a b = .ok order ↔ a.kind = b.kind ∧ a.order b = order := by
  rw [compareOfKind, compare_eq]
  by_cases h : a.kind = b.kind
  · simp [h]
  · simp [h]

/-! ## The order within a kind -/

theorem compare_eq_some_iff {order : Ordering} :
    a.compare b = some order ↔ a.kind = b.kind ∧ a.order b = order := by
  rw [compare_eq]
  by_cases h : a.kind = b.kind
  · simp [h]
  · simp [h]

theorem isSome_compare_iff : (a.compare b).isSome = true ↔ a.kind = b.kind := by
  simp [Option.isSome_iff_exists, compare_eq_some_iff]

theorem compare_self (a : Scalar) : a.compare a = some .eq :=
  compare_eq_some_iff.mpr ⟨rfl, ReflCmp.compare_self⟩

/-- The two values are of one kind, and the first does not come behind the second. -/
def AtMost (a b : Scalar) : Prop := ∃ order, a.compare b = some order ∧ order.isLE = true

theorem atMost_iff : a.AtMost b ↔ a.kind = b.kind ∧ (a.order b).isLE = true := by
  simp [AtMost, compare_eq_some_iff, and_assoc]

theorem AtMost.trans (hab : a.AtMost b) (hbc : b.AtMost c) : a.AtMost c := by
  rw [atMost_iff] at hab hbc ⊢
  exact ⟨hab.1.trans hbc.1, TransCmp.isLE_trans hab.2 hbc.2⟩

theorem atMost_total (h : a.kind = b.kind) : a.AtMost b ∨ b.AtMost a := by
  rw [atMost_iff, atMost_iff]
  cases hle : (a.order b).isLE with
  | true => exact .inl ⟨h, rfl⟩
  | false =>
    have hgt : a.order b = .gt := Ordering.isLE_eq_false.mp hle
    refine .inr ⟨h.symm, ?_⟩
    rw [OrientedCmp.gt_iff_lt.mp hgt]
    rfl

/-- Turned round, two values compare the other way. -/
theorem compare_swap (a b : Scalar) : b.compare a = (a.compare b).map Ordering.swap := by
  have hswap : b.order a = (a.order b).swap := OrientedCmp.eq_swap
  rw [compare_eq, compare_eq, hswap]
  by_cases h : a.kind = b.kind
  · rw [if_pos h, if_pos h.symm, Option.map_some]
  · rw [if_neg h, if_neg (Ne.symm h), Option.map_none]

theorem sameAs_equivalence : Equivalence fun a b : Scalar => a.sameAs b = true where
  refl := sameAs_self
  symm {a b} h := by rwa [sameAs_comm]
  trans {a b c} hab hbc := by rwa [sameAs_congr hab]

/-- Values that are the same compare alike with values that are the same. -/
theorem compare_congr {a' b' : Scalar} (ha : a.sameAs a' = true) (hb : b.sameAs b' = true) :
    a.compare b = a'.compare b' := by
  rw [sameAs_iff] at ha hb
  have horder : a.order b = a'.order b' :=
    (TransCmp.congr_left ha).trans (TransCmp.congr_right hb)
  rw [compare_eq, compare_eq, kind_eq_of_order_eq ha, kind_eq_of_order_eq hb, horder]

/-- **Scalars are totally preordered within each kind.** Two values compare if they are of one kind
and only then; a value is the same as itself, two values turned round compare the other way, and not
to come behind is transitive and total on a kind. So to be the same is an equivalence, and values
that are the same compare alike with all others. -/
theorem compare_total_preorder :
    (∀ a b : Scalar, (a.compare b).isSome = true ↔ a.kind = b.kind) ∧
    (∀ a : Scalar, a.compare a = some .eq) ∧
    (∀ a b : Scalar, b.compare a = (a.compare b).map Ordering.swap) ∧
    (∀ a b c : Scalar, a.AtMost b → b.AtMost c → a.AtMost c) ∧
    (∀ a b : Scalar, a.kind = b.kind → a.AtMost b ∨ b.AtMost a) ∧
    (Equivalence fun a b : Scalar => a.sameAs b = true) ∧
    (∀ a a' b b' : Scalar, a.sameAs a' = true → b.sameAs b' = true →
      a.compare b = a'.compare b') := by
  exact ⟨fun _ _ => isSome_compare_iff, compare_self, compare_swap, fun _ _ _ => AtMost.trans,
    fun _ _ => atMost_total, sameAs_equivalence, fun _ _ _ _ => compare_congr⟩

/-- The pre-release of version 1.0.0 with a tag. -/
def preRelease (tag : String) : Scalar :=
  .version { major := 1, minor := 0, patch := 0, pre := some tag }

/-- Leading zeros do not matter, and a number too long for 64 bits comes behind the others. -/
theorem numbered_preReleases_ordered :
    (preRelease "rc.9").AtMost (preRelease "rc.10") ∧
      (preRelease "rc.10").AtMost (preRelease "rc.18446744073709551616") ∧
      (preRelease "rc.9").AtMost (preRelease "rc.18446744073709551616") ∧
      (preRelease "rc.9").sameAs (preRelease "rc.09") = true ∧
      (preRelease "rc.10").sameAs (preRelease "rc.010") = true ∧
      (preRelease "rc.9").compare (preRelease "rc.10") =
        (preRelease "rc.09").compare (preRelease "rc.010") := by
  obtain ⟨-, -, -, htrans, htotal, -, hcongr⟩ := compare_total_preorder
  have hnine : (preRelease "rc.9").AtMost (preRelease "rc.10") := ⟨.lt, by decide +kernel, rfl⟩
  have hten : (preRelease "rc.10").AtMost (preRelease "rc.18446744073709551616") := by
    have hgt : (preRelease "rc.18446744073709551616").compare (preRelease "rc.10") = some .gt := by
      decide +kernel
    have hkind : (preRelease "rc.10").kind = (preRelease "rc.18446744073709551616").kind := rfl
    refine (htotal _ _ hkind).resolve_right ?_
    rintro ⟨order, horder, hle⟩
    rw [hgt] at horder
    cases horder
    cases hle
  have hnine' : (preRelease "rc.9").sameAs (preRelease "rc.09") = true := by decide +kernel
  have hten' : (preRelease "rc.10").sameAs (preRelease "rc.010") = true := by decide +kernel
  exact ⟨hnine, hten, htrans _ _ _ hnine hten, hnine', hten', hcongr _ _ _ _ hnine' hten'⟩

end Scalar

end FeatureFlags
