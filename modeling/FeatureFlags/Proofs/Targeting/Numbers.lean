import FeatureFlags.Proofs.Decimal.Order
import FeatureFlags.Proofs.Targeting.Matching

/-!
# Rules on numbers

Number rules follow the order of numbers, but for the two zeros: `Condition.numbers_in_order`. That
the exception is one is shown by `Condition.zeros_told_apart`.

A condition sees of a value only how it compares with the values that the condition names
(`Condition.holds_congr`). So values that compare alike with all of these are accepted alike.
-/

namespace FeatureFlags

open Double

variable {a b : Double} {x y : ℚ}

namespace Scalar

theorem exists_of_kind_number {v : Scalar} (h : v.kind = .number) : ∃ d, v = number d := by
  cases v with
  | number d => exact ⟨d, rfl⟩
  | bool _ | string _ | timestamp _ | version _ => cases h

/-- Only plain attributes are read as numbers. -/
theorem isPlain_of_coerce_number {found : Json} {x : Scalar} (h : coerce found .number = some x) :
    Condition.isPlain found = true := by
  cases found with
  | number _ | string _ => rfl
  | null | bool _ | array _ | object _ | unreadable => cases h

end Scalar

namespace Condition

variable {c : Condition} {k : ScalarKind}

/-- Values that compare alike with all values of a condition satisfy it alike. -/
theorem holds_congr {x y : Scalar} (h : ∀ v ∈ c.values, x.order v = y.order v) :
    c.Holds x ↔ c.Holds y := by
  cases c with
  | eq v => rw [holds_eq_iff, holds_eq_iff, h v (List.mem_singleton_self v)]
  | oneOf vs =>
    rw [holds_oneOf_iff, holds_oneOf_iff]
    exact exists_congr fun v => and_congr_right fun hv => by rw [h v hv]
  | within i =>
    have hbound : ∀ side b, b ∈ i.lower ∨ b ∈ i.upper →
        (b.Admits side (.point x) ↔ b.Admits side (.point y)) := by
      intro side b hb
      have hsame := h b.value (Interval.mem_endpoints_iff.mpr ⟨b, hb, rfl⟩)
      simp only [Bound.Admits, Bound.point, hsame]
    rw [holds_within_iff, holds_within_iff]
    exact and_congr (forall₂_congr fun l hl => hbound .gt l (.inl hl))
      (forall₂_congr fun u hu => hbound .lt u (.inr hu))

/-- Attributes that are read as values which compare alike are accepted alike. -/
theorem accepts_congr {x y : Scalar} {found found' : Json} (hkind : c.kind = .ok (some k))
    (hx : Scalar.coerce found k = some x) (hy : Scalar.coerce found' k = some y)
    (h : ∀ v ∈ c.values, x.order v = y.order v) : c.accepts found = c.accepts found' := by
  rw [Bool.eq_iff_iff, accepts_iff_holds hkind, accepts_iff_holds hkind]
  simp only [hx, hy, Option.some.injEq, exists_eq_left']
  exact holds_congr h

/-- A condition that names no values takes all plain attributes or none. -/
theorem accepts_congr_of_values_eq_nil {found found' : Json} (hvalues : c.values = [])
    (h : isPlain found = isPlain found') : c.accepts found = c.accepts found' := by
  cases c with
  | eq v => cases hvalues
  | oneOf vs =>
    obtain rfl : vs = [] := hvalues
    rfl
  | within i =>
    have hkind : i.kind = .ok none := congrArg Scalar.uniformKind hvalues
    rw [accepts, accepts, hkind]
    exact h

theorem kind_of_forall (hvalues : c.values ≠ []) (h : ∀ v ∈ c.values, v.kind = k) :
    c.kind = .ok (some k) := by
  obtain ⟨v, rest, hcons⟩ := List.exists_cons_of_ne_nil hvalues
  have hone : Scalar.OneKind c.values := fun x hx y hy => (h x hx).trans (h y hy).symm
  refine Scalar.uniformKind_eq_ok_iff.mpr ⟨hone, ?_⟩
  rw [hcons, List.head?_cons, Option.map_some, h v (hcons ▸ List.mem_cons_self)]

/-- **Number rules follow the order of numbers.** Two finite doubles compare as the numbers that
they stand for, except that the negative zero comes before the other one. So a rule whose values are
numbers takes attributes of equal value alike, unless they are zeros of different sign and the rule
names a zero. -/
theorem numbers_in_order (ha : a.value? = some x) (hb : b.value? = some y) :
    ((Scalar.number a).compare (.number b) = some .lt ↔ x < y ∨ a.ZerosInOrder b) ∧
    ((Scalar.number a).compare (.number b) = some .eq ↔ x = y ∧ ¬ a.OppositeZeros b) ∧
    ((Scalar.number a).compare (.number b) = some .gt ↔ y < x ∨ b.ZerosInOrder a) ∧
    (x = y → ∀ c : Condition, (∀ v ∈ c.values, v.kind = .number) →
      (¬ a.OppositeZeros b ∨ ∀ negative, .number (zero negative) ∉ c.values) →
      ∀ found found', Scalar.coerce found .number = some (.number a) →
        Scalar.coerce found' .number = some (.number b) → c.accepts found = c.accepts found') := by
  simp only [Scalar.compare, Option.some.injEq]
  refine ⟨compare_eq_lt_iff_value ha hb, compare_eq_eq_iff_value ha hb,
    compare_eq_gt_iff_value ha hb, ?_⟩
  intro hvalue c hnumbers hzeros found found' hfound hfound'
  by_cases hvalues : c.values = []
  · refine accepts_congr_of_values_eq_nil hvalues ?_
    rw [Scalar.isPlain_of_coerce_number hfound, Scalar.isPlain_of_coerce_number hfound']
  · refine accepts_congr (kind_of_forall hvalues hnumbers) hfound hfound' fun v hv => ?_
    obtain ⟨d, rfl⟩ := Scalar.exists_of_kind_number (hnumbers v hv)
    show a.compare d = b.compare d
    by_cases hopposite : a.OppositeZeros b
    · refine compare_eq_of_oppositeZeros hopposite fun negative hzero => ?_
      exact hzeros.resolve_left (not_not_intro hopposite) negative (hzero ▸ hv)
    · rw [eq_of_value_eq ha hb hvalue hopposite]

/-- From minus one on and below one. -/
def aroundZero : Condition :=
  within
    { lower := some { value := .number ⟨0xBFF0000000000000⟩, inclusive := true }
      upper := some { value := .number ⟨0x3FF0000000000000⟩, inclusive := false } }

theorem zeros_accepted_alike :
    (zero true).value? = some 0 ∧ (zero false).value? = some 0 ∧
      (∀ v ∈ aroundZero.values, v.kind = .number) ∧
      Scalar.coerce (.number (.double (zero true))) .number = some (.number (zero true)) ∧
      Scalar.coerce (.string " 0 ") .number = some (.number (zero false)) ∧
      aroundZero.accepts (.number (.double (zero true))) = aroundZero.accepts (.string " 0 ") := by
  have hnegative := value?_zero true
  have hpositive := value?_zero false
  have hread : Scalar.coerce (.string " 0 ") .number = some (.number (zero false)) := by decide
  obtain ⟨-, -, -, hrules⟩ := numbers_in_order hnegative hpositive
  exact ⟨hnegative, hpositive, by decide, rfl, hread,
    hrules rfl aroundZero (by decide) (.inr (by decide)) _ _ rfl hread⟩

/-- The two zeros stand for one number, and still the negative one comes before the other, and the
rule of equality to a zero takes only one of them. -/
theorem zeros_told_apart :
    (zero true).value? = some 0 ∧ (zero false).value? = some 0 ∧
      (Scalar.number (zero true)).compare (.number (zero false)) = some .lt ∧
      (eq (.number (zero false))).accepts (.number (.double (zero false))) = true ∧
      (eq (.number (zero false))).accepts (.number (.double (zero true))) = false :=
  ⟨value?_zero true, value?_zero false, by decide, by decide, by decide⟩

end Condition

end FeatureFlags
