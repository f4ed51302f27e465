import FeatureFlags.Proofs.Scalar.Codecs
import FeatureFlags.Proofs.Targeting.Order
import FeatureFlags.Targeting.Segment

/-!
# Segments round-trip

`Segment.roundTrips` and `Population.roundTrips`: what a snapshot says of units.

Expressions and rules are nested to any depth, so their law is by induction on the levels of the
tree that they are decoded from. The operands of a junction are put in order when they are decoded,
and what is in order already stays as it is (`OrderedSet.ofList_of_strict`).
-/

namespace FeatureFlags

open Json

variable {n : Nat}

/-! ## Expressions -/

namespace Expr

theorem listOfJson?_eq (items : List Json) : listOfJson? items = items.mapM ofJson? := by
  induction items with
  | nil => rfl
  | cons j items ih => rw [listOfJson?, ih, List.mapM_cons]

theorem ofJson?_and (content : Json) :
    ofJson? (.object [("and", content)]) = (asList? ofJson? content).map allOf := by
  cases content with
  | array items => exact congrArg (Option.map allOf) (listOfJson?_eq items)
  | _ => rfl

theorem ofJson?_or (content : Json) :
    ofJson? (.object [("or", content)]) = (asList? ofJson? content).map anyOf := by
  cases content with
  | array items => exact congrArg (Option.map anyOf) (listOfJson?_eq items)
  | _ => rfl

theorem operandSet_operandSet (es : List Expr) : operandSet (operandSet es) = operandSet es :=
  OrderedSet.ofList_of_strict (OrderedSet.strict_ofList es)

theorem toJson_allOf (es : List Expr) :
    (allOf es).toJson = .object [("and", ofList toJson (operandSet es))] := by
  rw [allOf, toJson, listToJson_eq_map, ofList]

theorem toJson_anyOf (es : List Expr) :
    (anyOf es).toJson = .object [("or", ofList toJson (operandSet es))] := by
  rw [anyOf, toJson, listToJson_eq_map, ofList]

/-- The operands of a junction are read back in their order. -/
theorem readsBack_operandSet {items : List Json} {es : List Expr}
    (hitems : (array items).Within n) (h : listOfJson? items = some es)
    (ih : ∀ m < n, ∀ e, RoundTrips ofJson? ofJson? toJson m e) :
    ReadsBack (asList? ofJson?) (ofList toJson) n (operandSet es) := by
  rw [listOfJson?_eq] at h
  obtain ⟨m, rfl, hwithin⟩ := within_array_iff.mp hitems
  refine readsBack_list fun e he => ?_
  obtain ⟨j, hj, hdecode⟩ :=
    exists_of_mem_mapM h ((OrderedSet.mem_ofList_iff compare_eq_iff.mp).mp he)
  exact ih m (Nat.lt_succ_self m) e (hwithin j hj) hdecode

/-- **Expressions round-trip.** -/
theorem roundTrips (e : Expr) : RoundTrips ofJson? ofJson? toJson n e := by
  induction n using Nat.strong_induction_on generalizing e with
  | _ n ih =>
    intro j hj h
    unfold ofJson? at h
    split at h
    · cases h
      exact ⟨rfl, printable_string _⟩
    · cases h
      exact ⟨rfl, printable_string _⟩
    · next tag content =>
      obtain ⟨m, rfl, hfields⟩ := within_object_iff.mp hj
      have hcontent : content.Within m := hfields _ List.mem_cons_self
      have hlt : m < m + 1 := Nat.lt_succ_self m
      split at h
      · cases h
        exact ⟨rfl, printable_string _⟩
      · cases h
        exact ⟨rfl, printable_string _⟩
      · next name =>
        cases h
        exact (readsBack_string name).tagged rfl rfl rfl
      · obtain ⟨operand, hoperand, rfl⟩ := Option.map_eq_some_iff.mp h
        exact (ih m hlt operand hcontent hoperand).tagged rfl rfl rfl
      · obtain ⟨es, hes, rfl⟩ := Option.map_eq_some_iff.mp h
        have hread := readsBack_operandSet hcontent hes fun k hk => ih k (hk.trans hlt)
        refine hread.tagged ?_ (toJson_allOf es) (ofJson?_and _)
        rw [allOf, operandSet_operandSet, allOf]
      · obtain ⟨es, hes, rfl⟩ := Option.map_eq_some_iff.mp h
        have hread := readsBack_operandSet hcontent hes fun k hk => ih k (hk.trans hlt)
        refine hread.tagged ?_ (toJson_anyOf es) (ofJson?_or _)
        rw [anyOf, operandSet_operandSet, anyOf]
      · cases h
    · cases h

end Expr

/-! ## Rules -/

namespace AttributeRule

/-- The timestamps in the rule are of the years 0 to 9999. -/
def Dated (r : AttributeRule) : Prop := ∀ s ∈ r.condition.values, s.Dated

/-- **Rules round-trip.** -/
theorem roundTrips {r : AttributeRule} (hdated : r.Dated) :
    RoundTrips ofJson? ofJson? toJson n r := by
  induction n using Nat.strong_induction_on generalizing r with
  | _ n ih =>
    intro j hj h
    unfold ofJson? at h
    split at h
    · next tag content =>
      obtain ⟨m, rfl, hfields⟩ := within_object_iff.mp hj
      have hcontent : content.Within m := hfields _ List.mem_cons_self
      have hlt : m < m + 1 := Nat.lt_succ_self m
      split at h
      · obtain ⟨s, hs, rfl⟩ := Option.map_eq_some_iff.mp h
        have hs := Scalar.roundTrips (hdated s List.mem_cons_self) hcontent hs
        exact hs.tagged rfl rfl rfl
      · obtain ⟨xs, hxs, rfl⟩ := Option.map_eq_some_iff.mp h
        have hdated : ∀ s ∈ xs, s.Dated := hdated
        have hread := RoundTrips.list (fun _ _ s hs => Scalar.roundTrips (hdated s hs)) hcontent hxs
        exact hread.tagged rfl rfl rfl
      · obtain ⟨i, hi, rfl⟩ := Option.map_eq_some_iff.mp h
        exact (Interval.roundTrips hdated hcontent hi).tagged rfl rfl rfl
      · obtain ⟨inner, hinner, rfl⟩ := Option.map_eq_some_iff.mp h
        have hdated : inner.Dated := hdated
        exact (ih m hlt hdated hcontent hinner).tagged rfl rfl rfl
      · obtain ⟨inner, hinner, rfl⟩ := Option.map_eq_some_iff.mp h
        have hdated : inner.Dated := hdated
        exact (ih m hlt hdated hcontent hinner).tagged rfl rfl rfl
      · cases h
    · cases h

end AttributeRule

/-! ## Segments -/

variable (origin origin' : Origin)

namespace Criterion

/-- The timestamps in the criterion are of the years 0 to 9999. -/
def Dated : Criterion → Prop
  | onAttribute _ rule => rule.Dated
  | inSegment _ => True

theorem roundTrips {c : Criterion} (hdated : c.Dated) :
    RoundTrips (ofJson? origin) (ofJson? origin') toJson n c := by
  intro j hj h
  unfold ofJson? at h
  split at h
  · next content hvariant =>
    obtain rfl := variant?_eq_some_some_iff.mp hvariant
    obtain ⟨m, rfl, hfields⟩ := within_object_iff.mp hj
    simp only [Option.bind_eq_bind, Option.bind_eq_some_iff, Option.pure_def,
      Option.some.injEq] at h
    obtain ⟨r, hrecord, path, hpath, rule, hrule, rfl⟩ := h
    obtain ⟨k, rfl, hr⟩ := Record.within_of_ofContent? (hfields _ List.mem_cons_self) hrecord
    have hpath := hr.required hpath (roundTrips_string path)
    have hrule := hr.required hrule (AttributeRule.roundTrips hdated)
    constructor
    · simp only [ofJson?, toJson, variant?, Record.ofContent?_object, Option.bind_eq_bind,
        Option.bind_eq_some_iff]
      exact ⟨_, Record.ofJson?_object rfl (by decide), _, hpath.required rfl,
        _, hrule.required rfl, rfl⟩
    · simp [toJson, printable_object_iff, hpath.printable, hrule.printable]
  · next content hvariant =>
    obtain rfl := variant?_eq_some_some_iff.mp hvariant
    obtain ⟨m, rfl, hfields⟩ := within_object_iff.mp hj
    simp only [Option.bind_eq_bind, Option.bind_eq_some_iff, Option.pure_def,
      Option.some.injEq] at h
    obtain ⟨r, hrecord, segment, hsegment, rfl⟩ := h
    obtain ⟨k, rfl, hr⟩ := Record.within_of_ofContent? (hfields _ List.mem_cons_self) hrecord
    have hsegment := hr.required hsegment (roundTrips_string segment)
    constructor
    · simp only [ofJson?, toJson, variant?, Record.ofContent?_object, Option.bind_eq_bind,
        Option.bind_eq_some_iff]
      exact ⟨_, Record.ofJson?_object rfl (by decide), _, hsegment.required rfl, rfl⟩
    · simp [toJson, printable_object_iff, hsegment.printable]
  · cases h

end Criterion

namespace Targeting

/-- The timestamps in the targeting are of the years 0 to 9999. -/
def Dated (t : Targeting) : Prop := ∀ e ∈ t.criteria.entries, e.2.Dated

theorem roundTrips {t : Targeting} (hdated : t.Dated) (hn : 2 ≤ n) :
    RoundTrips (ofJson? origin) (ofJson? origin') toJson n t := by
  intro j hj h
  simp only [ofJson?, Option.bind_eq_bind, Option.bind_eq_some_iff, Option.pure_def,
    Option.some.injEq] at h
  obtain ⟨r, hrecord, expression, hexpression, criteria, hcriteria, rfl⟩ := h
  obtain ⟨m, rfl, hr⟩ := Record.within_of_ofJson? hj hrecord
  have hexpression := hr.required hexpression expression.roundTrips
  have hcriteria := hr.defaulted hcriteria (readsBack_empty (by omega))
    (.dict fun _ _ e he => Criterion.roundTrips origin origin' (hdated e he))
  constructor
  · simp only [ofJson?, Option.bind_eq_bind, Option.bind_eq_some_iff]
    exact ⟨_, Record.ofJson?_object rfl (by decide), _, hexpression.required rfl,
      _, hcriteria.defaulted rfl, rfl⟩
  · simp [toJson, printable_object_iff, hexpression.printable, hcriteria.printable]

theorem readsBack_everyone (hn : 2 ≤ n) : ReadsBack (ofJson? origin) toJson n everyone := by
  obtain ⟨m, rfl⟩ := Nat.exists_eq_add_of_le' hn
  refine ⟨rfl, rfl, ?_⟩
  exact Nat.le_add_left 2 m

end Targeting

namespace Segment

/-- The timestamps in the segment are of the years 0 to 9999. -/
def Dated (s : Segment) : Prop := s.targeting.Dated

/-- **Segments round-trip.** -/
theorem roundTrips {s : Segment} (hdated : s.Dated) (hn : 3 ≤ n) :
    RoundTrips (ofJson? origin) (ofJson? origin') toJson n s := by
  intro j hj h
  simp only [ofJson?, Option.bind_eq_bind, Option.bind_eq_some_iff, Option.pure_def,
    Option.some.injEq] at h
  obtain ⟨r, hrecord, name, hname, targeting, htargeting, rfl⟩ := h
  obtain ⟨m, rfl, hr⟩ := Record.within_of_ofJson? hj hrecord
  have hname := hr.required hname (roundTrips_string name)
  have htargeting := hr.defaulted htargeting (Targeting.readsBack_everyone origin' (by omega))
    (Targeting.roundTrips origin origin' hdated (by omega))
  constructor
  · simp only [ofJson?, Option.bind_eq_bind, Option.bind_eq_some_iff]
    exact ⟨_, Record.ofJson?_object rfl (by decide), _, hname.required rfl,
      _, htargeting.defaulted rfl, rfl⟩
  · simp [toJson, printable_object_iff, hname.printable, htargeting.printable]

end Segment

/-! ## Populations -/

namespace Population

theorem decode?_full : Text.Hex.decode? "full".toList = none := by decide

/-- No population but the full one is written as `full`, which are no hexadecimal digits. -/
theorem ofText?_encode (bytes : List UInt8) :
    ofText? (String.ofList (Text.Hex.encode bytes)) = some (sample bytes.toArray) := by
  have hne : String.ofList (Text.Hex.encode bytes) ≠ "full" := by
    intro heq
    have hread := Text.Hex.decode?_encode bytes
    rw [← String.toList_ofList (l := Text.Hex.encode bytes), heq, decode?_full] at hread
    cases hread
  rw [ofText?, if_neg hne, String.toList_ofList, Text.Hex.decode?_encode, Option.map_some]

theorem readsBack (p : Population) : ReadsBack ofJson? toJson n p := by
  cases p with
  | full => exact ⟨rfl, printable_string _⟩
  | sample bytes =>
    refine ⟨?_, printable_string _⟩
    show ofText? (String.ofList (Text.Hex.encode bytes.toList)) = some (sample bytes)
    rw [ofText?_encode]

/-- **Populations round-trip.** -/
theorem roundTrips (p : Population) : RoundTrips ofJson? ofJson? toJson n p :=
  fun _ _ _ => p.readsBack

end Population

end FeatureFlags
