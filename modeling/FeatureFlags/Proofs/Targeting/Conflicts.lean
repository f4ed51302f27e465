import FeatureFlags.Proofs.Targeting.Overlap

/-!
# Conflicts between rules

`AttributeRule.overlaps` compares the conditions inside two rules and passes over the quantifiers.

- `AttributeRule.overlaps_of_accepts`: a conflict of plain rules, that is, an attribute that both
  accept, is never told to be none.
- `AttributeRule.misses_conflict_iff`: of well-formed rules only two `any` rules can have a conflict
  that is missed. A list may satisfy them with two different elements, and then nothing is asked of
  a single value. In all other pairs one of the rules speaks of every element
  (`AttributeRule.accepts_every`), the one that satisfies the other rule included.
- `AttributeRule.overlaps_symmetric`: the order of the rules does not matter, and what is an error
  is a difference in kind.
-/

namespace FeatureFlags

namespace Condition

variable {c d : Condition} {found : Json} {k : ScalarKind}

/-- For conditions that each have one kind, to be comparable is to have the same one. -/
theorem comparable_iff (hc : Scalar.OneKind c.values) (hd : Scalar.OneKind d.values) :
    c.Comparable d ↔ ∀ x ∈ c.values, ∀ y ∈ d.values, x.kind = y.kind := by
  refine ⟨fun h x hx y hy => h.kind_eq hx hy, fun h => ?_⟩
  have happend : Scalar.OneKind (c.values ++ d.values) := (Scalar.oneKind_append_iff hc hd).mpr h
  cases c <;> cases d
  case oneOf.within xs i =>
    exact fun x hx => Scalar.oneKind_cons_iff.mpr fun y hy => (h x hx y hy).symm
  case within.oneOf i ys =>
    exact fun y hy => Scalar.oneKind_cons_iff.mpr fun x hx => h x hx y hy
  all_goals exact happend

theorem kind_eq_some_iff (hc : Scalar.OneKind c.values) :
    c.kind = .ok (some k) ↔ ∃ x ∈ c.values, x.kind = k := by
  rw [kind, Scalar.uniformKind_eq_ok_iff, and_iff_right hc, eq_comm, Option.map_eq_some_iff]
  constructor
  · rintro ⟨x, hx, hkind⟩
    exact ⟨x, List.mem_of_head? hx, hkind⟩
  · rintro ⟨x, hx, hkind⟩
    obtain ⟨first, rest, hvalues⟩ := List.exists_cons_of_ne_nil (List.ne_nil_of_mem hx)
    refine ⟨first, by rw [hvalues]; rfl, ?_⟩
    have hfirst : first ∈ c.values := by
      rw [hvalues]
      exact List.mem_cons_self
    rw [← hkind]
    exact hc first hfirst x hx

/-- What is missing, a list or an object is no value of any kind. -/
theorem coerce_eq_none (h : isPlain found = false) (k : ScalarKind) :
    Scalar.coerce found k = none := by
  cases found <;> cases h <;> cases k <;> rfl

theorem isPlain_of_accepts (h : c.accepts found = true) : isPlain found = true := by
  cases hplain : isPlain found with
  | true => rfl
  | false =>
    have hnone := coerce_eq_none hplain
    rcases c with y | ⟨_ | ⟨first, rest⟩⟩ | i
    · rw [accepts, hnone] at h
      cases h
    · cases h
    · rw [accepts, hnone] at h
      cases h
    · rw [accepts] at h
      split at h
      · rw [hnone] at h
        cases h
      · rw [hplain] at h
        cases h
      · cases h

end Condition

namespace AttributeRule

variable {a b r : AttributeRule} {c d : Condition} {found item : Json}

/-! ## Well-formed rules -/

/-- How many quantifiers stand before the condition. -/
def quantifiers : AttributeRule → Nat
  | plain _ => 0
  | any r | all r => r.quantifiers + 1

/-- The rules that pass validation have one kind and at most one quantifier. -/
theorem validate_eq_ok_iff :
    r.validate = .ok () ↔ Scalar.OneKind r.condition.values ∧ r.quantifiers ≤ 1 := by
  have hplain : ∀ c, (plain c).validate = .ok () ↔ Scalar.OneKind c.values := by
    intro c
    have hkind : (∃ k, Scalar.uniformKind c.values = .ok k) ↔ Scalar.OneKind c.values :=
      Scalar.exists_uniformKind_iff
    rw [validate, Condition.kind]
    cases h : Scalar.uniformKind c.values <;> simp [← hkind, h]
  cases r with
  | plain c => simp [hplain, condition, quantifiers]
  | any r | all r =>
    rw [validate, condition, quantifiers]
    cases r with
    | plain c => simp [hplain, isQuantified, condition, quantifiers]
    | any r | all r => simp [isQuantified, quantifiers]

theorem cases_of_quantifiers_le_one (h : r.quantifiers ≤ 1) :
    r = plain r.condition ∨ r = any (plain r.condition) ∨ r = all (plain r.condition) := by
  have hinner : ∀ s : AttributeRule, s.quantifiers + 1 ≤ 1 → s = plain s.condition := by
    intro s hs
    cases s with
    | plain c => rfl
    | any s | all s =>
      rw [quantifiers] at hs
      omega
  cases r with
  | plain c => exact .inl rfl
  | any r => exact .inr (.inl (congrArg any (hinner r h)))
  | all r => exact .inr (.inr (congrArg all (hinner r h)))

/-! ## The elements that satisfy a rule -/

theorem elements_of_accepts (h : c.accepts found = true) : elements found = [found] := by
  have hplain := Condition.isPlain_of_accepts h
  cases found <;> cases hplain <;> rfl

theorem normal_of_mem_elements (h : found.Normal) (hitem : item ∈ elements found) :
    item.Normal := by
  cases found with
  | null => cases hitem
  | array items => exact (Json.normal_array_iff items).mp h item hitem
  | bool _ | number _ | string _ | object _ | unreadable =>
    cases List.mem_singleton.mp hitem
    exact h

/-- A well-formed rule is satisfied by at least one element. -/
theorem exists_accepted (hr : r.quantifiers ≤ 1) (h : r.accepts found = true) :
    ∃ item ∈ elements found, r.condition.accepts item = true := by
  rcases cases_of_quantifiers_le_one hr with heq | heq | heq <;> rw [heq] at h
  · rw [elements_of_accepts h]
    exact ⟨found, List.mem_singleton_self found, h⟩
  · exact List.any_eq_true.mp h
  · -- the rule asks for an element to begin with
    obtain ⟨hne, hall⟩ := Bool.and_eq_true_iff.mp h
    have hsome : elements found ≠ [] := by simpa using hne
    obtain ⟨item, hitem⟩ := List.exists_mem_of_ne_nil _ hsome
    exact ⟨item, hitem, List.all_eq_true.mp hall item hitem⟩

/-- A well-formed rule without an `any` is satisfied by every element. -/
theorem accepts_every (hr : r.quantifiers ≤ 1) (hany : r ≠ any (plain r.condition))
    (h : r.accepts found = true) : ∀ item ∈ elements found, r.condition.accepts item = true := by
  intro item hitem
  rcases cases_of_quantifiers_le_one hr with heq | heq | heq
  · -- what a condition accepts is no list, so it is its only element
    rw [heq] at h
    rw [elements_of_accepts h] at hitem
    cases List.mem_singleton.mp hitem
    exact h
  · exact absurd heq hany
  · rw [heq] at h
    exact List.all_eq_true.mp (Bool.and_eq_true_iff.mp h).2 item hitem

/-- Two well-formed rules that are not both `any` rules are satisfied by one and the same element of
an attribute that satisfies both. -/
theorem exists_accepted_by_both (ha : a.quantifiers ≤ 1) (hb : b.quantifiers ≤ 1)
    (hany : a ≠ any (plain a.condition) ∨ b ≠ any (plain b.condition))
    (hfound : a.accepts found = true) (hfound' : b.accepts found = true) :
    ∃ item, a.condition.accepts item = true ∧ b.condition.accepts item = true := by
  rcases hany with hany | hany
  · obtain ⟨item, hitem, h⟩ := exists_accepted hb hfound'
    exact ⟨item, accepts_every ha hany hfound item hitem, h⟩
  · obtain ⟨item, hitem, h⟩ := exists_accepted ha hfound
    exact ⟨item, h, accepts_every hb hany hfound' item hitem⟩

/-! ## Conflicts -/

theorem overlaps_of_accepted_by_both (ha : a.condition.accepts item = true)
    (hb : b.condition.accepts item = true) : a.overlaps b ≠ .ok false := by
  intro hmissed
  obtain ⟨hcomparable, hmeets⟩ := Condition.overlaps_eq_ok_iff.mp hmissed
  cases hmeets.mpr (Condition.meets_of_accepts ha hb hcomparable)

/-- Plain rules that accept one attribute are never told not to overlap. -/
theorem overlaps_of_accepts (ha : a.isQuantified = false) (hb : b.isQuantified = false)
    (hfound : a.accepts found = true) (hfound' : b.accepts found = true) :
    a.overlaps b ≠ .ok false := by
  cases a <;> cases ha
  cases b <;> cases hb
  exact overlaps_of_accepted_by_both hfound hfound'

theorem beta_overlaps_testers :
    (plain (.eq (.string "beta"))).accepts (.string "beta") = true ∧
      (plain (.oneOf [.string "staff", .string "beta"])).accepts (.string "beta") = true ∧
      (plain (.eq (.string "beta"))).overlaps (plain (.oneOf [.string "staff", .string "beta"])) ≠
        .ok false := by
  have hbeta : (plain (.eq (.string "beta"))).accepts (.string "beta") = true := by decide
  have htesters : (plain (.oneOf [.string "staff", .string "beta"])).accepts (.string "beta") =
      true := by decide
  exact ⟨hbeta, htesters, overlaps_of_accepts rfl rfl hbeta htesters⟩

/-- A conflict of well-formed rules is missed exactly for two `any` rules whose conditions do not
overlap and can be satisfied, each by an element of its own. -/
theorem misses_conflict_iff (ha : a.validate = .ok ()) (hb : b.validate = .ok ()) :
    (∃ found : Json, found.Normal ∧ a.accepts found = true ∧ b.accepts found = true ∧
        a.overlaps b = .ok false) ↔
      ∃ c d, a = any (plain c) ∧ b = any (plain d) ∧ c.overlaps d = .ok false ∧
        (∃ item : Json, item.Normal ∧ c.accepts item = true) ∧
        ∃ item : Json, item.Normal ∧ d.accepts item = true := by
  obtain ⟨-, ha⟩ := validate_eq_ok_iff.mp ha
  obtain ⟨-, hb⟩ := validate_eq_ok_iff.mp hb
  constructor
  · rintro ⟨found, hnormal, hfound, hfound', hmissed⟩
    obtain ⟨item, hitem, hc⟩ := exists_accepted ha hfound
    obtain ⟨item', hitem', hd⟩ := exists_accepted hb hfound'
    by_cases hany : a = any (plain a.condition) ∧ b = any (plain b.condition)
    · exact ⟨a.condition, b.condition, hany.1, hany.2, hmissed,
        ⟨item, normal_of_mem_elements hnormal hitem, hc⟩,
        ⟨item', normal_of_mem_elements hnormal hitem', hd⟩⟩
    · -- one element satisfies both rules
      obtain ⟨item, hc, hd⟩ :=
        exists_accepted_by_both ha hb (not_and_or.mp hany) hfound hfound'
      exact absurd hmissed (overlaps_of_accepted_by_both hc hd)
  · rintro ⟨c, d, rfl, rfl, hmissed, ⟨item, hnormal, hc⟩, item', hnormal', hd⟩
    -- the list of one value for each rule
    have hlist : (Json.array [item, item']).Normal := by
      rw [Json.normal_array_iff]
      simpa using And.intro hnormal hnormal'
    refine ⟨.array [item, item'], hlist, ?_, ?_, hmissed⟩
    · exact List.any_eq_true.mpr ⟨item, List.mem_cons_self, hc⟩
    · exact List.any_eq_true.mpr ⟨item', List.mem_cons_of_mem _ List.mem_cons_self, hd⟩

theorem all_beta_conflicts_found :
    (all (plain (.eq (.string "beta")))).validate = .ok () ∧
      (any (plain (.eq (.string "staff")))).validate = .ok () ∧
      ¬ ∃ found : Json, found.Normal ∧
        (all (plain (.eq (.string "beta")))).accepts found = true ∧
        (any (plain (.eq (.string "staff")))).accepts found = true ∧
        (all (plain (.eq (.string "beta")))).overlaps (any (plain (.eq (.string "staff")))) =
          .ok false := by
  refine ⟨rfl, rfl, fun hmissed => ?_⟩
  obtain ⟨c, d, hall, -⟩ := (misses_conflict_iff rfl rfl).mp hmissed
  cases hall

/-- A list of the two strings satisfies both rules, which do not overlap by what is told. -/
theorem any_beta_any_staff_missed :
    (any (plain (.eq (.string "beta")))).validate = .ok () ∧
      (any (plain (.eq (.string "staff")))).validate = .ok () ∧
      (any (plain (.eq (.string "beta")))).accepts (.array [.string "beta", .string "staff"]) =
        true ∧
      (any (plain (.eq (.string "staff")))).accepts (.array [.string "beta", .string "staff"]) =
        true ∧
      (any (plain (.eq (.string "beta")))).overlaps (any (plain (.eq (.string "staff")))) =
        .ok false :=
  ⟨rfl, rfl, by decide, by decide, rfl⟩

/-! ## Symmetry and errors -/

/-- The order of two rules does not matter, be they well formed or not; well-formed rules cannot be
compared exactly if both have a kind and the kinds differ. -/
theorem overlaps_symmetric (a b : AttributeRule) :
    (∀ result, a.overlaps b = .ok result ↔ b.overlaps a = .ok result) ∧
      ((∃ cause, a.overlaps b = .error cause) ↔ ∃ cause, b.overlaps a = .error cause) ∧
      (a.validate = .ok () → b.validate = .ok () →
        ((∃ cause, a.overlaps b = .error cause) ↔
          ∃ k k', a.kind = .ok (some k) ∧ b.kind = .ok (some k') ∧ k ≠ k')) := by
  have hsymm : ∀ result, a.overlaps b = .ok result ↔ b.overlaps a = .ok result := by
    intro result
    rw [overlaps, overlaps, Condition.overlaps_eq_ok_iff, Condition.overlaps_eq_ok_iff,
      Condition.comparable_comm, Condition.meets_comm]
  refine ⟨hsymm, ?_, fun ha hb => ?_⟩
  · simp only [exists_error_iff, ne_eq, hsymm]
  · obtain ⟨ha, -⟩ := validate_eq_ok_iff.mp ha
    obtain ⟨hb, -⟩ := validate_eq_ok_iff.mp hb
    rw [exists_error_iff, ← not_exists, overlaps, Condition.exists_overlaps_iff,
      Condition.comparable_iff ha hb, kind, kind]
    simp only [Condition.kind_eq_some_iff ha, Condition.kind_eq_some_iff hb]
    grind

theorem text_and_truth_incomparable :
    (plain (.eq (.string "true"))).validate = .ok () ∧
      (any (plain (.eq (.bool true)))).validate = .ok () ∧
      ∃ cause, (plain (.eq (.string "true"))).overlaps (any (plain (.eq (.bool true)))) =
        .error cause := by
  have hkinds := (overlaps_symmetric (plain (.eq (.string "true")))
    (any (plain (.eq (.bool true))))).2.2 rfl rfl
  exact ⟨rfl, rfl, hkinds.mpr ⟨.string, .bool, rfl, rfl, by decide⟩⟩

end AttributeRule

end FeatureFlags
