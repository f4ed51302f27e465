import FeatureFlags.Targeting.Expr.Simplify

/-!
# Simplifying keeps the meaning

A simplified expression is true under the same assignments as the expression itself
(`Expr.eval_simplify`), and mentions no name that the expression does not mention
(`Expr.mentions_simplify_subset`); `Expr.simplify_keeps_meaning` says both.

Both kinds of junctions are treated at once. A junction has the value of its absorbing
constant exactly if one of its operands has (`Junction.Decided`), so every step of
`Junction.reduce` only has to keep which operands decide. No step needs the operands to
be in order or to occur once. A step also makes no expressions of its own, constants apart,
so the names come from the operands (`Junction.mem_mentions_reduce`).
-/

namespace FeatureFlags

namespace Junction

/-- Some operand decides the junction on its own. -/
def Decided (j : Junction) (isTrue : String → Bool) (es : List Expr) : Prop :=
  ∃ e ∈ es, e.eval isTrue = j.absorbing.eval isTrue

variable {j : Junction} {isTrue : String → Bool}

theorem eval_identity (j : Junction) (isTrue : String → Bool) :
    j.identity.eval isTrue = !j.absorbing.eval isTrue := by
  cases j <;> rfl

theorem eval_build_iff {es : List Expr} :
    (j.build es).eval isTrue = j.absorbing.eval isTrue ↔ j.Decided isTrue es := by
  unfold Decided
  cases j with
  | all => simp [build, absorbing, Expr.eval, Expr.evalAll_eq_all]
  | any => simp [build, absorbing, Expr.eval, Expr.evalAny_eq_any]

/-- Two expressions have the same value if they agree on whether it is that of the absorbing
constant: there are only two values. -/
theorem eval_eq_of_iff {a b : Expr}
    (h : a.eval isTrue = j.absorbing.eval isTrue ↔ b.eval isTrue = j.absorbing.eval isTrue) :
    a.eval isTrue = b.eval isTrue := by
  generalize j.absorbing.eval isTrue = c at h
  cases ha : a.eval isTrue <;> cases hb : b.eval isTrue <;> cases c <;> simp [ha, hb] at h ⊢

theorem eq_build_of_operandsOf? {e : Expr} {inner : List Expr}
    (h : j.operandsOf? e = some inner) : e = j.build inner := by
  cases j <;> cases e <;> simp [operandsOf?] at h
  · rw [h, build]
  · rw [h, build]

/-! ## The steps of a reduction -/

theorem decided_filter_iff {es : List Expr} :
    j.Decided isTrue (es.filter (· ≠ j.identity)) ↔ j.Decided isTrue es := by
  constructor
  · rintro ⟨e, hmem, he⟩
    exact ⟨e, (List.mem_filter.mp hmem).1, he⟩
  · rintro ⟨e, hmem, he⟩
    -- the identity has the other value, so it is not the operand that decides
    have hne : e ≠ j.identity := by
      rintro rfl
      rw [eval_identity] at he
      cases h : j.absorbing.eval isTrue <;> rw [h] at he <;> cases he
    exact ⟨e, List.mem_filter.mpr ⟨hmem, decide_eq_true hne⟩, he⟩

/-- What an operand becomes when junctions of the same kind are flattened. -/
def spread (j : Junction) (operand : Expr) : List Expr := (j.operandsOf? operand).getD [operand]

theorem eval_iff_decided_spread {operand : Expr} :
    operand.eval isTrue = j.absorbing.eval isTrue ↔ j.Decided isTrue (j.spread operand) := by
  cases hop : j.operandsOf? operand with
  | some inner => rw [spread, hop, eq_build_of_operandsOf? hop, eval_build_iff, Option.getD_some]
  | none => simp [spread, hop, Decided]

theorem mem_flatten_iff {e : Expr} {es : List Expr} :
    e ∈ j.flatten es ↔ ∃ operand ∈ es, e ∈ j.spread operand := by
  rw [show (∃ operand ∈ es, e ∈ j.spread operand) ↔
    e ∈ ([] : List Expr) ∨ ∃ operand ∈ es, e ∈ j.spread operand by simp]
  unfold flatten
  generalize ([] : List Expr) = acc
  induction es generalizing acc with
  | nil => simp
  | cons operand rest ih =>
    rw [List.foldl_cons, ih]
    cases hop : j.operandsOf? operand with
    | some inner =>
      have hmem : e ∈ OrderedSet.insertAll Expr.compare acc inner ↔ e ∈ acc ∨ e ∈ inner :=
        OrderedSet.mem_insertAll_iff Expr.compare_eq_iff.mp
      simp [spread, hop, hmem, or_assoc]
    | none =>
      have hmem : e ∈ OrderedSet.insert Expr.compare operand acc ↔ e = operand ∨ e ∈ acc :=
        OrderedSet.mem_insert_iff Expr.compare_eq_iff.mp
      simp [spread, hop, hmem, or_assoc, or_left_comm]

theorem decided_flatten_iff {es : List Expr} :
    j.Decided isTrue (j.flatten es) ↔ j.Decided isTrue es := by
  constructor
  · rintro ⟨e, hmem, he⟩
    obtain ⟨operand, hoperand, hfrom⟩ := mem_flatten_iff.mp hmem
    exact ⟨operand, hoperand, eval_iff_decided_spread.mpr ⟨e, hfrom, he⟩⟩
  · rintro ⟨operand, hoperand, hdecides⟩
    obtain ⟨e, hfrom, he⟩ := eval_iff_decided_spread.mp hdecides
    exact ⟨e, mem_flatten_iff.mpr ⟨operand, hoperand, hfrom⟩, he⟩

/-- Either an expression or its negation decides, and where the negation is an operand the
expression, or the operands it is made of, are operands as well. -/
theorem decided_of_negatesPresent {es : List Expr} (h : es.any (j.negatesPresent es) = true) :
    j.Decided isTrue es := by
  obtain ⟨e, hmem, hnegates⟩ := List.any_eq_true.mp h
  cases e with
  | not e =>
    by_cases he : e.eval isTrue = j.absorbing.eval isTrue
    · rw [negatesPresent] at hnegates
      split at hnegates
      · next inner hinner =>
        rw [eq_build_of_operandsOf? hinner] at he
        obtain ⟨operand, hoperand, hdecides⟩ := eval_build_iff.mp he
        have hpresent := List.all_eq_true.mp hnegates operand hoperand
        exact ⟨operand, List.contains_iff_mem.mp hpresent, hdecides⟩
      · exact ⟨e, List.contains_iff_mem.mp hnegates, he⟩
    · refine ⟨.not e, hmem, ?_⟩
      rw [Expr.eval]
      exact Bool.not_eq.mpr he
  | _ => cases hnegates

/-- Reducing keeps the value of the junction. -/
theorem eval_reduce (j : Junction) (isTrue : String → Bool) (es : List Expr) :
    (j.reduce es).eval isTrue = (j.build es).eval isTrue := by
  have hkept : j.Decided isTrue (es.filter (· ≠ j.identity)) ↔ j.Decided isTrue es :=
    decided_filter_iff
  refine eval_eq_of_iff (j := j) ?_
  rw [eval_build_iff, ← hkept]
  unfold reduce
  dsimp only
  generalize es.filter (· ≠ j.identity) = kept
  split
  · next habsorbing =>
    exact iff_of_true rfl ⟨_, List.contains_iff_mem.mp habsorbing, rfl⟩
  · rw [← decided_flatten_iff]
    generalize j.flatten kept = flat
    split
    · next hnegates => exact iff_of_true rfl (decided_of_negatesPresent hnegates)
    · split
      · rw [eval_identity]
        simp [Decided]
      · simp [Decided]
      · exact eval_build_iff

/-! ## Names -/

variable {name : String}

theorem mentions_identity (j : Junction) : j.identity.mentions = [] := by
  cases j <;> rfl

theorem mentions_absorbing (j : Junction) : j.absorbing.mentions = [] := by
  cases j <;> rfl

theorem mem_mentions_build_iff {es : List Expr} :
    name ∈ (j.build es).mentions ↔ ∃ e ∈ es, name ∈ e.mentions := by
  cases j <;> rw [build, Expr.mentions, Expr.mentionsOfAll_eq_flatMap, List.mem_flatMap]

/-- Flattening an operand adds no name. -/
theorem mem_mentions_of_mem_spread {e operand : Expr} (h : e ∈ j.spread operand)
    (hname : name ∈ e.mentions) : name ∈ operand.mentions := by
  cases hop : j.operandsOf? operand with
  | some inner =>
    rw [spread, hop, Option.getD_some] at h
    rw [eq_build_of_operandsOf? hop]
    exact mem_mentions_build_iff.mpr ⟨e, h, hname⟩
  | none =>
    rw [spread, hop, Option.getD_none, List.mem_singleton] at h
    exact h ▸ hname

/-- The names that are left after reducing come from the operands. -/
theorem mem_mentions_reduce {es : List Expr} (h : name ∈ (j.reduce es).mentions) :
    ∃ e ∈ es, name ∈ e.mentions := by
  have hflat : ∀ e ∈ j.flatten (es.filter (· ≠ j.identity)), name ∈ e.mentions →
      ∃ operand ∈ es, name ∈ operand.mentions := by
    intro e hmem hname
    obtain ⟨operand, hoperand, hfrom⟩ := mem_flatten_iff.mp hmem
    exact ⟨operand, (List.mem_filter.mp hoperand).1, mem_mentions_of_mem_spread hfrom hname⟩
  unfold reduce at h
  dsimp only at h
  generalize j.flatten (es.filter (· ≠ j.identity)) = flat at h hflat
  split at h
  · rw [mentions_absorbing] at h
    cases h
  · split at h
    · rw [mentions_absorbing] at h
      cases h
    · split at h
      · rw [mentions_identity] at h
        cases h
      · exact hflat _ (List.mem_singleton_self _) h
      · obtain ⟨e, hmem, hname⟩ := mem_mentions_build_iff.mp h
        exact hflat e hmem hname

end Junction

namespace Expr

theorem eval_negate (isTrue : String → Bool) (e : Expr) :
    e.negate.eval isTrue = !e.eval isTrue := by
  cases e <;> simp [negate, eval]

mutual

/-- A simplified expression is true under the same assignments. -/
theorem eval_simplify (isTrue : String → Bool) : (e : Expr) →
    e.simplify.eval isTrue = e.eval isTrue
  | always | never | ref _ => rfl
  | not e => by rw [simplify, eval_negate, eval_simplify isTrue e, eval]
  | all es => by
    rw [simplify, Junction.eval_reduce, Junction.build, eval, eval, evalAll_simplifyAll isTrue es]
  | any es => by
    rw [simplify, Junction.eval_reduce, Junction.build, eval, eval, evalAny_simplifyAll isTrue es]

theorem evalAll_simplifyAll (isTrue : String → Bool) : (es : List Expr) →
    evalAll isTrue (simplifyAll es) = evalAll isTrue es
  | [] => rfl
  | e :: rest => by
    rw [simplifyAll, evalAll, evalAll, eval_simplify isTrue e, evalAll_simplifyAll isTrue rest]

theorem evalAny_simplifyAll (isTrue : String → Bool) : (es : List Expr) →
    evalAny isTrue (simplifyAll es) = evalAny isTrue es
  | [] => rfl
  | e :: rest => by
    rw [simplifyAll, evalAny, evalAny, eval_simplify isTrue e, evalAny_simplifyAll isTrue rest]

end

/-! ## Names -/

theorem mentions_negate_subset (e : Expr) : e.negate.mentions ⊆ e.mentions := by
  intro name h
  cases e <;> exact h

mutual

/-- A simplified expression mentions no other names. -/
theorem mentions_simplify_subset : (e : Expr) → e.simplify.mentions ⊆ e.mentions
  | always | never | ref _ => List.Subset.refl _
  | not e => by
    rw [simplify, mentions]
    exact List.Subset.trans (mentions_negate_subset _) (mentions_simplify_subset e)
  | all es | any es => by
    intro name h
    rw [simplify] at h
    rw [mentions]
    obtain ⟨e, hmem, hname⟩ := Junction.mem_mentions_reduce h
    refine mentionsOfAll_simplifyAll_subset es ?_
    rw [mentionsOfAll_eq_flatMap]
    exact List.mem_flatMap.mpr ⟨e, hmem, hname⟩

theorem mentionsOfAll_simplifyAll_subset : (es : List Expr) →
    mentionsOfAll (simplifyAll es) ⊆ mentionsOfAll es
  | [] => List.Subset.refl _
  | e :: rest => by
    rw [simplifyAll, mentionsOfAll, mentionsOfAll]
    exact List.append_subset.mpr
      ⟨List.subset_append_of_subset_left _ (mentions_simplify_subset e),
        List.subset_append_of_subset_right _ (mentionsOfAll_simplifyAll_subset rest)⟩

end

/-- **Simplifying keeps the meaning.** Whatever names are true, the simplified expression has the
value of the expression, and it asks for no name that the expression does not mention. -/
theorem simplify_keeps_meaning (e : Expr) :
    (∀ isTrue, e.simplify.eval isTrue = e.eval isTrue) ∧ e.simplify.refs ⊆ e.refs := by
  refine ⟨fun isTrue => eval_simplify isTrue e, fun name h => ?_⟩
  rw [mem_refs_iff] at h ⊢
  exact mentions_simplify_subset e h

end Expr

end FeatureFlags
