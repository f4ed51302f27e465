import FeatureFlags.Proofs.Targeting.Reduction

/-!
# Normal forms of targeting expressions

`Expr.simplify_normalizes`: simplifying reaches a normal form in one pass, and the expressions in
normal form (`Expr.Normal`) are exactly those that it leaves as they are.

A constant may only be the whole expression. What has none (`Expr.Reduced`) negates no negation, and
its junctions are settled (`Junction.Settled`): nothing in their operands is left to flatten, to
collapse or to decide. Flattening brings up the operands of a settled junction, which are no
junctions of the kind again, and an opposition that it brings about is looked for afterwards, so one
reduction of normal operands is enough (`Junction.normal_reduce`).
-/

namespace FeatureFlags

namespace Junction

/-- The operands of a simplified junction: they are a set of two or more, none is a junction of the
same kind, and none is the negation of another one or of a junction of this kind whose operands are
all present. -/
structure Settled (j : Junction) (es : List Expr) : Prop where
  strict : OrderedSet.Strict Expr.compare es
  two_le : 2 ≤ es.length
  flat : ∀ inner, j.build inner ∉ es
  not_negated : ∀ e, .not e ∈ es → e ∉ es
  not_negated_junction : ∀ inner, .not (j.build inner) ∈ es → ¬ inner ⊆ es

end Junction

namespace Expr

/-- The expression holds no constant, negates no negation, and all its junctions are settled. -/
inductive Reduced : Expr → Prop where
  | ref (name : String) : Reduced (ref name)
  | not {e : Expr} (operand : Reduced e) (single : ∀ inner, e ≠ not inner) : Reduced (not e)
  | junction {j : Junction} {es : List Expr} (settled : j.Settled es)
      (operands : ∀ e ∈ es, Reduced e) : Reduced (j.build es)

/-- Constants are in normal form, and what has no constants if it is reduced. -/
def Normal (e : Expr) : Prop := e = always ∨ e = never ∨ e.Reduced

variable {j : Junction} {e : Expr} {es : List Expr}

theorem normal_iff (j : Junction) :
    e.Normal ↔ e = j.identity ∨ e = j.absorbing ∨ e.Reduced := by
  cases j with
  | all => exact Iff.rfl
  | any => exact or_left_comm

theorem normal_identity (j : Junction) : j.identity.Normal := (normal_iff j).mpr (.inl rfl)

theorem normal_absorbing (j : Junction) : j.absorbing.Normal := (normal_iff j).mpr (.inr (.inl rfl))

theorem Reduced.normal (h : e.Reduced) : e.Normal := .inr (.inr h)

/-- Reduced expressions are no constants. -/
theorem Reduced.ne_constant (h : e.Reduced) : e ≠ always ∧ e ≠ never := by
  cases h with
  | ref name | not => exact ⟨Expr.noConfusion, Expr.noConfusion⟩
  | @junction j => cases j <;> exact ⟨Expr.noConfusion, Expr.noConfusion⟩

theorem Reduced.ne_identity (h : e.Reduced) : e ≠ j.identity := by
  cases j with
  | all => exact h.ne_constant.1
  | any => exact h.ne_constant.2

theorem Reduced.ne_absorbing (h : e.Reduced) : e ≠ j.absorbing := by
  cases j with
  | all => exact h.ne_constant.2
  | any => exact h.ne_constant.1

theorem reduced_not_iff : (not e).Reduced ↔ e.Reduced ∧ ∀ inner, e ≠ not inner := by
  constructor
  · intro h
    generalize hnot : not e = outer at h
    cases h with
    | ref => cases hnot
    | not operand single =>
      cases hnot
      exact ⟨operand, single⟩
    | @junction j => cases j <;> cases hnot
  · exact fun h => .not h.1 h.2

theorem reduced_build_iff : (j.build es).Reduced ↔ j.Settled es ∧ ∀ e ∈ es, e.Reduced := by
  constructor
  · intro h
    generalize hbuild : j.build es = outer at h
    cases h with
    | ref | not => cases j <;> cases hbuild
    | @junction j' es' settled operands =>
      cases j <;> cases j' <;> cases hbuild
      · exact ⟨settled, operands⟩
      · exact ⟨settled, operands⟩
  · exact fun h => .junction h.1 h.2

end Expr

namespace Junction

open FeatureFlags.Expr (Reduced Normal)

variable {j : Junction} {e : Expr} {es flat : List Expr}

/-! ## Reductions of settled operands -/

theorem Settled.not_opposed (h : j.Settled es) : ¬ j.Opposed es := by
  rintro ⟨e, hnot, hspread⟩
  obtain ⟨inner, rfl, heq⟩ | ⟨-, heq⟩ := j.spread_cases e <;> rw [heq] at hspread
  · exact h.not_negated_junction inner hnot hspread
  · exact h.not_negated e hnot (hspread (List.mem_singleton_self e))

theorem spread_of_mem (hflat : ∀ inner, j.build inner ∉ es) (hmem : e ∈ es) : j.spread e = [e] :=
  spread_of_ne_build fun inner heq => hflat inner (heq ▸ hmem)

/-- Reduced operands that are no junctions of the kind are what is gathered from them. -/
theorem mem_gather_iff_mem (hreduced : ∀ e ∈ es, e.Reduced) (hflat : ∀ inner, j.build inner ∉ es) :
    e ∈ j.gather es ↔ e ∈ es := by
  rw [mem_gather_iff]
  constructor
  · rintro ⟨operand, hmem, -, hfrom⟩
    rw [spread_of_mem hflat hmem, List.mem_singleton] at hfrom
    rwa [hfrom]
  · intro hmem
    refine ⟨e, hmem, (hreduced e hmem).ne_identity, ?_⟩
    rw [spread_of_mem hflat hmem]
    exact List.mem_singleton_self e

/-- What gathers to the operands of a reduced junction is reduced to this junction. -/
theorem reduce_of_gather (habsorbing : j.absorbing ∉ es) (hgather : j.gather es = flat)
    (hsettled : j.Settled flat) : j.reduce es = j.build flat := by
  have hnot : ¬ j.Absorbed es := by
    rintro (hmem | hopposed)
    · exact habsorbing hmem
    · exact hsettled.not_opposed (hgather ▸ hopposed)
  rw [reduce_of_not_absorbed hnot, hgather, collapse_of_two_le hsettled.two_le]

/-- The operands of a reduced junction are reduced to the junction. -/
theorem reduce_of_settled (hsettled : j.Settled es) (hreduced : ∀ e ∈ es, e.Reduced) :
    j.reduce es = j.build es := by
  refine reduce_of_gather (fun hmem => (hreduced _ hmem).ne_absorbing rfl) ?_ hsettled
  exact (strict_gather j es).ext hsettled.strict fun e => mem_gather_iff_mem hreduced hsettled.flat

/-! ## Reductions of normal operands -/

/-- From normal operands only reduced ones are gathered, and no junctions of the kind. -/
theorem reduced_of_mem_gather (hnormal : ∀ e ∈ es, e.Normal) (habsorbing : j.absorbing ∉ es)
    (hmem : e ∈ j.gather es) : e.Reduced ∧ ∀ inner, e ≠ j.build inner := by
  obtain ⟨operand, hoperand, hidentity, hfrom⟩ := mem_gather_iff.mp hmem
  have hreduced : operand.Reduced := by
    rcases (Expr.normal_iff j).mp (hnormal operand hoperand) with rfl | rfl | hreduced
    · exact absurd rfl hidentity
    · exact absurd hoperand habsorbing
    · exact hreduced
  obtain ⟨inner, rfl, heq⟩ | ⟨hne, heq⟩ := j.spread_cases operand <;> rw [heq] at hfrom
  · -- the junction below is settled, so it has no junctions of the kind to bring up
    obtain ⟨hsettled, hinner⟩ := Expr.reduced_build_iff.mp hreduced
    exact ⟨hinner e hfrom, fun nested heq => hsettled.flat nested (heq ▸ hfrom)⟩
  · rw [List.mem_singleton] at hfrom
    rw [hfrom]
    exact ⟨hreduced, hne⟩

theorem settled_of_not_opposed (hstrict : OrderedSet.Strict Expr.compare es)
    (htwo : 2 ≤ es.length) (hflat : ∀ inner, j.build inner ∉ es) (hopposed : ¬ j.Opposed es) :
    j.Settled es where
  strict := hstrict
  two_le := htwo
  flat := hflat
  not_negated := by
    intro e hnot hmem
    refine hopposed ⟨e, hnot, ?_⟩
    rw [spread_of_mem hflat hmem]
    exact List.cons_subset.mpr ⟨hmem, List.nil_subset es⟩
  not_negated_junction := by
    intro inner hnot hsub
    exact hopposed ⟨j.build inner, hnot, by rwa [spread_build]⟩

/-- A reduction of operands in normal form is in normal form. -/
theorem normal_reduce (hnormal : ∀ e ∈ es, e.Normal) : (j.reduce es).Normal := by
  by_cases h : j.Absorbed es
  · rw [reduce_of_absorbed h]
    exact Expr.normal_absorbing j
  · rw [reduce_of_not_absorbed h]
    obtain ⟨habsorbing, hopposed⟩ := not_or.mp h
    have hreduced : ∀ e ∈ j.gather es, e.Reduced ∧ ∀ inner, e ≠ j.build inner :=
      fun e hmem => reduced_of_mem_gather hnormal habsorbing hmem
    have hstrict := strict_gather j es
    match hgather : j.gather es with
    | [] => exact Expr.normal_identity j
    | [e] =>
      rw [hgather] at hreduced
      exact (hreduced e (List.mem_singleton_self e)).1.normal
    | e :: e' :: rest =>
      rw [← hgather, collapse_of_two_le (by simp [hgather])]
      refine (Reduced.junction ?_ fun e hmem => (hreduced e hmem).1).normal
      exact settled_of_not_opposed hstrict (by simp [hgather])
        (fun inner hmem => (hreduced _ hmem).2 inner rfl) hopposed

end Junction

/-! ## Simplified expressions -/

namespace Expr

variable {e : Expr}

theorem negate_of_reduced (h : e.Reduced) (single : ∀ inner, e ≠ not inner) :
    e.negate = not e := by
  cases e with
  | not inner => exact absurd rfl (single inner)
  | always => exact absurd rfl h.ne_constant.1
  | never => exact absurd rfl h.ne_constant.2
  | ref | all | any => rfl

/-- The negation of a reduced expression is what it negates, or the expression negated. -/
theorem negate_cases_of_reduced (h : e.Reduced) :
    (∃ inner, e = not inner ∧ e.negate = inner ∧ inner.Reduced ∧ inner.negate = e) ∨
      e.negate = not e ∧ (not e).Reduced := by
  by_cases hnot : ∃ inner, e = not inner
  · obtain ⟨inner, rfl⟩ := hnot
    obtain ⟨hinner, single⟩ := reduced_not_iff.mp h
    exact .inl ⟨inner, rfl, rfl, hinner, negate_of_reduced hinner single⟩
  · have single : ∀ inner, e ≠ not inner := not_exists.mp hnot
    exact .inr ⟨negate_of_reduced h single, .not h single⟩

theorem normal_negate (h : e.Normal) : e.negate.Normal := by
  rcases h with rfl | rfl | hreduced
  · exact normal_identity .any
  · exact normal_identity .all
  · obtain ⟨inner, rfl, heq, hinner, -⟩ | ⟨heq, hnot⟩ := negate_cases_of_reduced hreduced
    all_goals rw [heq]
    · exact hinner.normal
    · exact hnot.normal

theorem negate_negate (h : e.Normal) : e.negate.negate = e := by
  rcases h with rfl | rfl | hreduced
  · rfl
  · rfl
  · obtain ⟨inner, rfl, heq, -, hback⟩ | ⟨heq, -⟩ := negate_cases_of_reduced hreduced <;> rw [heq]
    · exact hback
    · rfl

theorem simplify_build (j : Junction) (es : List Expr) :
    (j.build es).simplify = j.reduce (es.map simplify) := by
  cases j <;> rw [Junction.build, simplify, simplifyAll_eq_map]

mutual

/-- A simplified expression is in normal form. -/
theorem normal_simplify : (e : Expr) → e.simplify.Normal
  | always => normal_identity .all
  | never => normal_identity .any
  | ref name => (Reduced.ref name).normal
  | not e => normal_negate (normal_simplify e)
  | all es => Junction.normal_reduce (normal_simplifyAll es)
  | any es => Junction.normal_reduce (normal_simplifyAll es)

theorem normal_simplifyAll : (es : List Expr) → ∀ e ∈ simplifyAll es, e.Normal
  | [] => fun _ hmem => nomatch hmem
  | e :: rest => List.forall_mem_cons.mpr ⟨normal_simplify e, normal_simplifyAll rest⟩

end

/-- Reduced expressions are left as they are. -/
theorem simplify_of_reduced (h : e.Reduced) : e.simplify = e := by
  induction h with
  | ref name => rfl
  | @not e operand single ih =>
    rw [simplify, ih, negate_of_reduced operand single]
  | @junction j es settled operands ih =>
    have hoperands : es.map simplify = es := (List.map_congr_left ih).trans (List.map_id' es)
    rw [simplify_build, hoperands, Junction.reduce_of_settled settled operands]

theorem simplify_of_normal (h : e.Normal) : e.simplify = e := by
  rcases h with rfl | rfl | hreduced
  · rfl
  · rfl
  · exact simplify_of_reduced hreduced

/-- **Simplifying reaches a normal form in one pass.** The simplified expression is in normal form,
and just the expressions in normal form are left as they are; so simplifying again changes
nothing. -/
theorem simplify_normalizes (e : Expr) :
    e.simplify.Normal ∧ (e.simplify = e ↔ e.Normal) ∧ e.simplify.simplify = e.simplify := by
  refine ⟨normal_simplify e, ⟨fun h => ?_, simplify_of_normal⟩,
    simplify_of_normal (normal_simplify e)⟩
  rw [← h]
  exact normal_simplify e

-- the opposition shows after the inner junction is simplified and flattened
example : (any [ref "x", any [not (not (not (ref "x")))]]).simplify = always := by decide

end Expr

end FeatureFlags
