import FeatureFlags.Proofs.Targeting.NormalForm
import Mathlib.Data.List.Perm.Subperm

/-!
# Laws of the simplifier

`Expr.simplify_obeys_laws`: which expressions have the same simplified form, for both kinds of
junctions at once. Double negations do not matter, an expression beside its negation decides a
junction, a junction among the operands of one of its kind may be replaced by its own operands,
operands may be simplified beforehand, and an expression beside its simplified form adds nothing.

The laws are on the results of `Junction.reduce` for operands in normal form. A reduction depends on
what is gathered from the operands, and from a reduced junction just what was gathered for it is
gathered again (`Junction.mem_gather_collapse`), whether it was left as a junction, as its only
operand or as a constant.
-/

namespace FeatureFlags

namespace Junction

open FeatureFlags.Expr (Normal Reduced)

variable {j : Junction} {e : Expr} {es flat inner : List Expr}

theorem mem_gather_singleton_iff {operand : Expr} :
    e ∈ j.gather [operand] ↔ operand ≠ j.identity ∧ e ∈ j.spread operand := by
  simp only [mem_gather_iff, List.mem_singleton, exists_eq_left]

/-! ## A single operand -/

/-- A negation alone is opposed to nothing. -/
theorem not_opposed_singleton (h : e.Reduced) : ¬ j.Opposed [e] := by
  rintro ⟨operand, hnot, hspread⟩
  obtain rfl := List.mem_singleton.mp hnot
  obtain ⟨hreduced, single⟩ := Expr.reduced_not_iff.mp h
  obtain ⟨inner, rfl, heq⟩ | ⟨-, heq⟩ := j.spread_cases operand <;> rw [heq] at hspread
  · -- the junction has two operands, which are not both the negation
    obtain ⟨hsettled, -⟩ := Expr.reduced_build_iff.mp hreduced
    have hle : inner.length ≤ 1 :=
      (List.subperm_of_subset hsettled.strict.nodup hspread).length_le
    have htwo := hsettled.two_le
    omega
  · exact single operand (List.mem_singleton.mp (hspread (List.mem_singleton_self operand)))

/-- A junction of one operand in normal form is the operand. -/
theorem reduce_singleton (h : e.Normal) : j.reduce [e] = e := by
  rcases (Expr.normal_iff j).mp h with rfl | rfl | hreduced
  · cases j <;> rfl
  · exact reduce_of_absorbed (.inl (List.mem_singleton_self _))
  · have habsorbing : j.absorbing ∉ [e] := fun hmem =>
      hreduced.ne_absorbing (List.mem_singleton.mp hmem).symm
    have hgather : ∀ e', e' ∈ j.gather [e] ↔ e' ∈ j.spread e := fun e' =>
      mem_gather_singleton_iff.trans (and_iff_right hreduced.ne_identity)
    obtain ⟨inner, rfl, heq⟩ | ⟨-, heq⟩ := j.spread_cases e <;> rw [heq] at hgather
    · obtain ⟨hsettled, -⟩ := Expr.reduced_build_iff.mp hreduced
      exact reduce_of_gather habsorbing ((strict_gather j _).ext hsettled.strict hgather) hsettled
    · have hgather : j.gather [e] = [e] :=
        (strict_gather j _).ext (List.pairwise_singleton _ e) hgather
      have hnot : ¬ j.Absorbed [e] := by
        rw [Absorbed, hgather]
        exact not_or.mpr ⟨habsorbing, not_opposed_singleton hreduced⟩
      rw [reduce_of_not_absorbed hnot, hgather, collapse]

/-! ## Opposites -/

/-- A negation is neither dropped nor flattened. -/
theorem negation_mem_gather (h : .not e ∈ es) : .not e ∈ j.gather es := by
  have hidentity : .not e ≠ j.identity := by cases j <;> exact Expr.noConfusion
  refine mem_gather_iff.mpr ⟨.not e, h, hidentity, ?_⟩
  rw [spread_of_ne_build fun inner => by cases j <;> exact Expr.noConfusion]
  exact List.mem_singleton_self _

/-- An expression in normal form decides a junction together with its negation. -/
theorem absorbed_of_negate (h : e.Normal) (hmem : e ∈ es) (hnegate : e.negate ∈ es) :
    j.Absorbed es := by
  rcases h with rfl | rfl | hreduced
  · cases j with
    | all => exact .inl hnegate
    | any => exact .inl hmem
  · cases j with
    | all => exact .inl hmem
    | any => exact .inl hnegate
  · -- either of the two may be the negation of the other
    have hopposite : ∃ operand, operand.Reduced ∧ operand ∈ es ∧ .not operand ∈ es := by
      obtain ⟨inner, rfl, heq, hinner, -⟩ | ⟨heq, -⟩ :=
          Expr.negate_cases_of_reduced hreduced <;> rw [heq] at hnegate
      · exact ⟨inner, hinner, hnegate, hmem⟩
      · exact ⟨e, hreduced, hmem, hnegate⟩
    obtain ⟨operand, hoperand, hmem, hnot⟩ := hopposite
    have hgather : ∀ e, e ∈ j.spread operand → e ∈ j.gather es := fun e hfrom =>
      mem_gather_iff.mpr ⟨operand, hmem, hoperand.ne_identity, hfrom⟩
    exact .inr ⟨operand, negation_mem_gather hnot, hgather⟩

/-! ## Junctions among the operands -/

theorem build_ne_identity : j.build es ≠ j.identity := by
  cases j <;> exact Expr.noConfusion

theorem build_ne_absorbing : j.build es ≠ j.absorbing := by
  cases j <;> exact Expr.noConfusion

/-- From a collapsed set of operands the set is gathered again. -/
theorem mem_gather_collapse (h : ∀ e ∈ flat, e.Reduced ∧ ∀ inner, e ≠ j.build inner) :
    e ∈ j.gather [j.collapse flat] ↔ e ∈ flat := by
  rw [mem_gather_singleton_iff]
  match flat with
  | [] => simp [collapse]
  | [operand] =>
    obtain ⟨hreduced, hne⟩ := h operand (List.mem_singleton_self operand)
    rw [collapse, spread_of_ne_build hne]
    exact and_iff_right hreduced.ne_identity
  | _ :: _ :: _ =>
    rw [collapse_of_two_le (by simp), spread_build]
    exact and_iff_right build_ne_identity

theorem collapse_ne_absorbing (h : ∀ e ∈ flat, e.Reduced) : j.collapse flat ≠ j.absorbing := by
  match flat with
  | [] => cases j <;> exact Expr.noConfusion
  | [operand] => exact (h operand (List.mem_singleton_self operand)).ne_absorbing
  | _ :: _ :: _ =>
    rw [collapse_of_two_le (by simp)]
    exact build_ne_absorbing

/-- A reduced junction among the operands may be replaced by its own operands. -/
theorem reduce_cons_reduce (hnormal : ∀ e ∈ inner, e.Normal) :
    j.reduce (j.reduce inner :: es) = j.reduce (inner ++ es) := by
  by_cases h : j.Absorbed inner
  · have happend : j.Absorbed (inner ++ es) := h.mono (List.subset_append_left inner es)
    rw [reduce_of_absorbed h, reduce_of_absorbed (.inl List.mem_cons_self),
      reduce_of_absorbed happend]
  · obtain ⟨habsorbing, -⟩ := not_or.mp h
    have hreduced : ∀ e ∈ j.gather inner, e.Reduced ∧ ∀ inner, e ≠ j.build inner :=
      fun e hmem => reduced_of_mem_gather hnormal habsorbing hmem
    rw [reduce_of_not_absorbed h]
    refine reduce_congr ?_ fun e => ?_
    · rw [List.mem_cons, List.mem_append, or_iff_right habsorbing]
      exact or_iff_right (collapse_ne_absorbing fun e hmem => (hreduced e hmem).1).symm
    · rw [← List.singleton_append, mem_gather_append_iff, mem_gather_append_iff,
        mem_gather_collapse hreduced]

end Junction

namespace Expr

variable {j : Junction} {e : Expr} {es es' : List Expr}

/-! ## The laws -/

theorem simplify_not_not (e : Expr) : (not (not e)).simplify = e.simplify :=
  negate_negate (normal_simplify e)

/-- Only the members of the set of operands matter. -/
theorem simplify_build_congr (h : ∀ e, e ∈ es ↔ e ∈ es') :
    (j.build es).simplify = (j.build es').simplify := by
  rw [simplify_build, simplify_build]
  refine Junction.reduce_congr_of_mem_iff fun e => ?_
  simp only [List.mem_map, h]

theorem mem_operandSet_iff : e ∈ operandSet es ↔ e ∈ es :=
  OrderedSet.mem_ofList_iff compare_eq_iff.mp

theorem normal_of_mem_map_simplify (h : e ∈ es.map simplify) : e.Normal := by
  obtain ⟨operand, -, rfl⟩ := List.mem_map.mp h
  exact normal_simplify operand

theorem simplify_of_opposites (hmem : e ∈ es) (hnot : not e ∈ es) :
    (j.build es).simplify = j.absorbing := by
  rw [simplify_build]
  refine Junction.reduce_of_absorbed ?_
  exact Junction.absorbed_of_negate (normal_simplify e) (List.mem_map_of_mem hmem)
    (List.mem_map_of_mem hnot)

/-- A junction of the kind among the operands may be replaced by its operands. -/
theorem simplify_flatten (j : Junction) (es inner : List Expr) :
    (j.build (OrderedSet.insert compare (j.build inner) es)).simplify =
      (j.build (OrderedSet.insertAll compare es inner)).simplify := by
  have hinsert : ∀ e, e ∈ OrderedSet.insert compare (j.build inner) es ↔ e ∈ j.build inner :: es :=
    fun e => (OrderedSet.mem_insert_iff compare_eq_iff.mp).trans List.mem_cons.symm
  have hunion : ∀ e, e ∈ inner ++ es ↔ e ∈ OrderedSet.insertAll compare es inner := by
    intro e
    rw [OrderedSet.mem_insertAll_iff compare_eq_iff.mp, List.mem_append, or_comm]
  calc (j.build (OrderedSet.insert compare (j.build inner) es)).simplify
      = (j.build (j.build inner :: es)).simplify := simplify_build_congr hinsert
    _ = j.reduce (j.reduce (inner.map simplify) :: es.map simplify) := by
        rw [simplify_build, List.map_cons, simplify_build]
    _ = j.reduce (inner.map simplify ++ es.map simplify) :=
        Junction.reduce_cons_reduce fun e => normal_of_mem_map_simplify
    _ = (j.build (inner ++ es)).simplify := by rw [simplify_build, List.map_append]
    _ = (j.build (OrderedSet.insertAll compare es inner)).simplify := simplify_build_congr hunion

/-- Operands may be simplified beforehand. -/
theorem simplify_operands (j : Junction) (es : List Expr) :
    (j.build es).simplify = (j.build (operandSet (es.map simplify))).simplify := by
  have htwice : (es.map simplify).map simplify = es.map simplify := by
    rw [List.map_map]
    exact List.map_congr_left fun e _ => simplify_of_normal (normal_simplify e)
  calc (j.build es).simplify
      = j.reduce ((es.map simplify).map simplify) := by rw [simplify_build, htwice]
    _ = (j.build (es.map simplify)).simplify := (simplify_build j _).symm
    _ = (j.build (operandSet (es.map simplify))).simplify :=
        simplify_build_congr fun e => mem_operandSet_iff.symm

/-- An expression beside its simplified form adds nothing. -/
theorem simplify_beside_simplified (j : Junction) (e : Expr) :
    (j.build (operandSet [e, e.simplify])).simplify = e.simplify := by
  have hnormal := normal_simplify e
  calc (j.build (operandSet [e, e.simplify])).simplify
      = (j.build [e, e.simplify]).simplify := simplify_build_congr fun e => mem_operandSet_iff
    _ = j.reduce [e.simplify, e.simplify] := by
        rw [simplify_build, List.map_cons, List.map_singleton, simplify_of_normal hnormal]
    _ = j.reduce [e.simplify] := Junction.reduce_congr_of_mem_iff fun e => by simp
    _ = e.simplify := Junction.reduce_singleton hnormal

/-- **The laws of the simplifier.** Simplified forms are the same for an expression negated twice,
for a junction with a junction of its kind among the operands and the junction of all the operands,
and for a junction before and after its operands are simplified. A junction that holds an expression
and its negation is simplified to its absorbing constant, and one of an expression and its
simplified form to the latter. -/
theorem simplify_obeys_laws (j : Junction) (e : Expr) (es es' : List Expr) :
    (not (not e)).simplify = e.simplify ∧
      (e ∈ es → not e ∈ es → (j.build es).simplify = j.absorbing) ∧
      (j.build (OrderedSet.insert compare (j.build es') es)).simplify =
        (j.build (OrderedSet.insertAll compare es es')).simplify ∧
      (j.build es).simplify = (j.build (operandSet (es.map simplify))).simplify ∧
      (j.build (operandSet [e, e.simplify])).simplify = e.simplify :=
  ⟨simplify_not_not e, simplify_of_opposites, simplify_flatten j es es', simplify_operands j es,
    simplify_beside_simplified j e⟩

/-- A conjunction that is flattened away in a conjunction with its negation. -/
def adultMember : Expr := all [ref "adult", ref "member"]

theorem adultMember_opposed :
    adultMember ∈ [not adultMember, adultMember] ∧
      not adultMember ∈ [not adultMember, adultMember] ∧
      (all [not adultMember, adultMember]).simplify = never := by
  have hmem : adultMember ∈ [not adultMember, adultMember] :=
    List.mem_cons_of_mem _ List.mem_cons_self
  have hnot : not adultMember ∈ [not adultMember, adultMember] := List.mem_cons_self
  obtain ⟨-, hopposites, -⟩ :=
    simplify_obeys_laws .all adultMember [not adultMember, adultMember] []
  exact ⟨hmem, hnot, hopposites hmem hnot⟩

end Expr

end FeatureFlags
