import FeatureFlags.Proofs.Targeting.Order
import FeatureFlags.Proofs.Targeting.Simplify

/-!
# What a reduction comes to

`Junction.reduce` sees two things of its operands: whether they decide the junction, be it by a
constant or by an operand and its negation (`Junction.Absorbed`), and the set of operands that is
left when the other constant is dropped and junctions of the same kind are replaced by their own
operands (`Junction.gather`).

- `Junction.reduce_of_absorbed`, `Junction.reduce_of_not_absorbed`: the result in either case.
- `Junction.reduce_congr`: operands of which the two things are the same have the same reduction, so
  neither the order of the operands nor their repetition matters.
-/

namespace FeatureFlags

namespace Junction

variable {j : Junction} {e : Expr} {es es' inner : List Expr}

/-! ## Flattened operands -/

theorem spread_build (j : Junction) (inner : List Expr) : j.spread (j.build inner) = inner := by
  cases j <;> rfl

theorem spread_of_ne_build (h : ∀ inner, e ≠ j.build inner) : j.spread e = [e] := by
  cases hop : j.operandsOf? e with
  | some inner => exact absurd (eq_build_of_operandsOf? hop) (h inner)
  | none => rw [spread, hop, Option.getD_none]

/-- Either what is spread is a junction of the kind, or it stands for itself. -/
theorem spread_cases (j : Junction) (e : Expr) :
    (∃ inner, e = j.build inner ∧ j.spread e = inner) ∨
      (∀ inner, e ≠ j.build inner) ∧ j.spread e = [e] := by
  by_cases h : ∃ inner, e = j.build inner
  · obtain ⟨inner, rfl⟩ := h
    exact .inl ⟨inner, rfl, spread_build j inner⟩
  · have h : ∀ inner, e ≠ j.build inner := not_exists.mp h
    exact .inr ⟨h, spread_of_ne_build h⟩

/-- The operands that are left when the identity is dropped and junctions of the kind are
flattened. -/
def gather (j : Junction) (es : List Expr) : List Expr := j.flatten (es.filter (· ≠ j.identity))

theorem mem_gather_iff :
    e ∈ j.gather es ↔ ∃ operand ∈ es, operand ≠ j.identity ∧ e ∈ j.spread operand := by
  simp [gather, mem_flatten_iff, and_assoc]

theorem gather_subset (h : es ⊆ es') : j.gather es ⊆ j.gather es' := by
  intro e hmem
  obtain ⟨operand, hoperand, hfrom⟩ := mem_gather_iff.mp hmem
  exact mem_gather_iff.mpr ⟨operand, h hoperand, hfrom⟩

theorem mem_gather_append_iff :
    e ∈ j.gather (es ++ es') ↔ e ∈ j.gather es ∨ e ∈ j.gather es' := by
  simp only [mem_gather_iff, List.mem_append, or_and_right, exists_or]

theorem strict_gather (j : Junction) (es : List Expr) :
    OrderedSet.Strict Expr.compare (j.gather es) := by
  unfold gather flatten
  generalize es.filter (· ≠ j.identity) = kept
  suffices h : ∀ acc, OrderedSet.Strict Expr.compare acc →
      OrderedSet.Strict Expr.compare (kept.foldl _ acc) from h [] List.Pairwise.nil
  induction kept with
  | nil => exact fun acc hacc => hacc
  | cons operand rest ih =>
    intro acc hacc
    refine ih _ ?_
    dsimp only
    split
    · exact OrderedSet.strict_insertAll hacc _
    · exact OrderedSet.strict_insert hacc _

/-! ## Operands that decide -/

/-- The negation of an expression stands beside the expression, or beside the operands that it is
made of. -/
def Opposed (j : Junction) (es : List Expr) : Prop := ∃ e, .not e ∈ es ∧ j.spread e ⊆ es

theorem Opposed.mono (h : j.Opposed es) (hsub : es ⊆ es') : j.Opposed es' := by
  obtain ⟨e, hnot, hspread⟩ := h
  exact ⟨e, hsub hnot, List.Subset.trans hspread hsub⟩

theorem negatesPresent_not_iff : j.negatesPresent es (.not e) = true ↔ j.spread e ⊆ es := by
  rw [negatesPresent]
  split
  · next inner hinner =>
    obtain rfl := eq_build_of_operandsOf? hinner
    simp [spread_build, List.subset_def]
  · next hnone => simp [spread, hnone]

theorem any_negatesPresent_iff : es.any (j.negatesPresent es) = true ↔ j.Opposed es := by
  rw [List.any_eq_true]
  constructor
  · rintro ⟨e, hmem, hnegates⟩
    cases e with
    | not e => exact ⟨e, hmem, negatesPresent_not_iff.mp hnegates⟩
    | _ => cases hnegates
  · rintro ⟨e, hmem, hspread⟩
    exact ⟨.not e, hmem, negatesPresent_not_iff.mpr hspread⟩

/-- The operands decide the junction, by the absorbing constant or by an opposition. -/
def Absorbed (j : Junction) (es : List Expr) : Prop := j.absorbing ∈ es ∨ j.Opposed (j.gather es)

theorem Absorbed.mono (h : j.Absorbed es) (hsub : es ⊆ es') : j.Absorbed es' :=
  h.imp (fun hmem => hsub hmem) fun hopposed => hopposed.mono (gather_subset hsub)

/-! ## The result -/

/-- The junction of a set of operands; of a single operand it is the operand. -/
def collapse (j : Junction) : List Expr → Expr
  | [] => j.identity
  | [e] => e
  | es => j.build es

theorem collapse_of_two_le (h : 2 ≤ es.length) : j.collapse es = j.build es := by
  match es, h with
  | _ :: _ :: _, _ => rfl

theorem mem_filter_absorbing_iff :
    j.absorbing ∈ es.filter (· ≠ j.identity) ↔ j.absorbing ∈ es := by
  have hne : j.absorbing ≠ j.identity := by cases j <;> exact Expr.noConfusion
  simp [hne]

theorem reduce_of_absorbed (h : j.Absorbed es) : j.reduce es = j.absorbing := by
  unfold reduce
  dsimp only
  split
  · rfl
  · next hkept =>
    rw [List.contains_iff_mem, mem_filter_absorbing_iff] at hkept
    exact if_pos (any_negatesPresent_iff.mpr (h.resolve_left hkept))

theorem reduce_of_not_absorbed (h : ¬ j.Absorbed es) : j.reduce es = j.collapse (j.gather es) := by
  obtain ⟨habsorbing, hopposed⟩ := not_or.mp h
  rw [← mem_filter_absorbing_iff, ← List.contains_iff_mem] at habsorbing
  rw [← any_negatesPresent_iff] at hopposed
  unfold reduce
  dsimp only
  rw [if_neg habsorbing]
  exact if_neg hopposed

theorem reduce_congr (habsorbing : j.absorbing ∈ es ↔ j.absorbing ∈ es')
    (hgather : ∀ e, e ∈ j.gather es ↔ e ∈ j.gather es') : j.reduce es = j.reduce es' := by
  have hgather : j.gather es = j.gather es' :=
    (strict_gather j es).ext (strict_gather j es') hgather
  have hiff : j.Absorbed es ↔ j.Absorbed es' := by rw [Absorbed, Absorbed, habsorbing, hgather]
  by_cases h : j.Absorbed es
  · rw [reduce_of_absorbed h, reduce_of_absorbed (hiff.mp h)]
  · rw [reduce_of_not_absorbed h, reduce_of_not_absorbed (mt hiff.mpr h), hgather]

/-- A reduction depends on its operands as a set. -/
theorem reduce_congr_of_mem_iff (h : ∀ e, e ∈ es ↔ e ∈ es') : j.reduce es = j.reduce es' := by
  refine reduce_congr (h _) fun e => ?_
  simp only [mem_gather_iff, h]

end Junction

end FeatureFlags
