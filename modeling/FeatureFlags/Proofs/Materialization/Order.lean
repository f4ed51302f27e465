import FeatureFlags.Materialization.Lemmas

/-!
# Records at hand, compared

`m ≤ m'`: whatever is at hand in `m` is at hand in `m'`, with the same record. What is
not at hand in `m` may be anything in `m'`, so a resolve that only ever asks for
records of `m` cannot tell the two apart.
-/

namespace FeatureFlags

namespace Materializations

/-- Every record of the first is at hand in the second, unchanged. -/
instance : LE Materializations where
  le m m' := ∀ unit materialization record,
    m.get? unit materialization = some record → m'.get? unit materialization = some record

protected theorem le_refl (m : Materializations) : m ≤ m := by
  intro unit name record h
  exact h

protected theorem le_trans {a b c : Materializations} (hab : a ≤ b) (hbc : b ≤ c) : a ≤ c := by
  intro unit name record h
  exact hbc unit name record (hab unit name record h)

/-- Nothing is at hand in the empty collection. -/
theorem empty_le (m : Materializations) : Materializations.empty ≤ m := by
  intro unit name record h
  rw [get?_empty] at h
  cases h

/-- A record that is put where none is at hand changes none of the others. -/
theorem le_insert {m : Materializations} {unit name : String} (h : m.get? unit name = none)
    (record : UnitRecord) : m ≤ m.insert unit name record := by
  intro unit' name' old hold
  rw [get?_insert, if_neg, hold]
  rintro ⟨rfl, rfl⟩
  rw [h] at hold
  cases hold

/-- What is not at hand in more is not at hand in less. -/
theorem get?_eq_none_of_le {m m' : Materializations} (h : m ≤ m') {unit name : String}
    (hnone : m'.get? unit name = none) : m.get? unit name = none := by
  cases hsome : m.get? unit name with
  | none => rfl
  | some record =>
    rw [h unit name record hsome] at hnone
    cases hnone

end Materializations

end FeatureFlags
