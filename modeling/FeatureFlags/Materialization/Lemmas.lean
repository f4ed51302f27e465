import FeatureFlags.Dict.Lemmas
import FeatureFlags.Materialization

/-!
# Records and materializations

Records of a unit merge like a monoid in which every record is idempotent, and what
is at hand after a change is told by look-ups.
-/

namespace FeatureFlags

namespace UnitRecord

@[ext] theorem ext {a b : UnitRecord} (h : a.enrolled = b.enrolled)
    (h' : ∀ rule, a.variantFor? rule = b.variantFor? rule) : a = b := by
  obtain ⟨enrolled, variants⟩ := a
  obtain ⟨enrolled', variants'⟩ := b
  cases h
  cases Dict.ext h'
  rfl

@[simp] theorem enrolled_merge (a b : UnitRecord) :
    (a.merge b).enrolled = (a.enrolled || b.enrolled) := rfl

/-- Of two records put together the later one is looked into first. -/
@[simp] theorem variantFor?_merge (a b : UnitRecord) (rule : String) :
    (a.merge b).variantFor? rule = (b.variantFor? rule).or (a.variantFor? rule) :=
  Dict.get?_union a.variants b.variants rule

@[simp] theorem enrolled_empty : empty.enrolled = false := rfl

@[simp] theorem variantFor?_empty (rule : String) : empty.variantFor? rule = none := rfl

@[simp] theorem enrolled_assigned (rule variant : String) :
    (assigned rule variant).enrolled = true := rfl

theorem variantFor?_assigned (rule variant other : String) :
    (assigned rule variant).variantFor? other = if other = rule then some variant else none := by
  simp [assigned, variantFor?, Dict.get?_insert]

@[simp] theorem merge_empty (r : UnitRecord) : r.merge empty = r := by ext1 <;> simp

@[simp] theorem empty_merge (r : UnitRecord) : empty.merge r = r := by ext1 <;> simp

theorem merge_assoc (a b c : UnitRecord) : (a.merge b).merge c = a.merge (b.merge c) := by
  ext1 <;> simp [Bool.or_assoc, Option.or_assoc]

@[simp] theorem merge_self (r : UnitRecord) : r.merge r = r := by ext1 <;> simp

end UnitRecord

namespace Materializations

@[simp] theorem get?_empty (unit materialization : String) :
    empty.get? unit materialization = none := rfl

/-- What was put in its place is found there, and nothing else has changed. -/
theorem get?_insert (m : Materializations) (unit materialization : String) (record : UnitRecord)
    (unit' materialization' : String) :
    (m.insert unit materialization record).get? unit' materialization' =
      if unit' = unit ∧ materialization' = materialization then some record
      else m.get? unit' materialization' := by
  by_cases hu : unit' = unit
  · subst hu
    by_cases hm : materialization' = materialization
    · simp [insert, get?, hm]
    · cases h : m.units.get? unit' <;>
        simp [insert, get?, Dict.getD, Dict.get?_insert, hm, h]
  · simp [insert, get?, Dict.get?_insert, hu]

/-- The given records of the unit are found first, and other units have not changed. -/
theorem get?_extend (m : Materializations) (unit : String) (records : UnitRecords)
    (unit' materialization : String) :
    (m.extend unit records).get? unit' materialization =
      if unit' = unit then (records.get? materialization).or (m.get? unit materialization)
      else m.get? unit' materialization := by
  by_cases hu : unit' = unit
  · subst hu
    cases h : m.units.get? unit' <;> simp [extend, get?, Dict.getD, h]
  · simp [extend, get?, Dict.get?_insert, hu]

end Materializations

end FeatureFlags
