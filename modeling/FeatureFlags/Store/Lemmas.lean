import FeatureFlags.Materialization.Lemmas
import FeatureFlags.Store.Cache
import FeatureFlags.Store.Memory

/-!
# What stores hold

The records of a store in memory after a save, and those of a cache after a put.
-/

namespace FeatureFlags

namespace Materializations

/-- A record that is merged in changes what is found at its own place, and nothing else. -/
theorem get?_mergeRecord (unit : String) (m : Materializations)
    (entry : String × UnitRecord) (unit' materialization : String) :
    (m.mergeRecord unit entry).get? unit' materialization =
      if unit' = unit ∧ materialization = entry.1 then
        some (((m.get? unit entry.1).getD .empty).merge entry.2)
      else m.get? unit' materialization := by
  simp [mergeRecord, get?_insert]

/-- A record that is merged in is found merged with the one that was there. -/
theorem get?_merge (m : Materializations) (unit : String) (records : UnitRecords)
    (unit' materialization : String) :
    (m.merge unit records).get? unit' materialization =
      if unit' = unit then
        match records.get? materialization with
        | some record => some (((m.get? unit materialization).getD .empty).merge record)
        | none => m.get? unit materialization
      else m.get? unit' materialization := by
  by_cases hu : unit' = unit
  · subst hu
    rw [if_pos rfl]
    rw [merge, records.observe_foldl (fun m => m.get? unit' materialization)
      (fun record found => some ((found.getD .empty).merge record))
      (fun m record => (get?_mergeRecord unit' m (materialization, record) _ _).trans
        (if_pos ⟨rfl, rfl⟩))
      (fun m e he => (get?_mergeRecord unit' m e _ _).trans (if_neg fun h => he h.2.symm))]
    cases records.get? materialization <;> rfl
  · -- other units are left alone by every entry
    rw [if_neg hu]
    have hstep : ∀ m e, (mergeRecord unit m e).get? unit' materialization =
        m.get? unit' materialization := by
      intro m e
      rw [get?_mergeRecord, if_neg fun h => hu h.1]
    rw [merge, records.observe_foldl
      (fun m => m.get? unit' materialization) (fun _ found => found)
      (fun m record => hstep m (materialization, record)) (fun m e _ => hstep m e)]
    split <;> rfl

end Materializations

namespace MemoryStore

theorem get?_insert (s : MemoryStore) (unit materialization : String) (record : UnitRecord)
    (unit' materialization' : String) :
    (s.insert unit materialization record).get? unit' materialization' =
      if unit' = unit ∧ materialization' = materialization then some record
      else s.get? unit' materialization' :=
  s.records.get?_insert unit materialization record unit' materialization'

/-- Loading changes no record. -/
@[simp] theorem records_load (unit : String) (reads : Reads) (s : MemoryStore) :
    (load unit reads s).2.records = s.records := rfl

/-- What is saved is merged into the record that was there. -/
theorem get?_save (unit : String) (records : UnitRecords) (s : MemoryStore)
    (unit' materialization : String) :
    (save unit records s).get? unit' materialization =
      if unit' = unit then
        match records.get? materialization with
        | some record => some (((s.get? unit materialization).getD .empty).merge record)
        | none => s.get? unit materialization
      else s.get? unit' materialization :=
  s.records.get?_merge unit records unit' materialization

end MemoryStore

namespace RecordCache

theorem get?_erase (c : RecordCache) (key other : RecordKey) :
    (c.erase key).get? other = if other = key then none else c.get? other := by
  by_cases h : other = key
  · subst h
    simp [get?, erase]
  · have hne : ∀ e : RecordKey × UnitRecord, e.1 = other → e.1 ≠ key := fun e he => he ▸ h
    simp only [get?, erase, h, ↓reduceIte, List.find?_filter]
    congr 2
    funext e
    by_cases he : e.1 = other <;> simp [he, h]

end RecordCache

end FeatureFlags
