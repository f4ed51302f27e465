import FeatureFlags.Proofs.Sticky.Saving

/-!
# Decisions saved in batches

Saving the decisions of a batch by unit leaves the records that saving them one at a time leaves,
whatever order the units are gone through in: `batches_save_each`.

To merge decisions by unit is to save them one at a time into no records at all
(`StickyUpdate.grouped_eq`). So both ways of saving are told by one equation for the fold
(`Materializations.get?_foldl_remember`): what is there after a list of decisions is what was there
before with what the decisions come to by themselves merged onto it (`UnitRecord.onto`). It rests on
records being merged associatively, and not on the order of decisions for different places. Of
decisions for one rule the later one counts, and merging keeps their order.
-/

namespace FeatureFlags

namespace UnitRecord

/-- What is found at a place with what comes to it merged onto it. Where nothing comes, nothing
changes. -/
def onto (found : Option UnitRecord) : Option UnitRecord → Option UnitRecord
  | none => found
  | some later => some ((found.getD .empty).merge later)

theorem onto_onto (found later : Option UnitRecord) (r : UnitRecord) :
    onto (onto found later) (some r) = onto found (onto later (some r)) := by
  cases later with
  | none => simp [onto]
  | some later => simp [onto, merge_assoc]

end UnitRecord

open UnitRecord

namespace Materializations

/-- Merge a decision into the record at its place. -/
def remember (m : Materializations) (u : StickyUpdate) : Materializations :=
  m.mergeRecord u.unit (u.materialization, u.record)

theorem get?_remember (m : Materializations) (u : StickyUpdate) (unit materialization : String) :
    (m.remember u).get? unit materialization =
      if u.isAt unit materialization then onto (m.get? unit materialization) (some u.record)
      else m.get? unit materialization := by
  rw [remember, get?_mergeRecord]
  by_cases hplace : unit = u.unit ∧ materialization = u.materialization
  · obtain ⟨rfl, rfl⟩ := hplace
    rw [if_pos ⟨rfl, rfl⟩, if_pos (StickyUpdate.isAt_iff.mpr ⟨rfl, rfl⟩)]
    rfl
  · have hnot : ¬ u.isAt unit materialization := fun h =>
      hplace ⟨(StickyUpdate.isAt_iff.mp h).1.symm, (StickyUpdate.isAt_iff.mp h).2.symm⟩
    rw [if_neg hplace, if_neg hnot]

/-- What is there after some decisions is what was there before, with what the decisions come to by
themselves merged onto it. -/
theorem get?_foldl_remember (m : Materializations) (updates : List StickyUpdate)
    (unit materialization : String) :
    (updates.foldl remember m).get? unit materialization =
      onto (m.get? unit materialization)
        ((updates.foldl remember .empty).get? unit materialization) := by
  -- from the back: the last decision is merged in last on both sides
  rw [List.foldl_eq_foldr_reverse, List.foldl_eq_foldr_reverse]
  induction updates.reverse with
  | nil => rfl
  | cons u rest ih =>
    rw [List.foldr_cons, List.foldr_cons, get?_remember, get?_remember, ih]
    split
    · exact onto_onto ..
    · rfl

/-- Decisions change nothing at the places of others. -/
theorem get?_foldl_remember_of_forall (m : Materializations) {updates : List StickyUpdate}
    {unit materialization : String} (h : ∀ u ∈ updates, ¬ u.isAt unit materialization) :
    (updates.foldl remember m).get? unit materialization = m.get? unit materialization := by
  induction updates generalizing m with
  | nil => rfl
  | cons u updates ih =>
    obtain ⟨hu, hrest⟩ := List.forall_mem_cons.mp h
    rw [List.foldl_cons, ih _ hrest, get?_remember, if_neg hu]

end Materializations

open Materializations

/-- Merged by unit, decisions are saved one at a time into no records. -/
theorem StickyUpdate.grouped_eq (updates : List StickyUpdate) :
    ⟨grouped updates⟩ = updates.foldl remember .empty := by
  suffices h : ∀ m : Materializations, ⟨updates.foldl addTo m.units⟩ = updates.foldl remember m from
    h .empty
  induction updates with
  | nil => exact fun m => rfl
  | cons u updates ih =>
    intro m
    have hstep : addTo m.units u = (m.remember u).units := by
      rw [addTo, remember, mergeRecord, Materializations.insert, Materializations.get?,
        Dict.getD, Dict.getD]
      cases m.units.get? u.unit <;> rfl
    rw [List.foldl_cons, List.foldl_cons, hstep, ih]

namespace MemoryStore

/-- Save records of several units, one call for each. -/
def saveAll (entries : List (String × UnitRecords)) (t : MemoryStore) : MemoryStore :=
  entries.foldl (fun t e => save e.1 e.2 t) t

/-- Save a decision by itself. -/
def saveOne (t : MemoryStore) (u : StickyUpdate) : MemoryStore :=
  save u.unit (Dict.empty.insert u.materialization u.record) t

/-- Save decisions one at a time, in their order. -/
def saveEach (updates : List StickyUpdate) (t : MemoryStore) : MemoryStore :=
  updates.foldl saveOne t

theorem records_saveEach (updates : List StickyUpdate) (t : MemoryStore) :
    (saveEach updates t).records = updates.foldl remember t.records := by
  induction updates generalizing t with
  | nil => rfl
  | cons u updates ih => exact ih (saveOne t u)

theorem get?_saveAll {entries : List (String × UnitRecords)} {m : Materializations}
    (hperm : entries.Perm m.units.toList) (t : MemoryStore) (unit materialization : String) :
    (saveAll entries t).get? unit materialization =
      onto (t.get? unit materialization) (m.get? unit materialization) := by
  have hself : ∀ (t : MemoryStore) (records : UnitRecords),
      (save unit records t).get? unit materialization =
        onto (t.get? unit materialization) (records.get? materialization) := by
    intro t records
    rw [get?_save, if_pos rfl]
    cases records.get? materialization <;> rfl
  have hother : ∀ (t : MemoryStore) (e : String × UnitRecords), e.1 ≠ unit →
      (save e.1 e.2 t).get? unit materialization = t.get? unit materialization := by
    intro t e he
    rw [get?_save, if_neg he.symm]
  -- each unit is saved once, with its own records
  have hfold := m.units.observe_foldl_perm hperm (fun t => t.get? unit materialization)
    (fun records found => onto found (records.get? materialization)) hself hother t
  refine hfold.trans ?_
  unfold Materializations.get?
  cases m.units.get? unit <;> rfl

/-- Saved by unit, in any order of the units, decisions leave the records that they leave if they
are saved one at a time. -/
theorem get?_saveAll_grouped {updates : List StickyUpdate} {entries : List (String × UnitRecords)}
    (hperm : entries.Perm (StickyUpdate.grouped updates).toList) (t : MemoryStore)
    (unit materialization : String) :
    (saveAll entries t).get? unit materialization =
      (saveEach updates t).get? unit materialization := by
  have hgrouped : (⟨StickyUpdate.grouped updates⟩ : Materializations).get? unit materialization =
      (updates.foldl remember .empty).get? unit materialization := by
    rw [StickyUpdate.grouped_eq]
  calc (saveAll entries t).get? unit materialization
      = onto (t.get? unit materialization)
          ((⟨StickyUpdate.grouped updates⟩ : Materializations).get? unit materialization) :=
        get?_saveAll hperm t unit materialization
    _ = (updates.foldl remember t.records).get? unit materialization := by
        rw [hgrouped, get?_foldl_remember t.records]
        rfl
    _ = (saveEach updates t).get? unit materialization := by
        rw [← records_saveEach]
        rfl

end MemoryStore

open MemoryStore

/-- **Saving in batches is saving one at a time.** Merging records is associative, a record merged
with itself is itself, and the empty record changes nothing on either side. Let any store in memory
save the decisions of a batch, merged by unit, with the units in any order, for instance in that of
a coordinator: it then has the records that it has if it saves the decisions one at a time. Where no
decision goes, it has the record that it had. -/
theorem batches_save_each :
    (∀ a b c : UnitRecord, (a.merge b).merge c = a.merge (b.merge c)) ∧
    (∀ r : UnitRecord, r.merge r = r) ∧
    (∀ r : UnitRecord, UnitRecord.empty.merge r = r ∧ r.merge .empty = r) ∧
    ∀ (t : MemoryStore) (updates : List StickyUpdate) (unit materialization : String),
      (∀ entries, entries.Perm (StickyUpdate.grouped updates).toList →
        (saveAll entries t).get? unit materialization =
          (saveEach updates t).get? unit materialization) ∧
      (store.saveUpdates updates t).get? unit materialization =
        (saveEach updates t).get? unit materialization ∧
      ((∀ u ∈ updates, ¬ (u.unit = unit ∧ u.materialization = materialization)) →
        (saveEach updates t).get? unit materialization = t.get? unit materialization) := by
  refine ⟨merge_assoc, merge_self, fun r => ⟨empty_merge r, merge_empty r⟩, ?_⟩
  intro t updates unit materialization
  refine ⟨fun entries hperm => get?_saveAll_grouped hperm t unit materialization,
    get?_saveAll_grouped (List.Perm.refl _) t unit materialization, ?_⟩
  intro hother
  have hnot : ∀ u ∈ updates, ¬ u.isAt unit materialization := fun u hu h =>
    hother u hu (StickyUpdate.isAt_iff.mp h)
  show (saveEach updates t).records.get? unit materialization = _
  rw [records_saveEach, get?_foldl_remember_of_forall _ hnot]
  rfl

/-- Two decisions on one rule, and between them one for another unit. -/
def changeOfMind : List StickyUpdate :=
  [⟨"visitor", "rollout", "seen", "on"⟩, ⟨"guest", "rollout", "seen", "on"⟩,
    ⟨"visitor", "rollout", "seen", "off"⟩]

/-- Saved by unit, the other unit first, the later decision counts as it does one at a time. -/
theorem changeOfMind_saved :
    [("visitor", Dict.empty.insert "seen" (UnitRecord.assigned "rollout" "off")),
        ("guest", Dict.empty.insert "seen" (UnitRecord.assigned "rollout" "on"))].Perm
      (StickyUpdate.grouped changeOfMind).toList ∧
    (∀ u ∈ changeOfMind, ¬ (u.unit = "visitor" ∧ u.materialization = "opened")) ∧
    (saveAll [("visitor", Dict.empty.insert "seen" (UnitRecord.assigned "rollout" "off")),
        ("guest", Dict.empty.insert "seen" (UnitRecord.assigned "rollout" "on"))]
        .empty).get? "visitor" "seen" =
      (saveEach changeOfMind .empty).get? "visitor" "seen" ∧
    (saveEach changeOfMind .empty).get? "visitor" "opened" = none := by
  have hgrouped : (StickyUpdate.grouped changeOfMind).toList =
      [("guest", Dict.empty.insert "seen" (UnitRecord.assigned "rollout" "on")),
        ("visitor", Dict.empty.insert "seen" (UnitRecord.assigned "rollout" "off"))] := by
    decide +kernel
  have hperm : [("visitor", Dict.empty.insert "seen" (UnitRecord.assigned "rollout" "off")),
      ("guest", Dict.empty.insert "seen" (UnitRecord.assigned "rollout" "on"))].Perm
        (StickyUpdate.grouped changeOfMind).toList := by
    rw [hgrouped]
    exact List.Perm.swap ..
  have hother : ∀ u ∈ changeOfMind, ¬ (u.unit = "visitor" ∧ u.materialization = "opened") := by
    decide
  obtain ⟨-, -, -, hsaved⟩ := batches_save_each
  exact ⟨hperm, hother, (hsaved .empty changeOfMind "visitor" "seen").1 _ hperm,
    (hsaved .empty changeOfMind "visitor" "opened").2.2 hother⟩

end FeatureFlags
