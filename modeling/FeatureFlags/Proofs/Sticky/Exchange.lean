import FeatureFlags.Proofs.Sticky.Batches
import FeatureFlags.Proofs.Sticky.Calls

/-!
# What a coordinator and a store exchange

What the calls of a store carry, for every store, told without the grouping that the coordinator
does by unit.

- `MissingRecord.LoadsAll`: a round of loading asks every unit that misses something once, for the
  last record that it misses for each name of a rule. The request goes on with what was loaded
  (`Materializations.SuppliedBy`).
- `MissingRecord.StopsLoading`: a round that fails asks like that up to the load that fails.
- `StickyUpdate.SavedAs`: every unit that something is decided for is saved once, and each place
  has the last variant that was decided on for it.
-/

namespace FeatureFlags

/-! ## Loading -/

namespace MissingRecord

/-- The units that are asked miss something, each comes once, by ascending name. A unit is asked
for the last record that it misses for each name of a rule. -/
structure AskedFor (items : List MissingRecord) (asked : List (String × Reads)) : Prop where
  ascending : (asked.map (·.1)).Pairwise (· < ·)
  missing : ∀ entry ∈ asked, ∃ m ∈ items, m.unit = entry.1
  reads : ∀ entry ∈ asked, ∀ rule materialization, entry.2.get? rule = some materialization ↔
    ∃ before after, items = before ++ ⟨entry.1, rule, materialization⟩ :: after ∧
      ∀ later ∈ after, ¬ (later.unit = entry.1 ∧ later.rule = rule)

variable {items : List MissingRecord} {asked asked' : List (String × Reads)}

theorem AskedFor.sublist (h : AskedFor items asked) (hsub : asked'.Sublist asked) :
    AskedFor items asked' where
  ascending := h.ascending.sublist (hsub.map _)
  missing := fun entry hentry => h.missing entry (hsub.subset hentry)
  reads := fun entry hentry => h.reads entry (hsub.subset hentry)

theorem askedFor_readsByUnit (items : List MissingRecord) :
    AskedFor items (readsByUnit items).toList where
  ascending := (readsByUnit items).pairwise_keys
  missing := fun _ hentry => mem_keys_readsByUnit.mp (List.mem_map_of_mem hentry)
  reads := by
    rintro ⟨unit, reads⟩ hentry rule materialization
    have hget : ((readsByUnit items).getD unit ∅).get? rule = reads.get? rule := by
      rw [Dict.getD, (Dict.get?_eq_some_iff _).mpr hentry, Option.getD_some]
    dsimp only
    rw [← hget, get?_readsByUnit]
    constructor
    · intro h
      obtain ⟨m, hfind, rfl⟩ := Option.map_eq_some_iff.mp h
      obtain ⟨hm, before, after, hitems, hafter⟩ := find?_reverse_eq_some_iff.mp hfind
      obtain ⟨rfl, rfl⟩ := isFor_iff.mp hm
      exact ⟨before, after, hitems, fun later hlater h => hafter later hlater (isFor_iff.mpr h)⟩
    · rintro ⟨before, after, hitems, hafter⟩
      have hfind : items.reverse.find? (isFor unit rule) = some ⟨unit, rule, materialization⟩ :=
        find?_reverse_eq_some_iff.mpr ⟨isFor_iff.mpr ⟨rfl, rfl⟩, before, after, hitems,
          fun later hlater h => hafter later hlater (isFor_iff.mp h)⟩
      rw [hfind, Option.map_some]

end MissingRecord

namespace Materializations

/-- What is at hand once records were loaded. -/
structure SuppliedBy (loads : List UnitLoad) (before after : Materializations) : Prop where
  /-- All that the store has is at hand. -/
  loaded : ∀ load ∈ loads, ∀ name record, load.records.get? name = some record →
    after.get? load.unit name = some record
  /-- What it was asked for and does not have counts as empty. -/
  blank : ∀ load ∈ loads, ∀ name, load.records.get? name = none →
    (∃ rule, load.reads.get? rule = some name) → after.get? load.unit name = some .empty
  /-- Everything else is as it was. -/
  kept : ∀ unit name, (∀ load ∈ loads, load.unit = unit →
      load.records.get? name = none ∧ ∀ rule, load.reads.get? rule ≠ some name) →
    after.get? unit name = before.get? unit name

theorem get?_supply (request : ResolveRequest) (load : UnitLoad) (unit name : String) :
    (load.supply request).materializations.get? unit name =
      if unit = load.unit then
        ((load.records.get? name).or (load.reads.blank.get? name)).or
          (request.materializations.get? load.unit name)
      else request.materializations.get? unit name := by
  show (request.materializations.extend load.unit (load.reads.blank.union load.records)).get?
    unit name = _
  rw [get?_extend, Dict.get?_union]

/-- Loads leave the records of other units alone. -/
theorem get?_foldl_supply_of_forall {loads : List UnitLoad} {unit : String}
    (h : ∀ load ∈ loads, load.unit ≠ unit) (request : ResolveRequest) (name : String) :
    (loads.foldl UnitLoad.supply request).materializations.get? unit name =
      request.materializations.get? unit name := by
  induction loads generalizing request with
  | nil => rfl
  | cons load rest ih =>
    obtain ⟨hload, hrest⟩ := List.forall_mem_cons.mp h
    rw [List.foldl_cons, ih hrest, get?_supply, if_neg (Ne.symm hload)]

/-- Where each unit is loaded once, what is loaded of it stays. -/
theorem get?_foldl_supply {loads : List UnitLoad}
    (h : loads.Pairwise fun load later => load.unit ≠ later.unit) (request : ResolveRequest)
    {load : UnitLoad} (hload : load ∈ loads) (name : String) :
    (loads.foldl UnitLoad.supply request).materializations.get? load.unit name =
      ((load.records.get? name).or (load.reads.blank.get? name)).or
        (request.materializations.get? load.unit name) := by
  induction loads generalizing request with
  | nil => cases hload
  | cons first rest ih =>
    obtain ⟨hfirst, hrest⟩ := List.pairwise_cons.mp h
    rw [List.foldl_cons]
    rcases List.mem_cons.mp hload with rfl | hload
    · rw [get?_foldl_supply_of_forall (fun later hlater => (hfirst later hlater).symm),
        get?_supply, if_pos rfl]
    · rw [ih hrest _ hload, get?_supply, if_neg (hfirst load hload).symm]

theorem suppliedBy_foldl {loads : List UnitLoad}
    (h : loads.Pairwise fun load later => load.unit ≠ later.unit) (request : ResolveRequest) :
    SuppliedBy loads request.materializations
      (loads.foldl UnitLoad.supply request).materializations where
  loaded := fun load hload name record hrecord => by
    rw [get?_foldl_supply h request hload, hrecord]
    rfl
  blank := fun load hload name hnone hasked => by
    rw [get?_foldl_supply h request hload, hnone, Reads.get?_blank,
      if_pos (Reads.mem_materializations_iff.mpr hasked)]
    rfl
  kept := fun unit name hkept => by
    by_cases hunit : ∃ load ∈ loads, load.unit = unit
    · obtain ⟨load, hload, rfl⟩ := hunit
      obtain ⟨hnone, hasked⟩ := hkept load hload rfl
      have hblank : name ∉ load.reads.materializations := fun hmem => by
        obtain ⟨rule, hrule⟩ := Reads.mem_materializations_iff.mp hmem
        exact hasked rule hrule
      rw [get?_foldl_supply h request hload, hnone, Reads.get?_blank, if_neg hblank]
      rfl
    · exact get?_foldl_supply_of_forall (fun load hload heq => hunit ⟨load, hload, heq⟩) request
        name

end Materializations

namespace MissingRecord

/-- A round of loading that succeeds: all units that miss something are asked, and the request goes
on with what was loaded and is otherwise the same. -/
structure LoadsAll (items : List MissingRecord) (loads : List UnitLoad)
    (request request' : ResolveRequest) : Prop where
  asked : AskedFor items (loads.map UnitLoad.asked)
  all : ∀ m ∈ items, ∃ load ∈ loads, load.unit = m.unit
  same : request' = request.holding request'.materializations
  supplied : Materializations.SuppliedBy loads request.materializations request'.materializations

/-- A round of loading that fails: units are asked as in any round, up to the load that fails. -/
def StopsLoading (items : List MissingRecord) (ops : List HelperCall) (cause : StoreError) : Prop :=
  ∃ (loads : List UnitLoad) (unit : String) (reads : Reads),
    ops = loads.map UnitLoad.call ++ [.load unit reads (.error cause)] ∧
    AskedFor items (loads.map UnitLoad.asked ++ [(unit, reads)])

variable {items : List MissingRecord} {request request' : ResolveRequest} {ops : List HelperCall}
  {cause : StoreError}

/-- Loads change nothing in the request but the records at hand. -/
theorem holding_foldl_supply (loads : List UnitLoad) (request : ResolveRequest) :
    loads.foldl UnitLoad.supply request =
      request.holding (loads.foldl UnitLoad.supply request).materializations := by
  induction loads generalizing request with
  | nil => rfl
  | cons load rest ih =>
    rw [List.foldl_cons, ih (load.supply request)]
    rfl

/-- Loading that succeeds is such a round. -/
theorem exists_loadsAll
    (h : RecordStore.Loading request (readsByUnit items).toList ops (.ok request')) :
    ∃ loads, ops = loads.map UnitLoad.call ∧ LoadsAll items loads request request' := by
  obtain ⟨loads, hops, hasked, rfl⟩ := h.exists_loads
  have hall : AskedFor items (loads.map UnitLoad.asked) := hasked ▸ askedFor_readsByUnit items
  have hunits : (loads.map UnitLoad.asked).map (·.1) = loads.map (·.unit) := List.map_map ..
  have hdistinct : loads.Pairwise fun load later => load.unit ≠ later.unit := by
    have hascending := hall.ascending
    rw [hunits] at hascending
    refine (List.pairwise_map.mp hascending).imp fun hlt heq => ?_
    rw [heq] at hlt
    exact String.lt_irrefl _ hlt
  refine ⟨loads, hops, ?_⟩
  exact
    { asked := hall
      all := fun m hm => by
        have hmem : m.unit ∈ loads.map (·.unit) := by
          rw [← hunits, hasked]
          exact mem_keys_readsByUnit.mpr ⟨m, hm, rfl⟩
        exact List.mem_map.mp hmem
      same := holding_foldl_supply loads request
      supplied := Materializations.suppliedBy_foldl hdistinct request }

/-- Loading that fails is such a round. -/
theorem stopsLoading
    (h : RecordStore.Loading request (readsByUnit items).toList ops (.error cause)) :
    StopsLoading items ops cause := by
  obtain ⟨loads, unit, reads, rest, hops, hentries⟩ := h.exists_failure
  refine ⟨loads, unit, reads, hops, (askedFor_readsByUnit items).sublist ?_⟩
  rw [← hentries]
  exact (List.Sublist.refl _).append (List.singleton_sublist.mpr List.mem_cons_self)

end MissingRecord

/-! ## Saving -/

namespace StickyUpdate

/-- What is saved of some decisions. -/
structure SavedAs (updates : List StickyUpdate) (saved : List (String × UnitRecords)) : Prop where
  /-- Units are saved by ascending name, each once. -/
  ascending : (saved.map (·.1)).Pairwise (· < ·)
  /-- They are those that something is decided for. -/
  units : ∀ unit, unit ∈ saved.map (·.1) ↔ ∃ u ∈ updates, u.unit = unit
  /-- There is a record for each materialization that something is written to. -/
  places : ∀ entry ∈ saved, ∀ materialization, (entry.2.get? materialization).isSome ↔
    ∃ u ∈ updates, u.unit = entry.1 ∧ u.materialization = materialization
  /-- It says that the unit is recorded. -/
  enrolled : ∀ entry ∈ saved, ∀ materialization record,
    entry.2.get? materialization = some record → record.enrolled = true
  /-- For each name of a rule it has the last variant that was decided on, and no other. -/
  variants : ∀ entry ∈ saved, ∀ materialization record,
    entry.2.get? materialization = some record →
      ∀ rule variant, record.variantFor? rule = some variant ↔
        ∃ before after, updates = before ++ ⟨entry.1, rule, materialization, variant⟩ :: after ∧
          ∀ later ∈ after, ¬ (later.unit = entry.1 ∧ later.materialization = materialization ∧
            later.rule = rule)

theorem mem_keys_grouped {updates : List StickyUpdate} {unit : String} :
    unit ∈ (grouped updates).keys ↔ ∃ u ∈ updates, u.unit = unit := by
  rw [Dict.mem_keys_iff]
  exact Dict.isSome_get?_foldl_insert StickyUpdate.unit
    (fun grouped u => (grouped.getD u.unit Dict.empty).insert u.materialization
      (recordIn grouped u.unit u.materialization |>.merge u.record)) updates unit

theorem recordIn_eq {grouped : Dict UnitRecords} {unit : String} {records : UnitRecords}
    (h : grouped.get? unit = some records) (materialization : String) :
    recordIn grouped unit materialization = (records.get? materialization).getD .empty := by
  show ((grouped.get? unit).getD .empty).getD materialization .empty = _
  rw [h]
  rfl

/-- There is a record where a decision goes, and nowhere else. -/
theorem isSome_get?_grouped_iff {updates : List StickyUpdate} {unit : String}
    {records : UnitRecords} (h : (grouped updates).get? unit = some records)
    (materialization : String) :
    (records.get? materialization).isSome ↔
      ∃ u ∈ updates, u.unit = unit ∧ u.materialization = materialization := by
  constructor
  · intro hsome
    by_contra hnone
    have hnot : ∀ u ∈ updates, ¬ u.isAt unit materialization := fun u hu hat =>
      hnone ⟨u, hu, isAt_iff.mp hat⟩
    have hget := Materializations.get?_foldl_remember_of_forall .empty hnot
    rw [← grouped_eq, Materializations.get?, h, Option.bind_some] at hget
    rw [hget] at hsome
    cases hsome
  · rintro ⟨u, hu, hat⟩
    have henrolled := enrolled_recordIn_grouped updates unit materialization
    rw [List.any_eq_true.mpr ⟨u, List.mem_reverse.mpr hu, isAt_iff.mpr hat⟩, recordIn_eq h]
      at henrolled
    cases hget : records.get? materialization with
    | some record => rfl
    | none =>
      rw [hget] at henrolled
      cases henrolled

/-- Merged by unit, decisions are saved like that. -/
theorem savedAs_grouped (updates : List StickyUpdate) :
    SavedAs updates (grouped updates).toList := by
  have hget : ∀ entry ∈ (grouped updates).toList, ∀ materialization record,
      entry.2.get? materialization = some record →
        recordIn (grouped updates) entry.1 materialization = record := by
    intro entry hentry materialization record hrecord
    rw [recordIn_eq ((Dict.get?_eq_some_iff _).mpr hentry), hrecord, Option.getD_some]
  have hplaces : ∀ entry ∈ (grouped updates).toList, ∀ materialization,
      (entry.2.get? materialization).isSome ↔
        ∃ u ∈ updates, u.unit = entry.1 ∧ u.materialization = materialization :=
    fun entry hentry => isSome_get?_grouped_iff ((Dict.get?_eq_some_iff _).mpr hentry)
  exact
    { ascending := (grouped updates).pairwise_keys
      units := fun unit => mem_keys_grouped
      places := hplaces
      enrolled := by
        intro entry hentry materialization record hrecord
        obtain ⟨u, hu, hat⟩ := (hplaces entry hentry materialization).mp (by rw [hrecord]; rfl)
        rw [← hget entry hentry materialization record hrecord, enrolled_recordIn_grouped]
        exact List.any_eq_true.mpr ⟨u, List.mem_reverse.mpr hu, isAt_iff.mpr hat⟩
      variants := by
        intro entry hentry materialization record hrecord rule variant
        rw [← hget entry hentry materialization record hrecord, variantFor?_recordIn_grouped]
        constructor
        · intro h
          obtain ⟨u, hfind, rfl⟩ := Option.map_eq_some_iff.mp h
          obtain ⟨hu, before, after, hupdates, hafter⟩ := find?_reverse_eq_some_iff.mp hfind
          obtain ⟨unit, records⟩ := entry
          obtain ⟨rfl, rfl, rfl⟩ := isFor_iff.mp hu
          exact ⟨before, after, hupdates, fun later hlater h =>
            hafter later hlater (isFor_iff.mpr h)⟩
        · rintro ⟨before, after, hupdates, hafter⟩
          have hfind : updates.reverse.find? (isFor entry.1 materialization rule) =
              some ⟨entry.1, rule, materialization, variant⟩ :=
            find?_reverse_eq_some_iff.mpr ⟨isFor_iff.mpr ⟨rfl, rfl, rfl⟩, before, after, hupdates,
              fun later hlater h => hafter later hlater (isFor_iff.mp h)⟩
          rw [hfind, Option.map_some] }

end StickyUpdate

end FeatureFlags
