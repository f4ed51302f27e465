import FeatureFlags.Proofs.Materialization.Order
import FeatureFlags.Proofs.Resolution.Request
import FeatureFlags.Sticky.Coordinator
import FeatureFlags.Store.Lemmas

/-!
# Loading what is missing

What a coordinator loads for a report, and what a request has at hand afterwards if the
store is one in memory.

A unit is asked for with its rules, by name, and for each name one materialization
(`MissingRecord.get?_readsByUnit`). Rules of different flags may have one name. So of
two missing records of a unit that rules of one name read, only the last is loaded
(`MissingRecord.Loads`), and the other is dropped (`MissingRecord.Dropped`).

- `RecordStore.loadMissing_memory`: loading from memory succeeds.
- `MemoryStore.get?_supply`: afterwards the records that are loaded are at hand as the
  store has them, and all others are as before.
-/

namespace FeatureFlags

/-- The first element from the back is the last one from the front. -/
theorem find?_reverse_eq_some_iff {α : Type} {p : α → Bool} {l : List α} {a : α} :
    l.reverse.find? p = some a ↔
      p a ∧ ∃ before after, l = before ++ a :: after ∧ ∀ later ∈ after, ¬ p later := by
  rw [List.find?_eq_some_iff_append]
  refine and_congr_right fun _ => ?_
  constructor
  · rintro ⟨after, before, hsplit, hafter⟩
    refine ⟨before.reverse, after.reverse, ?_, fun later hlater => ?_⟩
    · rw [← List.reverse_reverse l, hsplit]
      simp
    · simpa using hafter later (List.mem_reverse.mp hlater)
  · rintro ⟨before, after, rfl, hafter⟩
    refine ⟨after.reverse, before.reverse, by simp, fun later hlater => ?_⟩
    simpa using hafter later (List.mem_reverse.mp hlater)

/-! ## What is loaded -/

theorem Reads.mem_materializations_iff {r : Reads} {materialization : String} :
    materialization ∈ r.materializations ↔ ∃ rule, r.get? rule = some materialization := by
  constructor
  · intro h
    obtain ⟨⟨rule, _⟩, hentry, rfl⟩ := List.mem_map.mp h
    exact ⟨rule, (Dict.get?_eq_some_iff _).mpr hentry⟩
  · rintro ⟨rule, h⟩
    exact List.mem_map.mpr ⟨(rule, materialization), (Dict.get?_eq_some_iff _).mp h, rfl⟩

namespace MissingRecord

/-- Whether the record is missing for the unit and a rule of the name. -/
def isFor (unit rule : String) (m : MissingRecord) : Bool := m.unit = unit ∧ m.rule = rule

theorem isFor_iff {unit rule : String} {m : MissingRecord} :
    m.isFor unit rule ↔ m.unit = unit ∧ m.rule = rule := decide_eq_true_iff

theorem get?_addTo (grouped : Dict Reads) (m : MissingRecord) (unit rule : String) :
    ((addTo grouped m).getD unit ∅).get? rule =
      if m.isFor unit rule then some m.materialization else (grouped.getD unit ∅).get? rule := by
  unfold addTo
  rw [Dict.getD, Dict.get?_insert]
  by_cases hunit : unit = m.unit
  · subst hunit
    rw [if_pos rfl, Option.getD_some, Dict.get?_insert]
    by_cases hrule : rule = m.rule
    · rw [if_pos hrule, if_pos (isFor_iff.mpr ⟨rfl, hrule.symm⟩)]
    · rw [if_neg hrule, if_neg fun h => hrule (isFor_iff.mp h).2.symm]
  · rw [if_neg hunit, if_neg fun h => hunit (isFor_iff.mp h).1.symm]
    rfl

/-- A unit is asked for with the last record that it misses for each name of a rule. -/
theorem get?_readsByUnit (items : List MissingRecord) (unit rule : String) :
    ((readsByUnit items).getD unit ∅).get? rule =
      (items.reverse.find? (isFor unit rule)).map (·.materialization) := by
  -- from the back: what is added last is found first
  rw [readsByUnit, List.foldl_eq_foldr_reverse]
  induction items.reverse with
  | nil => rfl
  | cons m rest ih =>
    rw [List.foldr_cons, get?_addTo, List.find?_cons, ih]
    cases m.isFor unit rule <;> rfl

/-- Every unit that misses something is asked for. -/
theorem mem_keys_readsByUnit {items : List MissingRecord} {unit : String} :
    unit ∈ (readsByUnit items).keys ↔ ∃ m ∈ items, m.unit = unit := by
  rw [Dict.mem_keys_iff]
  exact Dict.isSome_get?_foldl_insert MissingRecord.unit
    (fun grouped m => (grouped.getD m.unit (∅ : Reads)).insert m.rule m.materialization) items unit

/-- The record is among those that are loaded for the missing ones. -/
def Loads (items : List MissingRecord) (unit materialization : String) : Prop :=
  materialization ∈ ((readsByUnit items).getD unit ∅).materializations

instance (items : List MissingRecord) (unit materialization : String) :
    Decidable (Loads items unit materialization) :=
  inferInstanceAs (Decidable (_ ∈ _))

/-- The record is missing and yet not loaded. -/
def Dropped (items : List MissingRecord) (m : MissingRecord) : Prop :=
  m ∈ items ∧ ¬ Loads items m.unit m.materialization

theorem loads_iff_get? {items : List MissingRecord} {unit materialization : String} :
    Loads items unit materialization ↔
      ∃ rule, ((readsByUnit items).getD unit ∅).get? rule = some materialization :=
  Reads.mem_materializations_iff

/-- A record is loaded if it is missing for a rule, and none follows that the same unit misses for
a rule of that name. -/
theorem loads_iff {items : List MissingRecord} {unit materialization : String} :
    Loads items unit materialization ↔
      ∃ before rule after, items = before ++ ⟨unit, rule, materialization⟩ :: after ∧
        ∀ later ∈ after, ¬ later.isFor unit rule := by
  rw [loads_iff_get?]
  constructor
  · rintro ⟨rule, h⟩
    rw [get?_readsByUnit] at h
    obtain ⟨m, hfind, rfl⟩ := Option.map_eq_some_iff.mp h
    obtain ⟨hm, before, after, hitems, hafter⟩ := find?_reverse_eq_some_iff.mp hfind
    obtain ⟨rfl, rfl⟩ := isFor_iff.mp hm
    exact ⟨before, m.rule, after, hitems, hafter⟩
  · rintro ⟨before, rule, after, hitems, hafter⟩
    have hfind : items.reverse.find? (isFor unit rule) = some ⟨unit, rule, materialization⟩ :=
      find?_reverse_eq_some_iff.mpr
        ⟨isFor_iff.mpr ⟨rfl, rfl⟩, before, after, hitems, hafter⟩
    exact ⟨rule, by rw [get?_readsByUnit, hfind, Option.map_some]⟩

/-- Only what is missing is loaded. -/
theorem Loads.exists_mem {items : List MissingRecord} {unit materialization : String}
    (h : Loads items unit materialization) :
    ∃ m ∈ items, m.unit = unit ∧ m.materialization = materialization := by
  obtain ⟨before, rule, after, rfl, -⟩ := loads_iff.mp h
  exact ⟨_, List.mem_append_right _ List.mem_cons_self, rfl, rfl⟩

/-- Wherever something is missing, something is loaded. -/
theorem exists_loads_of_ne_nil {items : List MissingRecord} (h : items ≠ []) :
    ∃ m ∈ items, Loads items m.unit m.materialization := by
  -- nothing follows the last of all
  refine ⟨items.getLast h, List.getLast_mem h, loads_iff.mpr ?_⟩
  exact ⟨items.dropLast, (items.getLast h).rule, [], (List.dropLast_concat_getLast h).symm,
    List.forall_mem_nil _⟩

/-- A record is dropped for another one that the same unit misses for a rule of the same name. -/
theorem Dropped.exists_clash {items : List MissingRecord} {m : MissingRecord}
    (h : Dropped items m) :
    ∃ other ∈ items, other.unit = m.unit ∧ other.rule = m.rule ∧
      other.materialization ≠ m.materialization := by
  obtain ⟨hmem, hloads⟩ := h
  obtain ⟨other, hfind⟩ : ∃ other, items.reverse.find? (isFor m.unit m.rule) = some other :=
    Option.isSome_iff_exists.mp
      (List.find?_isSome.mpr ⟨m, List.mem_reverse.mpr hmem, isFor_iff.mpr ⟨rfl, rfl⟩⟩)
  obtain ⟨hunit, hrule⟩ := isFor_iff.mp (List.find?_some hfind)
  refine ⟨other, List.mem_reverse.mp (List.mem_of_find?_eq_some hfind), hunit, hrule, ?_⟩
  intro hsame
  refine hloads (loads_iff_get?.mpr ⟨m.rule, ?_⟩)
  rw [get?_readsByUnit, hfind, Option.map_some, hsame]

end MissingRecord

/-! ## What is at hand afterwards -/

theorem Reads.get?_blank (r : Reads) (name : String) :
    r.blank.get? name = if name ∈ r.materializations then some .empty else none := by
  rw [← Dict.get?_ofList_filterMap (fun _ => some UnitRecord.empty)]
  simp only [blank, Option.map_some, List.filterMap_eq_map']

theorem Materializations.get?_select (m : Materializations) (unit : String) (names : List String)
    (name : String) :
    (m.select unit names).get? name = if name ∈ names then m.get? unit name else none :=
  Dict.get?_ofList_filterMap (m.get? unit) names name

namespace MemoryStore

/-- What the store says about a unit, the empty record where it has none. -/
def recordOf (t : MemoryStore) (unit materialization : String) : UnitRecord :=
  (t.get? unit materialization).getD .empty

/-- Put what the store says about a unit in place of the records at hand. -/
def supplyUnit (t : MemoryStore) (m : Materializations) (entry : String × Reads) :
    Materializations :=
  m.extend entry.1 (entry.2.blank.union (t.records.select entry.1 entry.2.materializations))

/-- The records at hand once those that are missing have been loaded. -/
def supply (t : MemoryStore) (m : Materializations) (items : List MissingRecord) :
    Materializations :=
  (MissingRecord.readsByUnit items).toList.foldl t.supplyUnit m

theorem get?_supplyUnit (t : MemoryStore) (m : Materializations) (entry : String × Reads)
    (unit name : String) :
    (t.supplyUnit m entry).get? unit name =
      if unit = entry.1 ∧ name ∈ entry.2.materializations then some (t.recordOf unit name)
      else m.get? unit name := by
  unfold supplyUnit
  rw [Materializations.get?_extend, Dict.get?_union, Materializations.get?_select, Reads.get?_blank]
  by_cases hunit : unit = entry.1
  · subst hunit
    by_cases hname : name ∈ entry.2.materializations
    · simp only [hname, ↓reduceIte, and_self, recordOf, get?]
      cases t.records.get? entry.1 name <;> rfl
    · simp [hname]
  · simp [hunit]

/-- **Loading is exact**: the records that are loaded are at hand as the store has them, and all
others are as before. -/
theorem get?_supply (t : MemoryStore) (m : Materializations) (items : List MissingRecord)
    (unit name : String) :
    (t.supply m items).get? unit name =
      if MissingRecord.Loads items unit name then some (t.recordOf unit name)
      else m.get? unit name := by
  -- each unit is supplied once, with its own reads
  have hfold := (MissingRecord.readsByUnit items).observe_foldl (fun m => m.get? unit name)
    (fun reads found => if name ∈ reads.materializations then some (t.recordOf unit name) else found)
    (fun m reads => (t.get?_supplyUnit m (unit, reads) unit name).trans (by simp))
    (fun m e he => (t.get?_supplyUnit m e unit name).trans (if_neg fun h => he h.1.symm)) m
  unfold MissingRecord.Loads Dict.getD
  rw [supply, hfold]
  split
  · next hreads => simp [hreads]
  · next hnone =>
    have hempty : (∅ : Reads).materializations = [] := rfl
    simp [hnone, hempty]

/-- What is at hand stays at hand if none of it is missing. -/
theorem le_supply (t : MemoryStore) {m : Materializations} {items : List MissingRecord}
    (h : ∀ item ∈ items, m.get? item.unit item.materialization = none) :
    m ≤ t.supply m items := by
  intro unit name record hrecord
  rw [get?_supply, if_neg, hrecord]
  intro hloads
  obtain ⟨item, hitem, rfl, rfl⟩ := hloads.exists_mem
  rw [h item hitem] at hrecord
  cases hrecord

end MemoryStore

namespace RecordStore

theorem loadAll_memory (request : ResolveRequest) (entries : List (String × Reads))
    (t : MemoryStore) :
    MemoryStore.store.loadAll request entries t =
      (.ok (request.holding (entries.foldl t.supplyUnit request.materializations)),
        { t with loads := t.loads + entries.length }) := by
  induction entries generalizing request t with
  | nil => rfl
  | cons entry rest ih =>
    obtain ⟨unit, reads⟩ := entry
    show MemoryStore.store.loadAll _ rest { t with loads := t.loads + 1 } = _
    rw [ih, List.length_cons, Nat.add_comm rest.length, ← Nat.add_assoc]
    rfl

/-- Loading from memory succeeds, with one call for each unit. -/
theorem loadMissing_memory (request : ResolveRequest) (items : List MissingRecord)
    (t : MemoryStore) :
    MemoryStore.store.loadMissing request items t =
      (.ok (request.holding (t.supply request.materializations items)),
        { t with loads := t.loads + (MissingRecord.readsByUnit items).size }) :=
  loadAll_memory request _ t

end RecordStore

end FeatureFlags
