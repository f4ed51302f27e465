import FeatureFlags.Proofs.Sticky.Saving
import FeatureFlags.Store.Cached

/-!
# What a cache tells

A cache tells the truth about a place if it has the right record there or none at all
(`RecordCache.Tells`). Dropping records never makes it lie, and putting one does only if that one is
wrong. So it does not matter here which record makes room in a full cache.

A load has two steps. After the first one it has a record from the cache or is going to read it
(`PendingLoad.Foresees`); after the second one it answers what the cache had or what was read
(`CachedStore.getD_endLoad`), and what it puts into the cache is right if what was read is still
right by then (`CachedStore.Tells.endLoad`).
-/

namespace FeatureFlags

namespace RecordCache

variable {c : RecordCache} {key other : RecordKey} {record truth : UnitRecord}

/-- What is found after a put was put there, or it was there before. -/
theorem get?_put_cases {found : UnitRecord} (h : (c.put key record).get? other = some found) :
    other = key ∧ found = record ∨ c.get? other = some found := by
  obtain ⟨entry, hentry, rfl⟩ := Option.map_eq_some_iff.mp h
  -- what a full cache drops is behind what is found
  have hput : ((key, record) :: (c.erase key).entries).find? (·.1 = other) = some entry := by
    rw [← List.take_append_drop c.capacity ((key, record) :: (c.erase key).entries),
      List.find?_append]
    exact Option.or_eq_some_iff.mpr (.inl hentry)
  rw [List.find?_cons] at hput
  by_cases hkey : key = other
  · rw [decide_eq_true hkey] at hput
    cases hput
    exact .inl ⟨hkey.symm, rfl⟩
  · rw [decide_eq_false hkey] at hput
    dsimp only at hput
    have herase : (c.erase key).get? other = some entry.2 := by
      rw [get?, hput]
      rfl
    rw [get?_erase, if_neg fun h => hkey h.symm] at herase
    exact .inr herase

theorem get?_foldl_erase (unit : String) (names : List String) (c : RecordCache)
    (key : RecordKey) :
    (names.foldl (fun c name => c.erase (unit, name)) c).get? key =
      if key.1 = unit ∧ key.2 ∈ names then none else c.get? key := by
  obtain ⟨unit', name'⟩ := key
  induction names generalizing c with
  | nil => simp
  | cons name rest ih =>
    rw [List.foldl_cons, ih, get?_erase]
    by_cases hunit : unit' = unit
    · by_cases hname : name' = name <;> simp [hunit, hname]
    · simp [hunit]

theorem get?_invalidate (c : RecordCache) (unit : String) (names : List String)
    (key : RecordKey) :
    (c.invalidate unit names).get? key =
      if key.1 = unit ∧ key.2 ∈ names then none else c.get? key :=
  get?_foldl_erase unit names c key

@[simp] theorem generation_invalidate (c : RecordCache) (unit : String) (names : List String) :
    (c.invalidate unit names).generation = c.generation + 1 := rfl

@[simp] theorem generation_settle (c : RecordCache) (p : PendingLoad) (walk : Dict.Walk String)
    (loaded : UnitRecords) : (c.settle p walk loaded).generation = c.generation := by
  have hput (entries : List (String × UnitRecord)) : (entries.foldl
      (fun c entry => c.put (p.unit, entry.1) entry.2) c).generation = c.generation := by
    induction entries generalizing c with
    | nil => rfl
    | cons entry rest ih => exact ih (c.put (p.unit, entry.1) entry.2)
  unfold settle
  split
  · exact hput _
  · rfl

end RecordCache

namespace Reads

/-- Whatever the order, the same materializations are read. -/
theorem perm_materializations_of_walk (walk : Dict.Walk String) (r : Reads) :
    ((walk.entries r).map (·.2)).Perm r.materializations := (walk.perm r).map _

theorem mem_materializations_of_walk {walk : Dict.Walk String} {r : Reads} {read : String × String}
    (h : read ∈ walk.entries r) : read.2 ∈ r.materializations :=
  (perm_materializations_of_walk walk r).mem_iff.mp (List.mem_map_of_mem h)

end Reads

/-! ## Telling the truth -/

namespace RecordCache

variable {c : RecordCache} {key other : RecordKey} {record truth : UnitRecord}

/-- The cache has this record there, or none. -/
def Tells (c : RecordCache) (key : RecordKey) (truth : UnitRecord) : Prop :=
  ∀ found, c.get? key = some found → found = truth

theorem tells_empty (maxEntries : Nat) : (empty maxEntries).Tells key truth := by
  intro found h
  cases h

theorem tells_clear (c : RecordCache) : c.clear.Tells key truth := by
  intro found h
  cases h

theorem Tells.put (h : c.Tells other truth) (hput : key = other → record = truth) :
    (c.put key record).Tells other truth := by
  intro found hfound
  rcases get?_put_cases hfound with ⟨rfl, rfl⟩ | hbefore
  · exact hput rfl
  · exact h found hbefore

theorem Tells.foldl_put {unit : String} {entries : List (String × UnitRecord)}
    (h : c.Tells key truth)
    (hentries : ∀ entry ∈ entries, (unit, entry.1) = key → entry.2 = truth) :
    (entries.foldl (fun c entry => c.put (unit, entry.1) entry.2) c).Tells key truth := by
  induction entries generalizing c with
  | nil => exact h
  | cons entry rest ih =>
    obtain ⟨hentry, hrest⟩ := List.forall_mem_cons.mp hentries
    exact ih (h.put hentry) hrest

/-- What a load puts into the cache has to be right, but only if it is put there at all. -/
theorem Tells.settle {p : PendingLoad} {walk : Dict.Walk String} {loaded : UnitRecords}
    (h : c.Tells key truth)
    (hloaded : c.generation = p.generation → p.unit = key.1 →
      key.2 ∈ p.missed.materializations → loaded.getD key.2 .empty = truth) :
    (c.settle p walk loaded).Tells key truth := by
  unfold RecordCache.settle
  by_cases hcurrent : c.generation = p.generation
  · rw [if_pos hcurrent]
    refine h.foldl_put ?_
    intro entry hentry hkey
    obtain ⟨read, hread, rfl⟩ := List.mem_map.mp hentry
    have hmissed := Reads.mem_materializations_of_walk hread
    subst hkey
    exact hloaded hcurrent rfl hmissed
  · rw [if_neg hcurrent]
    exact h

theorem Tells.invalidate {unit : String} {names : List String}
    (h : ¬ (key.1 = unit ∧ key.2 ∈ names) → c.Tells key truth) :
    (c.invalidate unit names).Tells key truth := by
  intro found hfound
  rw [get?_invalidate] at hfound
  by_cases hnamed : key.1 = unit ∧ key.2 ∈ names
  · rw [if_pos hnamed] at hfound
    cases hfound
  · rw [if_neg hnamed] at hfound
    exact h hnamed found hfound

/-! ## Looking up -/

theorem get?_found_lookUp (c : RecordCache) (unit : String) (reads : Reads) (name : String) :
    (c.lookUp unit reads).found.get? name =
      if name ∈ reads.materializations then c.get? (unit, name) else none :=
  Dict.get?_ofList_filterMap (fun name => c.get? (unit, name)) reads.materializations name

theorem mem_missed_lookUp {unit : String} {reads : Reads} {name : String} :
    name ∈ (c.lookUp unit reads).missed.materializations ↔
      name ∈ reads.materializations ∧ c.get? (unit, name) = none := by
  have hmissed : (c.lookUp unit reads).missed.toList =
      reads.toList.filter fun read => (c.get? (unit, read.2)).isNone :=
    Entries.Ascending.ofList_eq (List.Pairwise.filter _ reads.ascending)
  unfold Reads.materializations
  rw [hmissed]
  simp only [List.mem_map, List.mem_filter, Option.isNone_iff_eq_none]
  constructor
  · rintro ⟨read, ⟨hread, hnone⟩, rfl⟩
    exact ⟨⟨read, hread, rfl⟩, hnone⟩
  · rintro ⟨⟨read, hread, rfl⟩, hnone⟩
    exact ⟨read, ⟨hread, hnone⟩, rfl⟩

end RecordCache

namespace PendingLoad

/-- A load answers what it has read, and for the rest what the cache had, whatever the order. -/
theorem get?_answer (p : PendingLoad) (walk : Dict.Walk String) (loaded : UnitRecords)
    (name : String) :
    (p.answer walk loaded).get? name =
      if name ∈ p.missed.materializations then some (loaded.getD name .empty)
      else p.found.get? name := by
  have hall : name ∈ p.missed.materializations ↔ name ∈ (walk.entries p.missed).map (·.2) :=
    (Reads.perm_materializations_of_walk walk p.missed).mem_iff.symm
  rw [answer, fetched, if_congr hall rfl rfl]
  clear hall
  -- from here on it is about the reads in their order, whatever is answered before them
  generalize walk.entries p.missed = reads
  generalize p.found = records
  induction reads generalizing records with
  | nil => rfl
  | cons read rest ih =>
    rw [List.map_cons, List.foldl_cons, ih, Dict.get?_insert, List.map_cons]
    by_cases hname : name = read.2
    · simp [hname]
    · simp only [hname, if_false, List.mem_cons, false_or]

/-- The load will tell the truth about a record that is to be read, if it reads it right: it has
the record from the cache, or it is going to read it. Without a cache it has to. -/
structure Foresees (p : PendingLoad) (key : RecordKey) (truth : UnitRecord) (isCached : Bool) :
    Prop where
  unit : p.unit = key.1
  name : key.2 ∈ p.missed.materializations ∨
    isCached = true ∧ key.2 ∉ p.missed.materializations ∧ p.found.get? key.2 = some truth

end PendingLoad

/-! ## The two steps of a load -/

namespace CachedStore

variable {τ : Type} {s : CachedStore τ} {unit name : String} {reads : Reads} {p : PendingLoad}
  {loaded records : UnitRecords} {key : RecordKey} {truth : UnitRecord}

/-- The cache, if there is one, has this record there, or none. -/
def Tells (s : CachedStore τ) (key : RecordKey) (truth : UnitRecord) : Prop :=
  ∀ c, s.cache = some c → c.Tells key truth

theorem tells_ofBackend (config : CacheConfig) (backend : τ) (walks : Nat → Dict.Walk String) :
    (ofBackend config backend walks).Tells key truth := by
  intro c hc
  by_cases henabled : config.enabled
  · rw [ofBackend, if_pos henabled] at hc
    cases hc
    exact RecordCache.tells_empty config.maxEntries
  · rw [ofBackend, if_neg henabled] at hc
    cases hc

theorem tells_clear (s : CachedStore τ) : s.clear.Tells key truth := by
  intro c hc
  obtain ⟨cache, -, rfl⟩ := Option.map_eq_some_iff.mp hc
  exact cache.tells_clear

/-- How a load begins: without a cache everything is to be read, and otherwise what the cache does
not have. -/
inductive Begins (s : CachedStore τ) (unit : String) (reads : Reads) : LoadStart → Prop where
  | uncached (hcache : s.cache = none) :
    Begins s unit reads (.pending { unit, found := ∅, missed := reads, generation := 0 })
  | found {c : RecordCache} (hcache : s.cache = some c)
    (hall : ∀ name ∈ reads.materializations, c.get? (unit, name) ≠ none) :
    Begins s unit reads (.done (c.lookUp unit reads).found)
  | missed {c : RecordCache} (hcache : s.cache = some c) :
    Begins s unit reads (.pending (c.lookUp unit reads))

theorem begins_beginLoad (s : CachedStore τ) (unit : String) (reads : Reads) :
    s.Begins unit reads (s.beginLoad unit reads) := by
  rw [beginLoad]
  cases hcache : s.cache with
  | none => exact .uncached hcache
  | some c =>
    dsimp only
    by_cases hempty : (c.lookUp unit reads).missed.isEmpty
    · rw [if_pos hempty]
      refine .found hcache ?_
      intro name hname hnone
      have hmem := RecordCache.mem_missed_lookUp.mpr ⟨hname, hnone⟩
      have hnil : (c.lookUp unit reads).missed.toList = [] := List.isEmpty_iff.mp hempty
      rw [Reads.materializations, hnil] at hmem
      cases hmem
    · rw [if_neg hempty]
      exact .missed hcache

theorem Begins.unit_eq (h : s.Begins unit reads (.pending p)) : p.unit = unit := by
  cases h <;> rfl

theorem Begins.generation_eq {c : RecordCache} (h : s.Begins unit reads (.pending p))
    (hc : s.cache = some c) : p.generation = c.generation := by
  cases h with
  | uncached hcache =>
    rw [hcache] at hc
    cases hc
  | missed hcache =>
    rw [hcache] at hc
    cases hc
    rfl

/-- Only what is to be read is missed. -/
theorem Begins.mem_of_missed (h : s.Begins unit reads (.pending p))
    (hname : name ∈ p.missed.materializations) : name ∈ reads.materializations := by
  cases h with
  | uncached => exact hname
  | missed => exact (RecordCache.mem_missed_lookUp.mp hname).1

/-- A load that finds everything tells the truth if the cache does. -/
theorem get?_of_done (h : s.beginLoad unit reads = .done records)
    (hname : name ∈ reads.materializations) (htells : s.Tells (unit, name) truth) :
    records.get? name = some truth := by
  have hbegins := s.begins_beginLoad unit reads
  rw [h] at hbegins
  cases hbegins with
  | @found c hcache hall =>
    rw [RecordCache.get?_found_lookUp, if_pos hname]
    obtain ⟨record, hrecord⟩ := Option.ne_none_iff_exists'.mp (hall name hname)
    rw [hrecord, htells c hcache record hrecord]

/-- A load that has to read foresees every record, if the cache tells the truth. -/
theorem foresees_of_pending (h : s.beginLoad unit reads = .pending p)
    (hname : name ∈ reads.materializations) (htells : s.Tells (unit, name) truth) :
    p.Foresees (unit, name) truth s.cache.isSome := by
  have hbegins := s.begins_beginLoad unit reads
  rw [h] at hbegins
  cases hbegins with
  | uncached hcache => exact ⟨rfl, .inl hname⟩
  | @missed c hcache =>
    refine ⟨rfl, ?_⟩
    cases hfound : c.get? (unit, name) with
    | none => exact .inl (RecordCache.mem_missed_lookUp.mpr ⟨hname, hfound⟩)
    | some record =>
      refine .inr ⟨by rw [hcache]; rfl, ?_, ?_⟩
      · intro hmissed
        rw [(RecordCache.mem_missed_lookUp.mp hmissed).2] at hfound
        cases hfound
      · rw [RecordCache.get?_found_lookUp, if_pos hname, hfound, htells c hcache record hfound]

/-- The answer of a load is the truth about each record that it foresaw and read right. -/
theorem getD_endLoad (h : p.Foresees key truth s.cache.isSome)
    (hloaded : key.2 ∈ p.missed.materializations → loaded.getD key.2 .empty = truth) :
    (endLoad p loaded s).1.getD key.2 .empty = truth := by
  rw [endLoad]
  cases hcache : s.cache with
  | none =>
    rcases h.name with hmissed | ⟨hcached, -⟩
    · exact hloaded hmissed
    · rw [hcache] at hcached
      cases hcached
  | some c =>
    show ((p.answer (s.walks 0) loaded).get? key.2).getD .empty = truth
    rw [p.get?_answer]
    rcases h.name with hmissed | ⟨-, hmissed, hfound⟩
    · rw [if_pos hmissed]
      exact hloaded hmissed
    · rw [if_neg hmissed, hfound]
      rfl

/-- A load leaves the cache truthful where what it has read is the truth. -/
theorem Tells.endLoad (h : s.Tells key truth)
    (hloaded : ∀ c, s.cache = some c → c.generation = p.generation → p.unit = key.1 →
      key.2 ∈ p.missed.materializations → loaded.getD key.2 .empty = truth) :
    (CachedStore.endLoad p loaded s).2.Tells key truth := by
  rw [CachedStore.endLoad]
  cases hcache : s.cache with
  | none => exact h
  | some c =>
    intro c' hc'
    cases hc'
    exact (h c hcache).settle (hloaded c hcache)

@[simp] theorem backend_endLoad (p : PendingLoad) (loaded : UnitRecords) (s : CachedStore τ) :
    (endLoad p loaded s).2.backend = s.backend := by
  rw [endLoad]
  cases s.cache <;> rfl

/-- A load leaves the generation of the cache as it is. -/
theorem exists_cache_of_endLoad {c' : RecordCache} (h : (endLoad p loaded s).2.cache = some c') :
    ∃ c, s.cache = some c ∧ c.generation = c'.generation := by
  rw [endLoad] at h
  cases hcache : s.cache with
  | none =>
    rw [hcache] at h
    dsimp only at h
    rw [hcache] at h
    cases h
  | some c =>
    rw [hcache] at h
    cases h
    exact ⟨c, rfl, (c.generation_settle p (s.walks 0) loaded).symm⟩

/-- A load answers nothing that was not to be read, if nothing else is read. -/
theorem get?_endLoad_of_not_mem (h : s.beginLoad unit reads = .pending p)
    (hname : name ∉ reads.materializations) (hloaded : loaded.get? name = none) :
    (endLoad p loaded s).1.get? name = none := by
  have hbegins := s.begins_beginLoad unit reads
  rw [h] at hbegins
  rw [endLoad]
  cases hbegins with
  | uncached hcache =>
    rw [hcache]
    exact hloaded
  | @missed c hcache =>
    rw [hcache]
    show ((c.lookUp unit reads).answer (s.walks 0) loaded).get? name = none
    have hmissed : name ∉ (c.lookUp unit reads).missed.materializations := fun hmissed =>
      hname (RecordCache.mem_missed_lookUp.mp hmissed).1
    rw [PendingLoad.get?_answer, if_neg hmissed, RecordCache.get?_found_lookUp, if_neg hname]

end CachedStore

/-! ## The records of a store in memory -/

namespace MemoryStore

variable {t : MemoryStore} {unit name : String}

/-- What is loaded is what the store says. -/
theorem getD_load (t : MemoryStore) (unit : String) {reads : Reads}
    (hname : name ∈ reads.materializations) :
    (load unit reads t).1.getD name .empty = t.recordOf unit name := by
  show ((t.records.select unit reads.materializations).get? name).getD .empty = _
  rw [Materializations.get?_select, if_pos hname]
  rfl

theorem get?_load_of_not_mem (t : MemoryStore) (unit : String) {reads : Reads}
    (hname : name ∉ reads.materializations) : (load unit reads t).1.get? name = none := by
  show (t.records.select unit reads.materializations).get? name = none
  rw [Materializations.get?_select, if_neg hname]

/-- A save does not touch the records that it does not name. -/
theorem recordOf_save_of_not_named {records : UnitRecords} {key : RecordKey}
    (h : ¬ (key.1 = unit ∧ key.2 ∈ records.keys)) :
    (save unit records t).recordOf key.1 key.2 = t.recordOf key.1 key.2 := by
  rw [recordOf_save]
  by_cases hunit : key.1 = unit
  · have hnone : records.get? key.2 = none := by
      rw [← Option.not_isSome_iff_eq_none, ← records.mem_keys_iff]
      exact fun hname => h ⟨hunit, hname⟩
    rw [if_pos hunit, Dict.getD, hnone]
    exact UnitRecord.merge_empty _
  · rw [if_neg hunit]

end MemoryStore

end FeatureFlags
