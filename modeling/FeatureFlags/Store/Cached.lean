import FeatureFlags.Store.Basic
import FeatureFlags.Store.Cache

/-!
# Cached stores

A cached store answers loads from a cache and asks the store behind it only for
records that the cache does not have. A record that the store behind does not have is
cached as the empty one. Records are saved in the store behind first and then dropped
from the cache, so that the next load sees what was merged.

A load has two steps with the read of the store behind between them: it looks into
the cache, and it puts what was read into the cache. If records were saved in the
meantime, what was read may be out of date, and the second step leaves the cache
alone; the generation of the cache tells.

The second step puts the records into the cache one by one, in no particular order.
Which records leave a full cache depends on it, so the orders of the loads to come
are a part of the state (`CachedStore.walks`), and what is proved is proved for all.
-/

namespace FeatureFlags

/-- How records are cached. -/
structure CacheConfig where
  /-- The greatest number of records. -/
  maxEntries : Nat
  /-- Whether records are cached at all. -/
  enabled : Bool
  deriving DecidableEq, Repr

namespace CacheConfig

/-- Ten thousand records. -/
def default : CacheConfig := { maxEntries := 10000, enabled := true }

end CacheConfig

/-- A load that has to read the store behind the cache. -/
structure PendingLoad where
  unit : String
  /-- The records that the cache had. -/
  found : UnitRecords
  /-- What remains to be read. -/
  missed : Reads
  /-- The generation of the cache when it was looked into. -/
  generation : Nat

namespace PendingLoad

/-- The records that were to be read and that the cache did not have, in the order of the walk; one
that the store behind does not have is empty. -/
def fetched (p : PendingLoad) (walk : Dict.Walk String) (loaded : UnitRecords) :
    List (String × UnitRecord) :=
  (walk.entries p.missed).map fun read => (read.2, loaded.getD read.2 .empty)

/-- All that was to be loaded. -/
def answer (p : PendingLoad) (walk : Dict.Walk String) (loaded : UnitRecords) : UnitRecords :=
  (p.fetched walk loaded).foldl (fun records entry => records.insert entry.1 entry.2) p.found

end PendingLoad

/-- What a load knows after its first step. -/
inductive LoadStart where
  /-- The cache had all records. -/
  | done (records : UnitRecords)
  /-- The store behind is to be read. -/
  | pending (load : PendingLoad)

namespace RecordCache

/-- Look into the cache for records that are to be read. -/
def lookUp (c : RecordCache) (unit : String) (reads : Reads) : PendingLoad :=
  let known (name : String) : Option UnitRecord := c.get? (unit, name)
  { unit
    found := .ofList (reads.materializations.filterMap fun name => (known name).map (name, ·))
    missed := .ofList (reads.toList.filter fun read => (known read.2).isNone)
    generation := c.generation }

/-- Put records into the cache that were read, in the order of the walk, unless records were saved
since the cache was looked into. -/
def settle (c : RecordCache) (p : PendingLoad) (walk : Dict.Walk String) (loaded : UnitRecords) :
    RecordCache :=
  if c.generation = p.generation then
    (p.fetched walk loaded).foldl (fun c entry => c.put (p.unit, entry.1) entry.2) c
  else c

end RecordCache

/-- The state of a cached store over a store with states of type `τ`. -/
structure CachedStore (τ : Type) where
  /-- The store behind the cache. -/
  backend : τ
  /-- The cache, if records are cached. -/
  cache : Option RecordCache
  /-- The orders in which the loads to come put what they have read into the cache. -/
  walks : Nat → Dict.Walk String := fun _ => .ascending

namespace CachedStore

variable {τ : Type}

/-- A cached store with nothing in its cache. -/
def ofBackend (config : CacheConfig) (backend : τ)
    (walks : Nat → Dict.Walk String := fun _ => .ascending) : CachedStore τ :=
  { backend, cache := if config.enabled then some (.empty config.maxEntries) else none, walks }

/-- Drop all records from the cache. -/
def clear (s : CachedStore τ) : CachedStore τ := { s with cache := s.cache.map (·.clear) }

/-- Begin to load: look into the cache, if there is one. -/
def beginLoad (unit : String) (reads : Reads) (s : CachedStore τ) : LoadStart :=
  match s.cache with
  | none => .pending { unit, found := ∅, missed := reads, generation := 0 }
  | some cache =>
    let pending := cache.lookUp unit reads
    if pending.missed.isEmpty then .done pending.found else .pending pending

/-- End a load with what was read: put it into the cache, if there is one, and answer. Without a
cache the answer is what was read. -/
def endLoad (pending : PendingLoad) (loaded : UnitRecords) (s : CachedStore τ) :
    UnitRecords × CachedStore τ :=
  match s.cache with
  | none => (loaded, s)
  | some cache =>
    (pending.answer (s.walks 0) loaded,
      { s with
        cache := some (cache.settle pending (s.walks 0) loaded)
        walks := fun n => s.walks (n + 1) })

variable (backend : RecordStore τ)

/-- Load the records of a unit that are to be read. -/
def load (unit : String) (reads : Reads) (s : CachedStore τ) :
    Except StoreError UnitRecords × CachedStore τ :=
  match s.beginLoad unit reads with
  | .done records => (.ok records, s)
  | .pending pending =>
    match backend.load unit pending.missed s.backend with
    | (.error cause, behind) => (.error cause, { s with backend := behind })
    | (.ok loaded, behind) =>
      let (answer, s) := endLoad pending loaded { s with backend := behind }
      (.ok answer, s)

/-- Merge new records of a unit into those of the store behind. Whether or not it succeeds, the
cache may now be out of date for them. -/
def save (unit : String) (records : UnitRecords) (s : CachedStore τ) :
    Except StoreError Unit × CachedStore τ :=
  let (answer, behind) := backend.save unit records s.backend
  (answer, { s with backend := behind, cache := s.cache.map (·.invalidate unit records.keys) })

/-- The calls of the cached store. -/
def store : RecordStore (CachedStore τ) := { load := load backend, save := save backend }

end CachedStore

end FeatureFlags
