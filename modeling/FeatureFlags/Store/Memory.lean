import FeatureFlags.Store.Basic

/-!
# The store in memory

It never fails, loads what it has and counts its calls.
-/

namespace FeatureFlags

namespace Materializations

/-- How many records there are. -/
def size (m : Materializations) : Nat := m.units.toList.foldl (fun n u => n + u.2.size) 0

/-- Merge a new record into the one at hand, if there is one. -/
def mergeRecord (unit : String) (m : Materializations) (entry : String × UnitRecord) :
    Materializations :=
  m.insert unit entry.1 (((m.get? unit entry.1).getD .empty).merge entry.2)

/-- Merge new records of a unit into those at hand. -/
def merge (m : Materializations) (unit : String) (records : UnitRecords) : Materializations :=
  records.toList.foldl (mergeRecord unit) m

/-- Those of the given records of a unit that are at hand. -/
def select (m : Materializations) (unit : String) (names : List String) : UnitRecords :=
  .ofList (names.filterMap fun name => (m.get? unit name).map (name, ·))

end Materializations

/-- The state of a store in memory. -/
structure MemoryStore where
  records : Materializations
  /-- How often records were loaded. -/
  loads : Nat
  /-- How often records were saved. -/
  saves : Nat
  deriving DecidableEq

namespace MemoryStore

/-- A store without records. -/
def empty : MemoryStore := { records := .empty, loads := 0, saves := 0 }

instance : Inhabited MemoryStore := ⟨empty⟩

/-- Put a record in place of the one that the store has. -/
def insert (s : MemoryStore) (unit materialization : String) (record : UnitRecord) : MemoryStore :=
  { s with records := s.records.insert unit materialization record }

/-- Put records, each with its unit and its materialization, in place of those that the store
has. -/
def insertAll (s : MemoryStore) (records : List (String × String × UnitRecord)) : MemoryStore :=
  records.foldl (fun s r => s.insert r.1 r.2.1 r.2.2) s

/-- The record of a unit in a materialization. -/
def get? (s : MemoryStore) (unit materialization : String) : Option UnitRecord :=
  s.records.get? unit materialization

/-- How many records there are. -/
def size (s : MemoryStore) : Nat := s.records.size

/-- Whether there are no records. -/
def isEmpty (s : MemoryStore) : Bool := s.size = 0

/-- Load the records of a unit that are to be read. -/
def load (unit : String) (reads : Reads) (s : MemoryStore) : UnitRecords × MemoryStore :=
  (s.records.select unit reads.materializations, { s with loads := s.loads + 1 })

/-- Merge new records of a unit into those that the store has. -/
def save (unit : String) (records : UnitRecords) (s : MemoryStore) : MemoryStore :=
  { s with records := s.records.merge unit records, saves := s.saves + 1 }

/-- The calls of the store in memory. -/
def store : RecordStore MemoryStore :=
  { load := fun unit reads s => ((.ok (load unit reads s).1), (load unit reads s).2)
    save := fun unit records s => (.ok (), save unit records s) }

end MemoryStore

end FeatureFlags
