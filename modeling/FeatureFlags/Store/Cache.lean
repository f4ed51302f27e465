import FeatureFlags.Materialization

/-!
# A cache of records

A cache of bounded size holds records by unit and materialization. When it is full,
the record that was put in first makes room; looking at a record does not count as
using it.
-/

namespace FeatureFlags

/-- The place of a record: its unit and its materialization. -/
abbrev RecordKey := String × String

/-- A cache of records. -/
structure RecordCache where
  /-- The greatest number of records. -/
  capacity : Nat
  /-- The records, the one that was put in last in front. -/
  entries : List (RecordKey × UnitRecord)
  /-- How often records were dropped because they had changed elsewhere. -/
  generation : Nat
  deriving DecidableEq

namespace RecordCache

/-- A cache without records; it has room for one at least. -/
def empty (maxEntries : Nat) : RecordCache :=
  { capacity := max maxEntries 1, entries := [], generation := 0 }

/-- The keys of the records, the one that was put in last in front. -/
def keys (c : RecordCache) : List RecordKey := c.entries.map (·.1)

/-- How many records there are. -/
def size (c : RecordCache) : Nat := c.entries.length

/-- The record at a place, if there is one. -/
def get? (c : RecordCache) (key : RecordKey) : Option UnitRecord :=
  (c.entries.find? (·.1 = key)).map (·.2)

/-- Drop the record at a place. -/
def erase (c : RecordCache) (key : RecordKey) : RecordCache :=
  { c with entries := c.entries.filter (·.1 ≠ key) }

/-- Put a record into its place. A new record makes the oldest one leave a full cache. -/
def put (c : RecordCache) (key : RecordKey) (record : UnitRecord) : RecordCache :=
  { c with entries := ((key, record) :: (c.erase key).entries).take c.capacity }

/-- Drop the given records of a unit, which have changed elsewhere. -/
def invalidate (c : RecordCache) (unit : String) (names : List String) : RecordCache :=
  let kept := names.foldl (fun c name => c.erase (unit, name)) c
  { kept with generation := c.generation + 1 }

/-- Drop all records. -/
def clear (c : RecordCache) : RecordCache := { c with entries := [] }

end RecordCache

end FeatureFlags
