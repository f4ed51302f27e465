import FeatureFlags.Materialization

/-!
# Stores of records

A store keeps the records of units beyond a resolve. Here is what a store is from
outside: two calls, each of which may fail and may change the state of the store. A
record that a store does not have may be left out of what it loads.
-/

namespace FeatureFlags

/-- Why a call of a store fails. -/
inductive StoreError where
  /-- What the store is built on fails. -/
  | backend (reason : String)
  deriving DecidableEq, Repr

namespace StoreError

/-- The text of the error. -/
def message : StoreError → String
  | backend reason => "Materialization store error: " ++ reason

end StoreError

/-- The materializations that rules have to read for a unit, by the names of the rules. -/
abbrev Reads := Dict String

namespace Reads

/-- The materializations to read; one that two rules read is named twice. -/
def materializations (r : Reads) : List String := r.toList.map (·.2)

end Reads

/-- The calls of a store whose states are of type `τ`. -/
structure RecordStore (τ : Type) where
  /-- Load the records of a unit that are to be read. -/
  load : (unit : String) → Reads → τ → Except StoreError UnitRecords × τ
  /-- Merge new records of a unit into those that the store has. -/
  save : (unit : String) → UnitRecords → τ → Except StoreError Unit × τ

namespace RecordStore

/-- A store that is a part of something larger. -/
def within {σ τ : Type} (part : σ → τ) (replace : τ → σ → σ) (store : RecordStore τ) :
    RecordStore σ :=
  { load := fun unit reads s =>
      let (answer, t) := store.load unit reads (part s)
      (answer, replace t s)
    save := fun unit records s =>
      let (answer, t) := store.save unit records (part s)
      (answer, replace t s) }

end RecordStore

end FeatureFlags
