import FeatureFlags.Json.Record
import FeatureFlags.OrderedSet

/-!
# Materializations

A materialization remembers decisions: for a unit, which variant each rule gave
it. Rules that read one keep giving a unit the variant it has.

- `UnitRecord`: what one materialization remembers about one unit. Records merge;
  the empty one changes nothing.
- `Materializations`: the records a resolve has at hand. A record that is absent
  has not been looked up, which is not the same as an empty one.
- `MissingRecord`, `StickyUpdate`: a record that a resolve lacks, and a decision
  that is to be remembered.
-/

namespace FeatureFlags

/-- What a materialization remembers about a unit. -/
structure UnitRecord where
  /-- Whether the unit has been recorded at all. -/
  enrolled : Bool
  /-- The variants by the names of the rules that gave them. -/
  variants : Dict String
  deriving DecidableEq

namespace UnitRecord

/-- Nothing is known about the unit. -/
def empty : UnitRecord := { enrolled := false, variants := .empty }

instance : Inhabited UnitRecord := ⟨empty⟩

/-- The unit got a variant from a rule. -/
def assigned (rule variant : String) : UnitRecord :=
  { enrolled := true, variants := Dict.empty.insert rule variant }

/-- Both records together; where both know a rule, the later one counts. -/
def merge (earlier later : UnitRecord) : UnitRecord :=
  { enrolled := earlier.enrolled || later.enrolled
    variants := earlier.variants.union later.variants }

/-- The variant that a rule gave to the unit. -/
def variantFor? (r : UnitRecord) (rule : String) : Option String := r.variants.get? rule

def toJson (r : UnitRecord) : Json :=
  .object [("is_unit_in_materialization", .bool r.enrolled),
    ("rule_to_variant", Json.ofDict .string r.variants)]

def ofJson? (j : Json) : Option UnitRecord := do
  let r ← Record.ofJson? ["is_unit_in_materialization", "rule_to_variant"] j
  let enrolled ← r.defaulted "is_unit_in_materialization" false Json.asBool?
  let variants ← r.defaulted "rule_to_variant" .empty (Json.asDict? Json.asString?)
  return { enrolled, variants }

end UnitRecord

/-- Records by the names of their materializations. -/
abbrev UnitRecords := Dict UnitRecord

/-- The records at hand, by unit and materialization. -/
structure Materializations where
  /-- The records of each unit. -/
  units : Dict UnitRecords
  deriving DecidableEq

namespace Materializations

/-- No records at hand. -/
def empty : Materializations := ⟨.empty⟩

instance : Inhabited Materializations := ⟨empty⟩

/-- The record of a unit in a materialization, if it is at hand. -/
def get? (m : Materializations) (unit materialization : String) : Option UnitRecord :=
  (m.units.get? unit).bind (·.get? materialization)

/-- Put all the given records of a unit in place of those at hand. -/
def extend (m : Materializations) (unit : String) (records : UnitRecords) : Materializations :=
  ⟨m.units.insert unit ((m.units.getD unit .empty).union records)⟩

/-- Put a record in place of the one at hand. -/
def insert (m : Materializations) (unit materialization : String) (record : UnitRecord) :
    Materializations :=
  ⟨m.units.insert unit ((m.units.getD unit .empty).insert materialization record)⟩

def toJson (m : Materializations) : Json := Json.ofDict (Json.ofDict UnitRecord.toJson) m.units

def ofJson? (j : Json) : Option Materializations :=
  (j.asDict? (Json.asDict? UnitRecord.ofJson?)).map Materializations.mk

end Materializations

/-- A record that a rule has to read and that is not at hand. -/
structure MissingRecord where
  unit : String
  /-- The rule that reads it. -/
  rule : String
  materialization : String
  deriving DecidableEq, Repr

namespace MissingRecord

/-- By unit, then by rule, then by materialization. -/
def compare (a b : MissingRecord) : Ordering :=
  (Ord.compare a.unit b.unit).then <|
    (Ord.compare a.rule b.rule).then (Ord.compare a.materialization b.materialization)

/-- Each of the missing records once, in order. -/
def distinct (items : List MissingRecord) : List MissingRecord := OrderedSet.ofList compare items

def toJson (m : MissingRecord) : Json :=
  .object [("unit", .string m.unit), ("rule", .string m.rule),
    ("read_materialization", .string m.materialization)]

def ofJson? (j : Json) : Option MissingRecord := do
  let r ← Record.ofJson? ["unit", "rule", "read_materialization"] j
  let unit ← r.required "unit" Json.asString?
  let rule ← r.required "rule" Json.asString?
  let materialization ← r.required "read_materialization" Json.asString?
  return { unit, rule, materialization }

end MissingRecord

/-- A decision that is to be remembered. -/
structure StickyUpdate where
  unit : String
  /-- The rule that decided. -/
  rule : String
  /-- The materialization that is to remember it. -/
  materialization : String
  /-- The variant the unit got. -/
  variant : String
  deriving DecidableEq, Repr

namespace StickyUpdate

/-- The record of the decision. -/
def record (u : StickyUpdate) : UnitRecord := .assigned u.rule u.variant

/-- Merge a decision into the records of its unit. -/
def addTo (grouped : Dict UnitRecords) (u : StickyUpdate) : Dict UnitRecords :=
  let records := grouped.getD u.unit .empty
  let merged := (records.getD u.materialization .empty).merge u.record
  grouped.insert u.unit (records.insert u.materialization merged)

/-- The records of all decisions by unit, decisions merged in the order in which they were made. -/
def grouped (updates : List StickyUpdate) : Dict UnitRecords := updates.foldl addTo .empty

def toJson (u : StickyUpdate) : Json :=
  .object [("unit", .string u.unit), ("rule", .string u.rule),
    ("write_materialization", .string u.materialization), ("variant", .string u.variant)]

def ofJson? (j : Json) : Option StickyUpdate := do
  let r ← Record.ofJson? ["unit", "rule", "write_materialization", "variant"] j
  let unit ← r.required "unit" Json.asString?
  let rule ← r.required "rule" Json.asString?
  let materialization ← r.required "write_materialization" Json.asString?
  let variant ← r.required "variant" Json.asString?
  return { unit, rule, materialization, variant }

end StickyUpdate

end FeatureFlags
