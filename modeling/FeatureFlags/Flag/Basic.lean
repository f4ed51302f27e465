import FeatureFlags.Context
import FeatureFlags.Flag.Allocation
import FeatureFlags.Schema

/-!
# Flags

A flag has named variants, each with a value, and rules that decide in order which
variant a unit gets. A rule applies to the units of a segment and divides them by
bucket. Materializations make its decisions stick: a rule can read earlier
decisions from one and write its own into one.
-/

namespace FeatureFlags

/-- Whether a flag takes part in resolving. -/
inductive FlagState where
  /-- Resolved by its rules. -/
  | active
  /-- No longer resolved. -/
  | archived
  deriving DecidableEq, Repr

namespace FlagState

def name : FlagState → String
  | active => "ACTIVE"
  | archived => "ARCHIVED"

def ofName? : String → Option FlagState
  | "ACTIVE" => some active
  | "ARCHIVED" => some archived
  | _ => none

def ofJson? (j : Json) : Option FlagState := j.unitVariant?.bind ofName?

end FlagState

/-- A named value of a flag. -/
structure Variant where
  name : String
  /-- The value, an object of the flag's schema. -/
  value : List (String × Json)
  deriving Repr

namespace Variant

def toJson (v : Variant) : Json := .object [("name", .string v.name), ("value", .object v.value)]

def ofJson? (j : Json) : Option Variant := do
  let r ← Record.ofJson? ["name", "value"] j
  let name ← r.required "name" Json.asString?
  let value ← r.defaulted "value" [] Json.asFields?
  return { name, value }

end Variant

/-- How a rule reads earlier decisions. -/
structure ReadMode where
  /-- Units without an earlier decision are not for this rule. -/
  mustMatch : Bool
  /-- An earlier decision counts even if the unit has left the segment. -/
  ignoresTargeting : Bool
  deriving DecidableEq, Repr

namespace ReadMode

/-- Units without an earlier decision are decided anew, and the segment always counts. -/
def default : ReadMode := { mustMatch := false, ignoresTargeting := false }

def toJson (m : ReadMode) : Json :=
  .object [("materialization_must_match", .bool m.mustMatch),
    ("segment_targeting_can_be_ignored", .bool m.ignoresTargeting)]

def ofJson? (j : Json) : Option ReadMode := do
  let r ← Record.ofJson? ["materialization_must_match", "segment_targeting_can_be_ignored"] j
  let mustMatch ← r.defaulted "materialization_must_match" false Json.asBool?
  let ignoresTargeting ← r.defaulted "segment_targeting_can_be_ignored" false Json.asBool?
  return { mustMatch, ignoresTargeting }

end ReadMode

/-- The materializations of a rule. -/
structure Stickiness where
  /-- Where earlier decisions are read. -/
  read : Option String
  /-- Where new decisions are recorded. -/
  write : Option String
  /-- How earlier decisions are read. -/
  mode : ReadMode
  deriving DecidableEq, Repr

namespace Stickiness

def toJson (s : Stickiness) : Json :=
  .object (Json.optionalField "read_materialization" .string s.read ++
    Json.optionalField "write_materialization" .string s.write ++ [("mode", s.mode.toJson)])

def ofJson? (j : Json) : Option Stickiness := do
  let r ← Record.ofJson? ["read_materialization", "write_materialization", "mode"] j
  let read ← r.optionalDefaulted "read_materialization" Json.asString?
  let write ← r.optionalDefaulted "write_materialization" Json.asString?
  let mode ← r.defaulted "mode" .default ReadMode.ofJson?
  return { read, write, mode }

end Stickiness

/-- A step in deciding which variant a unit gets. -/
structure FlagRule where
  /-- The name of the rule. -/
  name : String
  /-- Rules that are not enabled are skipped. -/
  enabled : Bool := true
  /-- The segment whose units the rule decides. -/
  segment : String
  /-- The attribute that names the unit, if not the usual one. -/
  selector : Option String := none
  /-- The division of the buckets. -/
  allocation : Allocation
  stickiness : Option Stickiness := none
  deriving DecidableEq, Repr

namespace FlagRule

/-- The attribute that names the unit. -/
def targetingKey (r : FlagRule) : String := r.selector.getD Context.defaultTargetingKey

/-- Where the rule reads earlier decisions. -/
def readMaterialization? (r : FlagRule) : Option String := r.stickiness.bind (·.read)

/-- Where the rule records its decisions. -/
def writeMaterialization? (r : FlagRule) : Option String := r.stickiness.bind (·.write)

/-- How the rule reads earlier decisions. -/
def readMode (r : FlagRule) : ReadMode := (r.stickiness.map (·.mode)).getD .default

/-- The names of the variants that the rule can give. -/
def variantNames (r : FlagRule) : List String :=
  r.allocation.assignments.filterMap fun a =>
    match a.kind with
    | .variant name => some name
    | _ => none

def toJson (r : FlagRule) : Json :=
  .object ([("name", .string r.name), ("enabled", .bool r.enabled),
      ("segment", .string r.segment)] ++
    Json.optionalField "targeting_key_selector" .string r.selector ++
    [("assignment_spec", r.allocation.toJson)] ++
    Json.optionalField "materialization_spec" Stickiness.toJson r.stickiness)

def ofJson? (origin : Origin) (j : Json) : Option FlagRule := do
  let r ← Record.ofJson?
    ["name", "enabled", "segment", "targeting_key_selector", "assignment_spec",
      "materialization_spec"] j
  let name ← r.required "name" Json.asString?
  let enabled ← r.defaulted "enabled" true Json.asBool?
  let segment ← r.required "segment" Json.asString?
  let selector ← r.optionalDefaulted "targeting_key_selector" Json.asString?
  let allocation ← r.required "assignment_spec" (Allocation.ofJson? origin)
  let stickiness ← r.optionalDefaulted "materialization_spec" Stickiness.ofJson?
  return { name, enabled, segment, selector, allocation, stickiness }

end FlagRule

/-- A feature flag. -/
structure Flag where
  name : String
  /-- Whether it is resolved. -/
  state : FlagState := .active
  /-- The schema of its values. -/
  schema : Schema := .empty
  /-- Its named values. -/
  variants : List Variant := []
  /-- Its rules, in the order in which they are tried. -/
  rules : List FlagRule := []
  /-- The clients that may resolve it. -/
  clients : List String := []
  deriving Repr

namespace Flag

/-- The variant of a name. -/
def variant? (f : Flag) (name : String) : Option Variant := f.variants.find? (·.name = name)

theorem name_of_variant? {f : Flag} {name : String} {v : Variant} (h : f.variant? name = some v) :
    v.name = name := by
  simpa using List.find?_some h

/-- Whether a client may resolve the flag. -/
def isAvailableTo (f : Flag) (client : String) : Bool := f.clients.contains client

def toJson (f : Flag) : Json :=
  .object [("name", .string f.name), ("state", .string f.state.name), ("schema", f.schema.toJson),
    ("variants", Json.ofList Variant.toJson f.variants),
    ("rules", Json.ofList FlagRule.toJson f.rules), ("clients", Json.ofList .string f.clients)]

def ofJson? (origin : Origin) (j : Json) : Option Flag := do
  let r ← Record.ofJson? ["name", "state", "schema", "variants", "rules", "clients"] j
  let name ← r.required "name" Json.asString?
  let state ← r.defaulted "state" .active FlagState.ofJson?
  let schema ← r.defaulted "schema" .empty Schema.ofJson?
  let variants ← r.defaulted "variants" [] (Json.asList? Variant.ofJson?)
  let rules ← r.defaulted "rules" [] (Json.asList? (FlagRule.ofJson? origin))
  let clients ← r.defaulted "clients" [] (Json.asList? Json.asString?)
  return { name, state, schema, variants, rules, clients }

end Flag

end FeatureFlags
