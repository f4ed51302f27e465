import FeatureFlags.Json.Basic

/-!
# Decoding JSON trees

- `Record`: the fields of a structured value, given either as an object, where
  unknown fields do not matter, or as an array in declaration order.
- `Json.variant?`: the tag and the content of a tagged value. Content with fields
  may be an array only in a tree that was read from a text (`Origin`).
- Decoders of the basic types. A decoder answers `none` where the tree has the
  wrong shape; why it does so is nowhere shown.
-/

namespace FeatureFlags

/-- Where a tree comes from. -/
inductive Origin where
  /-- It was read from a text. -/
  | text
  /-- It was handed over as a value. -/
  | value
  deriving DecidableEq, Repr

/-- The fields of a structured value. -/
structure Record where
  /-- The content of a field, if it is given. -/
  field? : String → Option Json
  /-- Whether the fields were given by position. -/
  positional : Bool

namespace Record

/-- The fields of an object. A known field may be given only once. -/
def ofFields? (names : List String) (fields : List (String × Json)) : Option Record :=
  let known := (fields.map (·.1)).filter (names.contains ·)
  if known.Nodup then
    some { field? := fun name => Entries.get? name fields, positional := false }
  else none

/-- The fields of an array, which has at most one item for each of them. -/
def ofItems? (names : List String) (items : List Json) : Option Record :=
  if items.length ≤ names.length then
    some { field? := fun name => Entries.get? name (names.zip items), positional := true }
  else none

/-- The fields of a structured value whose fields have the given names. -/
def ofJson? (names : List String) : Json → Option Record
  | .object fields => ofFields? names fields
  | .array items => ofItems? names items
  | _ => none

/-- The fields behind a tag: those of a structured value, except that a tree that was handed over
has to name them. -/
def ofContent? (origin : Origin) (names : List String) (j : Json) : Option Record :=
  match origin, j with
  | .value, .array _ => none
  | _, j => ofJson? names j

variable {α : Type}

/-- A field that has to be there. -/
def required (r : Record) (name : String) (decode : Json → Option α) : Option α :=
  (r.field? name).bind decode

/-- A field that may be missing, but not be `null`. -/
def defaulted (r : Record) (name : String) (default : α) (decode : Json → Option α) : Option α :=
  match r.field? name with
  | none => some default
  | some j => decode j

/-- A field that may be missing or `null`. -/
def optionalDefaulted (r : Record) (name : String) (decode : Json → Option α) :
    Option (Option α) :=
  match r.field? name with
  | none | some .null => some none
  | some j => (decode j).map some

/-- A field that may be `null`, and in an object also missing. -/
def optional (r : Record) (name : String) (decode : Json → Option α) : Option (Option α) :=
  match r.field? name with
  | none => if r.positional then none else some none
  | some .null => some none
  | some j => (decode j).map some

end Record

namespace Json

/-- The tag of a tagged value, and its content unless the tag stands alone. -/
def variant? : Json → Option (String × Option Json)
  | .string tag => some (tag, none)
  | .object [(tag, content)] => some (tag, some content)
  | _ => none

/-- The tag of a value that has no content, or `null` for it. -/
def unitVariant? (j : Json) : Option String :=
  match j.variant? with
  | some (tag, none) | some (tag, some .null) => some tag
  | _ => none

/-- A truth value. -/
def asBool? : Json → Option Bool
  | .bool b => some b
  | _ => none

/-- A string. -/
def asString? : Json → Option String
  | .string s => some s
  | _ => none

/-- The least whole number that a field of 64 bits cannot hold. -/
def wordBound : Nat := Nat.pow 2 64

/-- A whole number from zero up to but excluding `bound`. -/
def asNatBelow? (bound : Nat) : Json → Option Nat
  | .number (.integer n) => if 0 ≤ n ∧ n < bound then some n.toNat else none
  | _ => none

/-- A whole number of 64 bits. -/
def asNat? (j : Json) : Option Nat := j.asNatBelow? wordBound

/-- A number as a double. -/
def asDouble? : Json → Option Double
  | .number n => some n.toDouble
  | _ => none

variable {α : Type}

/-- An array of values. -/
def asList? (decode : Json → Option α) : Json → Option (List α)
  | .array items => items.mapM decode
  | _ => none

/-- An object whose fields hold values. -/
def asEntries? (decode : Json → Option α) : Json → Option (List (String × α))
  | .object fields => fields.mapM fun e => (decode e.2).map (e.1, ·)
  | _ => none

/-- An object as a dictionary; of two fields under one key the later counts. -/
def asDict? (decode : Json → Option α) (j : Json) : Option (Dict α) :=
  (j.asEntries? decode).map Dict.ofList

/-- The fields of an object that is a value. -/
def asFields? (j : Json) : Option (List (String × Json)) :=
  match j.normalize? with
  | some (.object fields) => some fields
  | _ => none

/-! ## Encoding -/

/-- A natural number. -/
def ofNat (n : Nat) : Json := .number (.integer n)

/-- A list, item by item. -/
def ofList (encode : α → Json) (items : List α) : Json := .array (items.map encode)

/-- A dictionary as an object, keys ascending. -/
def ofDict (encode : α → Json) (d : Dict α) : Json := .object (Entries.map encode d.entries)

/-- A value or `null`. -/
def ofOption (encode : α → Json) : Option α → Json
  | some a => encode a
  | none => .null

/-- A field that is left out where there is no value. -/
def optionalField (name : String) (encode : α → Json) : Option α → List (String × Json)
  | some a => [(name, encode a)]
  | none => []

end Json

end FeatureFlags
