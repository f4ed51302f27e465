import FeatureFlags.Json.Record

/-!
# Value schemas

- `FieldType`, `Schema`: the types of the fields of a flag's values. The fields of
  a struct are listed by ascending name.
- `Schema.expand`: check a value against a schema and fill in what it leaves out,
  so that every struct in it has all its fields. A field without a value is `null`,
  a missing struct a struct of such fields.
-/

namespace FeatureFlags

/-- The type of a field. -/
inductive FieldType where
  /-- Truth values. -/
  | bool
  /-- Whole numbers. -/
  | int
  /-- Numbers. -/
  | double
  /-- Texts. -/
  | string
  /-- Objects with the given fields. -/
  | struct (fields : List (String × FieldType))
  /-- Lists of items of one type. -/
  | list (item : FieldType)
  deriving Repr, Inhabited

/-- A value that does not conform to its schema. -/
structure SchemaViolation where
  /-- Where in the value: field names separated by points, positions in brackets. -/
  path : String
  /-- What the schema expects there. -/
  expected : String
  deriving DecidableEq, Repr

namespace SchemaViolation

/-- The text of the error. -/
def message (v : SchemaViolation) : String :=
  "Field '" ++ v.path ++ "' does not match schema: expected " ++ v.expected

end SchemaViolation

namespace FieldType

/-- The path of a field below a path. -/
def fieldPath (path name : String) : String := if path = "" then name else path ++ "." ++ name

/-- The path of an item below a path. -/
def itemPath (path : String) (index : Nat) : String := path ++ "[" ++ toString index ++ "]"

/-- The first field of a value that the schema does not have. -/
def unknownField? (fields : List (String × FieldType)) (value : List (String × Json)) :
    Option String :=
  (value.find? fun e => (Entries.get? e.1 fields).isNone).map (·.1)

/-- Check items from position `index` on. -/
def checkItems (check : String → Json → Except SchemaViolation Json) (path : String) :
    (index : Nat) → List Json → Except SchemaViolation (List Json)
  | _, [] => .ok []
  | index, j :: rest => do
    let j ← check (itemPath path index) j
    let rest ← checkItems check path (index + 1) rest
    return j :: rest

mutual

/-- Check the value at a path and fill in what it leaves out. A `null` stays `null`. -/
def check : FieldType → (path : String) → Json → Except SchemaViolation Json
  | _, _, .null => .ok .null
  | bool, _, .bool b => .ok (.bool b)
  | bool, path, _ => .error { path, expected := "bool" }
  | int, _, .number (.integer n) => .ok (.number (.integer n))
  | int, path, _ => .error { path, expected := "int" }
  | double, _, .number n => .ok (.number n)
  | double, path, _ => .error { path, expected := "double" }
  | string, _, .string s => .ok (.string s)
  | string, path, _ => .error { path, expected := "string" }
  | struct fields, path, .object value =>
    match unknownField? fields value with
    | some name => .error { path := fieldPath path name, expected := "no such field" }
    | none => (checkFields fields path value).map .object
  | struct _, path, _ => .error { path, expected := "struct" }
  | list item, path, .array items => (checkItems (check item) path 0 items).map .array
  | list _, path, _ => .error { path, expected := "list" }

/-- The fields of a schema, each with its part of the value or, where there is none, `null`; a
struct is filled in instead. -/
def checkFields : List (String × FieldType) → (path : String) → List (String × Json) →
    Except SchemaViolation (List (String × Json))
  | [], _, _ => .ok []
  | (name, type) :: rest, path, value => do
    let given := (Entries.get? name value).getD .null
    let filled := match type, given with
      | struct _, .null => .object []
      | _, given => given
    let checked ← check type (fieldPath path name) filled
    let others ← checkFields rest path value
    return (name, checked) :: others

end

mutual

def toJson : FieldType → Json
  | bool => .string "bool"
  | int => .string "int"
  | double => .string "double"
  | string => .string "string"
  | struct fields => .object [("struct", .object (fieldsToJson fields))]
  | list item => .object [("list", item.toJson)]

/-- The forms of the types of fields. -/
def fieldsToJson : List (String × FieldType) → List (String × Json)
  | [] => []
  | (name, type) :: rest => (name, type.toJson) :: fieldsToJson rest

end

def ofName? : String → Option FieldType
  | "bool" => some bool
  | "int" => some int
  | "double" => some double
  | "string" => some string
  | _ => none

mutual

def ofJson? : Json → Option FieldType
  | .string name => ofName? name
  | .object [(tag, content)] =>
    match tag, content with
    | "struct", .object fields => (fieldsOfJson? fields).map fun fs => struct (Entries.ofList fs)
    | "list", item => (ofJson? item).map list
    | name, .null => ofName? name
    | _, _ => none
  | _ => none

/-- The types of fields, in the order written. -/
def fieldsOfJson? : List (String × Json) → Option (List (String × FieldType))
  | [] => some []
  | (name, j) :: rest => do
    let type ← ofJson? j
    let types ← fieldsOfJson? rest
    return (name, type) :: types

end

mutual

/-- The fields of every struct in the type are listed once each, ascending. -/
def Ordered : FieldType → Prop
  | bool | int | double | string => True
  | struct fields => Entries.Ascending fields ∧ FieldsOrdered fields
  | list item => item.Ordered

/-- The types of all fields are ordered. -/
def FieldsOrdered : List (String × FieldType) → Prop
  | [] => True
  | (_, type) :: rest => type.Ordered ∧ FieldsOrdered rest

end

end FieldType

/-- The types of the fields of a flag's values. -/
structure Schema where
  /-- The fields by ascending name. -/
  fields : List (String × FieldType)
  deriving Repr

namespace Schema

/-- The schema without fields. -/
def empty : Schema := ⟨[]⟩

/-- Check a value and fill in what it leaves out. Unknown fields are found first, in ascending
order, and then the fields of the schema are gone through in that order. -/
def expand (s : Schema) (value : List (String × Json)) :
    Except SchemaViolation (List (String × Json)) :=
  match FieldType.unknownField? s.fields value with
  | some name => .error { path := name, expected := "no such field" }
  | none => FieldType.checkFields s.fields "" value

def toJson (s : Schema) : Json := .object (FieldType.fieldsToJson s.fields)

def ofJson? : Json → Option Schema
  | .object fields => (FieldType.fieldsOfJson? fields).map fun fs => ⟨Entries.ofList fs⟩
  | _ => none

end Schema

end FeatureFlags
