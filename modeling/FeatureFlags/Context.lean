import FeatureFlags.Json.Record
import FeatureFlags.Text.Split

/-!
# Evaluation contexts

- `Context`: the attributes a resolve is evaluated against, an object that is a
  JSON value.
- `Context.get`, `Context.insert`: attributes by dotted path. A path has at least
  one part; parts may be empty.
-/

namespace FeatureFlags

namespace Json

/-- The parts of a dotted path. -/
def pathParts (path : String) : List String :=
  (Text.split '.' path.toList).map String.ofList

/-- What lies at a path inside a tree, or `null`. -/
def lookup : List String → Json → Json
  | [], j => j
  | part :: rest, object fields =>
    match Entries.get? part fields with
    | some j => lookup rest j
    | none => null
  | _ :: _, _ => null

/-- The fields of an object; anything else has none. -/
def fieldsOrNone : Json → List (String × Json)
  | object fields => fields
  | _ => []

/-- The tree with `value` at a path. What is on the way and not an object becomes one. -/
def put (value : Json) : List String → Json → Json
  | [], _ => value
  | part :: rest, j =>
    let inner := (Entries.get? part j.fieldsOrNone).getD (object [])
    object (Entries.insert part (put value rest inner) j.fieldsOrNone)

theorem normal_of_get? {fields : List (String × Json)} {name : String} {j : Json}
    (h : ∀ e ∈ fields, e.2.Normal) (hj : Entries.get? name fields = some j) : j.Normal := by
  induction fields with
  | nil => cases hj
  | cons e rest ih =>
    obtain ⟨k, v⟩ := e
    unfold Entries.get? at hj
    split at hj
    · cases hj; exact h _ List.mem_cons_self
    · exact ih (fun e he => h e (List.mem_cons_of_mem _ he)) hj

theorem normal_object_fieldsOrNone {j : Json} (h : j.Normal) : (object j.fieldsOrNone).Normal := by
  cases j <;> first | exact h | rfl

/-- Putting a value into a value gives a value. -/
theorem normal_put {value j : Json} (hv : value.Normal) (hj : j.Normal) (path : List String) :
    (put value path j).Normal := by
  induction path generalizing j with
  | nil => exact hv
  | cons part rest ih =>
    have hfields := (normal_object_iff _).1 (normal_object_fieldsOrNone hj)
    have hinner : ((Entries.get? part j.fieldsOrNone).getD (object [])).Normal := by
      cases hg : Entries.get? part j.fieldsOrNone with
      | none => rfl
      | some inner => exact normal_of_get? hfields.2 hg
    refine (normal_object_iff _).2 ⟨hfields.1.insert _ _, fun e he => ?_⟩
    rcases Entries.mem_insert he with rfl | he
    · exact ih hinner
    · exact hfields.2 e he

end Json

/-- The attributes a resolve is evaluated against. -/
structure Context where
  /-- The attributes by name. -/
  fields : List (String × Json)
  /-- Together they are a JSON value. -/
  normal : (Json.object fields).Normal
  deriving Repr

namespace Context

/-- The attribute that names the unit where a rule does not say otherwise. -/
def defaultTargetingKey : String := "targeting_key"

/-- The context without attributes. -/
def empty : Context := ⟨[], rfl⟩

instance : Inhabited Context := ⟨empty⟩

def toJson (c : Context) : Json := .object c.fields

/-- The context that a tree denotes, if it denotes an object. -/
def ofJson? (j : Json) : Option Context :=
  match h : j.normalize? with
  | some (.object fields) => some ⟨fields, Json.normal_of_normalize? h⟩
  | _ => none

/-- The attribute at a dotted path, or `null`. -/
def get (c : Context) (path : String) : Json := Json.lookup (Json.pathParts path) c.toJson

/-- The object with a value at a path below its top. -/
theorem put_object (value : Json) {path : List String} (h : path ≠ []) (j : Json) :
    ∃ fields, Json.put value path j = .object fields := by
  cases path with
  | nil => exact absurd rfl h
  | cons part rest => exact ⟨_, rfl⟩

/-- Put a value at a path that is not empty. -/
def insertAt (c : Context) (path : List String) (value : Json) (h : value.Normal) : Context :=
  ⟨(Json.put value path c.toJson).fieldsOrNone,
    Json.normal_object_fieldsOrNone (Json.normal_put h c.normal path)⟩

/-- Put a value at a dotted path. What is on the way and not an object becomes one. -/
def insert (c : Context) (path : String) (value : Json) (h : value.Normal) : Context :=
  c.insertAt (Json.pathParts path) value h

/-- Put what a tree denotes at a dotted path, if it denotes a value. -/
def insert? (c : Context) (path : String) (tree : Json) : Option Context :=
  match h : tree.normalize? with
  | none => none
  | some value => some (c.insert path value (Json.normal_of_normalize? h))

/-- The number of attributes at the top. -/
def size (c : Context) : Nat := c.fields.length

/-- Whether there is no attribute. -/
def isEmpty (c : Context) : Bool := c.fields.isEmpty

end Context

end FeatureFlags
