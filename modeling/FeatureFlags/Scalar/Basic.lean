import FeatureFlags.Decimal.Layout
import FeatureFlags.Instant.Loose
import FeatureFlags.Json.Record
import FeatureFlags.Version

/-!
# Scalars

The typed values that targeting compares attributes with.

- `Scalar.compare`: the order within a kind; values of two kinds do not compare.
- `Scalar.sameAs`: equality as targeting sees it. Two versions can be the same
  and still be spelled differently.
- `Scalar.toJson`, `Scalar.ofJson?`: the form in snapshots, an object whose only
  key is the kind.
-/

namespace FeatureFlags

/-- The kinds of scalars. -/
inductive ScalarKind where
  | bool
  | number
  | string
  | timestamp
  | version
  deriving DecidableEq, Repr

namespace ScalarKind

def name : ScalarKind → String
  | bool => "bool"
  | number => "number"
  | string => "string"
  | timestamp => "timestamp"
  | version => "version"

def ofName? : String → Option ScalarKind
  | "bool" => some bool
  | "number" => some number
  | "string" => some string
  | "timestamp" => some timestamp
  | "version" => some version
  | _ => none

def ofJson? (j : Json) : Option ScalarKind := j.unitVariant?.bind ofName?

end ScalarKind

/-- A typed value. -/
inductive Scalar where
  | bool (value : Bool)
  | number (value : Double)
  | string (value : String)
  | timestamp (value : Instant)
  | version (value : Version)
  deriving DecidableEq, Repr

namespace Scalar

/-- The kind of a value. -/
def kind : Scalar → ScalarKind
  | bool _ => .bool
  | number _ => .number
  | string _ => .string
  | timestamp _ => .timestamp
  | version _ => .version

/-- The order of two values of one kind: `false` before `true`, doubles in the total order of their
patterns, texts by code point, instants in time, versions by precedence. -/
def compare : Scalar → Scalar → Option Ordering
  | bool a, bool b => some (Ord.compare a b)
  | number a, number b => some (a.compare b)
  | string a, string b => some (Ord.compare a b)
  | timestamp a, timestamp b => some (a.compare b)
  | version a, version b => some (a.compare b)
  | _, _ => none

/-- Whether two values are of one kind and neither comes before the other. -/
def sameAs (a b : Scalar) : Bool := a.compare b = some .eq

/-- The text of a value for people. -/
def display : Scalar → String
  | bool b => if b then "true" else "false"
  | number d => d.display
  | string s => "\"" ++ s ++ "\""
  | timestamp t => t.display
  | version v => v.toText

/-- What stands under the kind of a value in a snapshot. -/
def payload : Scalar → Json
  | bool b => .bool b
  | number d => if d.isFinite then .number (.double d) else .null
  | string s => .string s
  | timestamp t => .string t.toText
  | version v => .string v.toText

def toJson (s : Scalar) : Json := .object [(s.kind.name, s.payload)]

/-- A value of a kind from what stands under it. -/
def ofPayload? (kind : ScalarKind) (j : Json) : Option Scalar :=
  match kind with
  | .bool => j.asBool?.map bool
  | .number => j.asDouble?.map number
  | .string => j.asString?.map string
  | .timestamp => j.asString?.bind fun s => (Instant.ofLooseText? s).map timestamp
  | .version => j.asString?.bind fun s => (Version.ofText? s).map version

def ofJson? (j : Json) : Option Scalar :=
  match j.variant? with
  | some (tag, some content) => (ScalarKind.ofName? tag).bind fun kind => ofPayload? kind content
  | _ => none

end Scalar

end FeatureFlags
