import FeatureFlags.Scalar.Kinds

/-!
# Intervals of scalars

- `Interval`: the values between two bounds, each of which may be missing and may
  or may not belong to the interval.
- `Interval.contains`, `Interval.isEmpty`, `Interval.inter`, `Interval.overlaps`:
  membership and intersection. Bounds and values of two kinds are an error.
-/

namespace FeatureFlags

/-- One end of an interval. -/
structure Bound where
  /-- The value at the end. -/
  value : Scalar
  /-- Whether that value belongs to the interval. -/
  inclusive : Bool
  deriving DecidableEq, Repr

namespace Bound

def toJson (b : Bound) : Json :=
  .object [("value", b.value.toJson), ("inclusive", .bool b.inclusive)]

def ofJson? (j : Json) : Option Bound := do
  let r ← Record.ofJson? ["value", "inclusive"] j
  let value ← r.required "value" Scalar.ofJson?
  let inclusive ← r.required "inclusive" Json.asBool?
  return { value, inclusive }

end Bound

/-- The values between two bounds; a missing bound leaves its side open. -/
structure Interval where
  /-- The bound below. -/
  lower : Option Bound := none
  /-- The bound above. -/
  upper : Option Bound := none
  deriving DecidableEq, Repr

namespace Interval

/-- The interval of all values. -/
def unbounded : Interval := {}

/-- The values at the bounds. -/
def endpoints (i : Interval) : List Scalar :=
  (i.lower.toList ++ i.upper.toList).map (·.value)

/-- The kind of the bounds; `none` if there is no bound. -/
def kind (i : Interval) : Except KindMismatch (Option ScalarKind) :=
  Scalar.uniformKind i.endpoints

/-- Whether the order of a value relative to a lower bound keeps it in. -/
def admitsBelow (b : Bound) (order : Ordering) : Bool :=
  if b.inclusive then order != .lt else order == .gt

/-- Whether the order of a value relative to an upper bound keeps it in. -/
def admitsAbove (b : Bound) (order : Ordering) : Bool :=
  if b.inclusive then order != .gt else order == .lt

/-- Whether a value keeps one bound, of which `admits` tells by the order of the two. -/
def keeps (admits : Bound → Ordering → Bool) (x : Scalar) :
    Option Bound → Except KindMismatch Bool
  | none => .ok true
  | some b => (Scalar.compareOfKind x b.value).map (admits b)

/-- Whether the value lies between the bounds. -/
def contains (i : Interval) (x : Scalar) : Except KindMismatch Bool :=
  Scalar.withUniformKind (x :: i.endpoints) do
    let above ← keeps admitsBelow x i.lower
    let below ← keeps admitsAbove x i.upper
    return above && below

/-- Whether the bounds cross, or touch where one of them is exclusive. An interval with an open
side is never empty. -/
def isEmpty (i : Interval) : Except KindMismatch Bool :=
  match i.lower, i.upper with
  | some a, some b =>
    (Scalar.compareOfKind a.value b.value).map fun
      | .gt => true
      | .eq => !a.inclusive || !b.inclusive
      | .lt => false
  | _, _ => .ok false

/-- The tighter of two bounds on one side, where the bound whose value compares as `tight` to the
other is the tighter one; of two bounds with the same value the exclusive one. -/
def tighter (tight : Ordering) : Option Bound → Option Bound → Except KindMismatch (Option Bound)
  | none, b => .ok b
  | a, none => .ok a
  | some a, some b =>
    (Scalar.compareOfKind a.value b.value).map fun order =>
      if order = .eq then some { value := a.value, inclusive := a.inclusive && b.inclusive }
      else if order = tight then some a
      else some b

/-- The values in both intervals. -/
def inter (a b : Interval) : Except KindMismatch Interval :=
  Scalar.withUniformKind (a.endpoints ++ b.endpoints) do
    let lower ← tighter .gt a.lower b.lower
    let upper ← tighter .lt a.upper b.upper
    return { lower, upper }

/-- Whether the intervals share more than crossing or half-open bounds leave. -/
def overlaps (a b : Interval) : Except KindMismatch Bool := do
  let both ← inter a b
  let empty ← both.isEmpty
  return !empty

/-- The form of an interval in snapshots; missing bounds are left out. -/
def toJson (i : Interval) : Json :=
  .object (Json.optionalField "start" Bound.toJson i.lower ++
    Json.optionalField "end" Bound.toJson i.upper)

def ofJson? (j : Json) : Option Interval := do
  let r ← Record.ofJson? ["start", "end"] j
  let lower ← r.optionalDefaulted "start" Bound.ofJson?
  let upper ← r.optionalDefaulted "end" Bound.ofJson?
  return { lower, upper }

end Interval

end FeatureFlags
