import FeatureFlags.Json.Record

/-!
# Allocations

- `BucketRange`, `Assignment`, `Allocation`: how the buckets of a rule are divided
  among assignments.
- `Allocation.assignmentFor?`: the assignment of a bucket.
- `Allocation.check`: an allocation is sound if its space has buckets and its
  ranges are non-empty, inside the space and pairwise disjoint. They need not
  cover it.
-/

namespace FeatureFlags

/-- The buckets from `lower` up to but excluding `upper`. -/
structure BucketRange where
  /-- The first bucket. -/
  lower : Nat
  /-- The bucket behind the last one. -/
  upper : Nat
  deriving DecidableEq, Repr

namespace BucketRange

/-- Whether a bucket is in the range. -/
def contains (r : BucketRange) (bucket : Nat) : Bool := r.lower ≤ bucket && bucket < r.upper

def toJson (r : BucketRange) : Json :=
  .object [("lower", Json.ofNat r.lower), ("upper", Json.ofNat r.upper)]

def ofJson? (j : Json) : Option BucketRange := do
  let r ← Record.ofJson? ["lower", "upper"] j
  let lower ← r.required "lower" Json.asNat?
  let upper ← r.required "upper" Json.asNat?
  return { lower, upper }

/-- The order in which ranges are laid side by side. -/
def comesBefore (a b : BucketRange) : Bool :=
  a.lower < b.lower || (a.lower == b.lower && a.upper ≤ b.upper)

end BucketRange

/-- What an assignment gives to a unit. -/
inductive AssignmentKind where
  /-- A variant of the flag. -/
  | variant (name : String)
  /-- Nothing: the match is noted and later rules are tried. -/
  | fallthrough
  /-- No value: the client uses its own default. -/
  | clientDefault
  deriving DecidableEq, Repr

namespace AssignmentKind

def toJson : AssignmentKind → Json
  | variant name => .object [("variant", .object [("variant", .string name)])]
  | fallthrough => .string "fallthrough"
  | clientDefault => .string "client_default"

def ofJson? (origin : Origin) (j : Json) : Option AssignmentKind :=
  match j.variant? with
  | some ("variant", some content) => do
    let r ← Record.ofContent? origin ["variant"] content
    return variant (← r.required "variant" Json.asString?)
  | some ("fallthrough", none) | some ("fallthrough", some .null) => some fallthrough
  | some ("client_default", none) | some ("client_default", some .null) => some clientDefault
  | _ => none

end AssignmentKind

/-- A share of a rule's buckets. -/
structure Assignment where
  /-- The name of the assignment. -/
  id : String
  /-- What it gives to a unit. -/
  kind : AssignmentKind
  /-- The buckets it covers. -/
  ranges : List BucketRange
  deriving DecidableEq, Repr

namespace Assignment

/-- Whether a bucket belongs to the assignment. -/
def covers (a : Assignment) (bucket : Nat) : Bool := a.ranges.any (·.contains bucket)

def toJson (a : Assignment) : Json :=
  .object [("assignment_id", .string a.id), ("kind", a.kind.toJson),
    ("bucket_ranges", Json.ofList BucketRange.toJson a.ranges)]

def ofJson? (origin : Origin) (j : Json) : Option Assignment := do
  let r ← Record.ofJson? ["assignment_id", "kind", "bucket_ranges"] j
  let id ← r.required "assignment_id" Json.asString?
  let kind ← r.required "kind" (AssignmentKind.ofJson? origin)
  let ranges ← r.required "bucket_ranges" (Json.asList? BucketRange.ofJson?)
  return { id, kind, ranges }

end Assignment

/-- What is wrong with an allocation. -/
inductive AllocationError where
  /-- The space has no buckets. -/
  | noBuckets
  /-- A range is empty or ends behind the last bucket. -/
  | outside (range : BucketRange) (id : String) (bucketCount : Nat)
  /-- Two ranges share a bucket. -/
  | overlap (first : BucketRange) (firstId : String) (second : BucketRange) (secondId : String)
  deriving DecidableEq, Repr

namespace AllocationError

private def rangeText (r : BucketRange) : String :=
  "[" ++ toString r.lower ++ ", " ++ toString r.upper ++ ")"

/-- The text of the error. -/
def message : AllocationError → String
  | noBuckets => "bucket_count must be positive"
  | outside r id count =>
    "range " ++ rangeText r ++ " of assignment '" ++ id ++ "' is outside [0, " ++
      toString count ++ ")"
  | overlap a aId b bId =>
    "range " ++ rangeText a ++ " of '" ++ aId ++ "' overlaps " ++ rangeText b ++ " of '" ++ bId ++
      "'"

end AllocationError

/-- The division of a rule's buckets. -/
structure Allocation where
  /-- The number of buckets. -/
  bucketCount : Nat
  /-- The assignments; the first that covers a bucket has it. -/
  assignments : List Assignment
  deriving DecidableEq, Repr

namespace Allocation

/-- The assignment of a bucket. -/
def assignmentFor? (a : Allocation) (bucket : Nat) : Option Assignment :=
  a.assignments.find? (·.covers bucket)

/-- All ranges with the names of their assignments, in the order listed. -/
def ranges (a : Allocation) : List (BucketRange × String) :=
  a.assignments.flatMap fun x => x.ranges.map (·, x.id)

/-- Whether a range is non-empty and inside the space. -/
def fits (a : Allocation) (r : BucketRange) : Bool := r.lower < r.upper && r.upper ≤ a.bucketCount

/-- The first range that begins before the one to its left ends. -/
def firstOverlap? : List (BucketRange × String) → Option AllocationError
  | (a, aId) :: (b, bId) :: rest =>
    if b.lower < a.upper then some (.overlap a aId b bId)
    else firstOverlap? ((b, bId) :: rest)
  | _ => none

/-- What is wrong with the allocation, if anything. Once every range fits, they are laid side by
side; equal ranges keep the order in which they are listed. -/
def error? (a : Allocation) : Option AllocationError :=
  if a.bucketCount = 0 then some .noBuckets
  else match a.ranges.find? fun r => !a.fits r.1 with
    | some (r, id) => some (.outside r id a.bucketCount)
    | none => firstOverlap? (a.ranges.mergeSort fun x y => x.1.comesBefore y.1)

def toJson (a : Allocation) : Json :=
  .object [("bucket_count", Json.ofNat a.bucketCount),
    ("assignments", Json.ofList Assignment.toJson a.assignments)]

def ofJson? (origin : Origin) (j : Json) : Option Allocation := do
  let r ← Record.ofJson? ["bucket_count", "assignments"] j
  let bucketCount ← r.required "bucket_count" Json.asNat?
  let assignments ← r.required "assignments" (Json.asList? (Assignment.ofJson? origin))
  return { bucketCount, assignments }

end Allocation

end FeatureFlags
