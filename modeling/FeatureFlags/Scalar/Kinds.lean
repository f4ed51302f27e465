import FeatureFlags.Scalar.Basic

/-!
# One kind throughout

Sets, intervals and rules hold values of one kind. `uniformKind` finds it or names
the first value that does not fit.
-/

namespace FeatureFlags

/-- Two values that should be of one kind and are not. -/
structure KindMismatch where
  /-- The kind of the first value. -/
  expected : ScalarKind
  /-- The kind of the value that does not fit. -/
  found : ScalarKind
  deriving DecidableEq, Repr

namespace KindMismatch

/-- The text of the error. -/
def message (e : KindMismatch) : String :=
  "Type mismatch: expected " ++ e.expected.name ++ ", found " ++ e.found.name

end KindMismatch

namespace Scalar

/-- The common kind of all values; `none` if there is no value. -/
def uniformKind : List Scalar → Except KindMismatch (Option ScalarKind)
  | [] => .ok none
  | first :: rest =>
    match rest.find? fun s => s.kind ≠ first.kind with
    | some odd => .error { expected := first.kind, found := odd.kind }
    | none => .ok (some first.kind)

/-- Do `body` if all values are of one kind. -/
def withUniformKind {α : Type} (values : List Scalar) (body : Except KindMismatch α) :
    Except KindMismatch α :=
  match uniformKind values with
  | .ok _ => body
  | .error e => .error e

/-- The order of two values of one kind. -/
def compareOfKind (a b : Scalar) : Except KindMismatch Ordering :=
  match a.compare b with
  | some order => .ok order
  | none => .error { expected := a.kind, found := b.kind }

/-- Whether two values of one kind are the same. -/
def equals (a b : Scalar) : Except KindMismatch Bool :=
  (compareOfKind a b).map (· == .eq)

end Scalar

end FeatureFlags
