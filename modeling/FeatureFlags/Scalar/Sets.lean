import FeatureFlags.Scalar.Kinds

/-!
# Finite sets of scalars

Sets are lists in which order and repetition carry no meaning; two elements are
one if they are `sameAs` each other. Every operation asks for one kind in all its
operands, and lists its result in the order in which the elements are first seen,
each of them once.
-/

namespace FeatureFlags.Scalar

/-- Whether some element is the same as `x`. -/
def memberOf (x : Scalar) (set : List Scalar) : Bool := set.any fun y => x.sameAs y

/-- The elements without those that repeat an earlier one. -/
def distinct (set : List Scalar) : List Scalar :=
  set.foldl (fun acc x => if acc.any fun y => y.sameAs x then acc else acc ++ [x]) []

/-- Whether `x` is in the set. -/
def isIn (x : Scalar) (set : List Scalar) : Except KindMismatch Bool :=
  withUniformKind (x :: set) <| .ok (set.any fun y => y.sameAs x)

/-- Whether the sets share an element. -/
def setsOverlap (a b : List Scalar) : Except KindMismatch Bool :=
  withUniformKind (a ++ b) <| .ok (a.any (memberOf · b))

/-- Whether some element of `a` is not in `b`. -/
def setsOverlapNegated (a b : List Scalar) : Except KindMismatch Bool :=
  withUniformKind (a ++ b) <| .ok (a.any fun x => !memberOf x b)

/-- The elements of `a` that are also in `b`. -/
def intersectSets (a b : List Scalar) : Except KindMismatch (List Scalar) :=
  withUniformKind (a ++ b) <| .ok (distinct (a.filter (memberOf · b)))

/-- The elements of `a`, then those of `b`. -/
def unionSets (a b : List Scalar) : Except KindMismatch (List Scalar) :=
  withUniformKind (a ++ b) <| .ok (distinct (a ++ b))

/-- The elements of `a` that are not in `b`. -/
def subtractSets (a b : List Scalar) : Except KindMismatch (List Scalar) :=
  withUniformKind (a ++ b) <| .ok (distinct (a.filter fun x => !memberOf x b))

end FeatureFlags.Scalar
