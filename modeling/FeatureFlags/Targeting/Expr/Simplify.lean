import FeatureFlags.Targeting.Expr.Basic

/-!
# Simplifying targeting expressions

`Expr.simplify` works bottom-up: it removes double negations, folds constants,
flattens junctions inside junctions of the same kind, and replaces a junction that
holds an expression beside its negation by the constant it is equal to.
-/

namespace FeatureFlags

/-- The two kinds of junctions. -/
inductive Junction where
  | all
  | any
  deriving DecidableEq, Repr

namespace Junction

/-- The constant that changes nothing as an operand. -/
def identity : Junction → Expr
  | all => .always
  | any => .never

/-- The constant that decides the junction as an operand. -/
def absorbing : Junction → Expr
  | all => .never
  | any => .always

/-- The junction of a set of operands. -/
def build : Junction → List Expr → Expr
  | all, es => .all es
  | any, es => .any es

/-- The operands of a junction of this kind. -/
def operandsOf? : Junction → Expr → Option (List Expr)
  | all, .all es => some es
  | any, .any es => some es
  | _, _ => none

/-- The set of operands, where junctions of this kind are replaced by their own operands. -/
def flatten (j : Junction) (es : List Expr) : List Expr :=
  es.foldl
    (fun acc e =>
      match j.operandsOf? e with
      | some inner => OrderedSet.insertAll Expr.compare acc inner
      | none => OrderedSet.insert Expr.compare e acc)
    []

/-- Whether an expression is the negation of something that is present among flattened operands: of
one of them, or of a junction of this kind whose operands are all among them. -/
def negatesPresent (j : Junction) (es : List Expr) : Expr → Bool
  | .not e =>
    match j.operandsOf? e with
    | some inner => inner.all (es.contains ·)
    | none => es.contains e
  | _ => false

/-- The junction of simplified operands. -/
def reduce (j : Junction) (es : List Expr) : Expr :=
  let kept := es.filter (· ≠ j.identity)
  if kept.contains j.absorbing then j.absorbing
  else
    let flat := j.flatten kept
    if flat.any (j.negatesPresent flat) then j.absorbing
    else match flat with
      | [] => j.identity
      | [e] => e
      | es => j.build es

end Junction

namespace Expr

/-- The negation of a simplified expression. -/
def negate : Expr → Expr
  | always => never
  | never => always
  | not e => e
  | e => not e

mutual

/-- The simplified expression. -/
def simplify : Expr → Expr
  | always => always
  | never => never
  | ref name => ref name
  | not e => negate e.simplify
  | all es => Junction.all.reduce (simplifyAll es)
  | any es => Junction.any.reduce (simplifyAll es)

/-- All expressions of a list simplified. -/
def simplifyAll : List Expr → List Expr
  | [] => []
  | e :: rest => e.simplify :: simplifyAll rest

end

theorem simplifyAll_eq_map (es : List Expr) : simplifyAll es = es.map simplify := by
  induction es with
  | nil => rfl
  | cons e rest ih => simp [simplifyAll, ih]

end Expr

end FeatureFlags
