import FeatureFlags.Scalar.Coercion
import FeatureFlags.Scalar.Interval
import FeatureFlags.Scalar.Sets

/-!
# Attribute rules

- `Condition`: what a single value has to be: equal to a value, one of a set, or in
  an interval.
- `AttributeRule`: a condition on an attribute, or on some or all elements of a list.
- `AttributeRule.accepts`: whether an attribute satisfies a rule.
- `AttributeRule.overlaps`: whether some attribute could satisfy two rules.
-/

namespace FeatureFlags

/-- What is wrong with a rule. -/
inductive RuleError where
  /-- Values of two kinds meet. -/
  | kindMismatch (mismatch : KindMismatch)
  /-- A rule on list elements stands inside another one. -/
  | nestedQuantifier
  deriving DecidableEq, Repr

namespace RuleError

/-- The text of the error. -/
def message : RuleError → String
  | kindMismatch e => e.message
  | nestedQuantifier => "Quantified rule cannot wrap another quantifier"

end RuleError

/-- What a single value has to be. -/
inductive Condition where
  /-- The same as the value. -/
  | eq (value : Scalar)
  /-- The same as one of the values. -/
  | oneOf (values : List Scalar)
  /-- In the interval. -/
  | within (interval : Interval)
  deriving DecidableEq, Repr

namespace Condition

/-- The values a condition names. -/
def values : Condition → List Scalar
  | eq x => [x]
  | oneOf xs => xs
  | within i => i.endpoints

/-- The kind of a condition; `none` if it names no value. -/
def kind (c : Condition) : Except KindMismatch (Option ScalarKind) := Scalar.uniformKind c.values

/-- Whether an attribute is present and no list or object. -/
def isPlain : Json → Bool
  | .null | .array _ | .object _ | .unreadable => false
  | _ => true

/-- Whether an attribute, read as a value of the condition's kind, satisfies the condition. An
interval without bounds takes every plain attribute. -/
def accepts (c : Condition) (found : Json) : Bool :=
  match c with
  | eq expected => (Scalar.coerce found expected.kind).any (·.sameAs expected)
  | oneOf [] => false
  | oneOf (first :: rest) =>
    (Scalar.coerce found first.kind).any fun x => (first :: rest).any (·.sameAs x)
  | within i =>
    match i.kind with
    | .ok (some kind) =>
      (Scalar.coerce found kind).any fun x => (i.contains x).toOption.getD false
    | .ok none => isPlain found
    | .error _ => false

/-- Whether some value of the set lies in the interval; the first value of a wrong kind is an
error, also behind one that lies in it. -/
def setOverlapsInterval (i : Interval) : List Scalar → Except KindMismatch Bool
  | [] => .ok false
  | x :: rest => do
    let here ← i.contains x
    let there ← setOverlapsInterval i rest
    return here || there

/-- Whether some value could satisfy both conditions. -/
def overlaps : Condition → Condition → Except KindMismatch Bool
  | eq a, eq b => a.equals b
  | eq a, oneOf b | oneOf b, eq a => a.isIn b
  | eq a, within i | within i, eq a => i.contains a
  | oneOf a, oneOf b => Scalar.setsOverlap a b
  | oneOf a, within i | within i, oneOf a => setOverlapsInterval i a
  | within a, within b => a.overlaps b

end Condition

/-- A condition on an attribute. -/
inductive AttributeRule where
  /-- On the attribute itself. -/
  | plain (condition : Condition)
  /-- On at least one element of a list. -/
  | any (rule : AttributeRule)
  /-- On every element of a list that is not empty. -/
  | all (rule : AttributeRule)
  deriving DecidableEq, Repr

namespace AttributeRule

/-- The condition inside a rule. -/
def condition : AttributeRule → Condition
  | plain c => c
  | any r | all r => r.condition

/-- The kind of the condition inside. -/
def kind (r : AttributeRule) : Except KindMismatch (Option ScalarKind) := r.condition.kind

/-- Whether the rule looks at list elements. -/
def isQuantified : AttributeRule → Bool
  | plain _ => false
  | any _ | all _ => true

/-- A rule is well formed if its values are of one kind and it looks into lists once at most. -/
def validate : AttributeRule → Except RuleError Unit
  | plain c =>
    match c.kind with
    | .ok _ => .ok ()
    | .error e => .error (.kindMismatch e)
  | any r | all r => if r.isQuantified then .error .nestedQuantifier else r.validate

/-- The elements of an attribute: a plain one is a list of itself, a missing one an empty list. -/
def elements : Json → List Json
  | .null => []
  | .array items => items
  | found => [found]

/-- Whether an attribute satisfies the rule. -/
def accepts : AttributeRule → Json → Bool
  | plain c, found => c.accepts found
  | any r, found => (elements found).any r.accepts
  | all r, found =>
    let items := elements found
    !items.isEmpty && items.all r.accepts

/-- Whether some attribute could satisfy both rules. A plain attribute is a list of itself, so this
is a question on the conditions inside. -/
def overlaps (a b : AttributeRule) : Except KindMismatch Bool := a.condition.overlaps b.condition

def toJson : AttributeRule → Json
  | plain (.eq x) => .object [("eq", x.toJson)]
  | plain (.oneOf xs) => .object [("set", Json.ofList Scalar.toJson xs)]
  | plain (.within i) => .object [("range", i.toJson)]
  | any r => .object [("any", r.toJson)]
  | all r => .object [("all", r.toJson)]

def ofJson? : Json → Option AttributeRule
  | .object [(tag, content)] =>
    match tag with
    | "eq" => (Scalar.ofJson? content).map fun x => plain (.eq x)
    | "set" => (content.asList? Scalar.ofJson?).map fun xs => plain (.oneOf xs)
    | "range" => (Interval.ofJson? content).map fun i => plain (.within i)
    | "any" => (ofJson? content).map any
    | "all" => (ofJson? content).map all
    | _ => none
  | _ => none

end AttributeRule

end FeatureFlags
