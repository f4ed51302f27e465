import FeatureFlags.Population
import FeatureFlags.Targeting.AttributeRule
import FeatureFlags.Targeting.Expr.Simplify

/-!
# Segments

A segment is a named set of units: those that satisfy its targeting and fall into
its population. Targeting is an expression over criteria, and a criterion is a
rule on an attribute or membership in another segment.
-/

namespace FeatureFlags

/-- A named condition inside the targeting of a segment. -/
inductive Criterion where
  /-- The attribute at a dotted path satisfies a rule. -/
  | onAttribute (path : String) (rule : AttributeRule)
  /-- The unit is in a segment. -/
  | inSegment (segment : String)
  deriving DecidableEq, Repr

namespace Criterion

def toJson : Criterion → Json
  | onAttribute path rule =>
    .object [("attribute", .object [("attribute", .string path), ("rule", rule.toJson)])]
  | inSegment segment => .object [("segment", .object [("segment", .string segment)])]

def ofJson? (origin : Origin) (j : Json) : Option Criterion :=
  match j.variant? with
  | some ("attribute", some content) => do
    let r ← Record.ofContent? origin ["attribute", "rule"] content
    let path ← r.required "attribute" Json.asString?
    let rule ← r.required "rule" AttributeRule.ofJson?
    return onAttribute path rule
  | some ("segment", some content) => do
    let r ← Record.ofContent? origin ["segment"] content
    return inSegment (← r.required "segment" Json.asString?)
  | _ => none

end Criterion

/-- An expression over named criteria. -/
structure Targeting where
  /-- The expression; its names are those of criteria. -/
  expression : Expr
  /-- The criteria by name. -/
  criteria : Dict Criterion
  deriving DecidableEq

namespace Targeting

/-- The targeting that every unit satisfies. -/
def everyone : Targeting := { expression := .always, criteria := .empty }

/-- The names in the expression that have no criterion, ascending. -/
def danglingRefs (t : Targeting) : List String :=
  t.expression.refs.filter fun name => !t.criteria.contains name

def toJson (t : Targeting) : Json :=
  .object [("expression", t.expression.toJson), ("criteria", Json.ofDict Criterion.toJson t.criteria)]

def ofJson? (origin : Origin) (j : Json) : Option Targeting := do
  let r ← Record.ofJson? ["expression", "criteria"] j
  let expression ← r.required "expression" Expr.ofJson?
  let criteria ← r.defaulted "criteria" .empty (Json.asDict? (Criterion.ofJson? origin))
  return { expression, criteria }

end Targeting

/-- A named set of units, its population apart. -/
structure Segment where
  name : String
  /-- What its units satisfy. -/
  targeting : Targeting := .everyone
  deriving DecidableEq

namespace Segment

def toJson (s : Segment) : Json :=
  .object [("name", .string s.name), ("targeting", s.targeting.toJson)]

def ofJson? (origin : Origin) (j : Json) : Option Segment := do
  let r ← Record.ofJson? ["name", "targeting"] j
  let name ← r.required "name" Json.asString?
  let targeting ← r.defaulted "targeting" .everyone (Targeting.ofJson? origin)
  return { name, targeting }

end Segment

end FeatureFlags
