import FeatureFlags.Json.Record
import FeatureFlags.OrderedSet

/-!
# Targeting expressions

- `Expr`: boolean expressions over named criteria. The operands of a junction are
  a set, kept as a list in strictly ascending order (`Expr.Ordered`).
- `Expr.compare`: a total order on expressions, by constructor first and then by
  content; sets compare like words over their elements.
- `Expr.eval`: the truth value, given which names are true.
- `Expr.refs`: the names an expression mentions.
-/

namespace FeatureFlags

/-- A boolean expression over named criteria. -/
inductive Expr where
  /-- True. -/
  | always
  /-- False. -/
  | never
  /-- True when the named criterion is satisfied. -/
  | ref (name : String)
  /-- True when the operand is false. -/
  | not (operand : Expr)
  /-- True when all operands are true. -/
  | all (operands : List Expr)
  /-- True when some operand is true. -/
  | any (operands : List Expr)
  deriving Repr, Inhabited

namespace Expr

/-! ## Order -/

/-- The place of the constructors in the order. -/
def rank : Expr → Nat
  | always => 0
  | never => 1
  | ref _ => 2
  | not _ => 3
  | all _ => 4
  | any _ => 5

mutual

/-- The order of expressions. -/
def compare : Expr → Expr → Ordering
  | ref a, ref b => Ord.compare a b
  | not a, not b => compare a b
  | all as, all bs => compareLists as bs
  | any as, any bs => compareLists as bs
  | a, b => Ord.compare a.rank b.rank

/-- Lists by their first difference; what runs out first comes first. -/
def compareLists : List Expr → List Expr → Ordering
  | [], [] => .eq
  | [], _ :: _ => .lt
  | _ :: _, [] => .gt
  | a :: as, b :: bs => (compare a b).then (compareLists as bs)

end

mutual

/-- Only equal expressions compare as equal. -/
theorem compare_eq_iff : {a b : Expr} → (a.compare b = .eq ↔ a = b)
  | always, b => by cases b <;> simp [compare, rank, Ord.compare, compareOfLessAndEq]
  | never, b => by cases b <;> simp [compare, rank, Ord.compare, compareOfLessAndEq]
  | ref a, b => by
    cases b with
    | ref b => simp [compare]
    | _ => simp [compare, rank, Ord.compare, compareOfLessAndEq]
  | not a, b => by
    cases b with
    | not b => simp [compare, @compare_eq_iff a]
    | _ => simp [compare, rank, Ord.compare, compareOfLessAndEq]
  | all as, b => by
    cases b with
    | all bs => simp [compare, @compareLists_eq_iff as]
    | _ => simp [compare, rank, Ord.compare, compareOfLessAndEq]
  | any as, b => by
    cases b with
    | any bs => simp [compare, @compareLists_eq_iff as]
    | _ => simp [compare, rank, Ord.compare, compareOfLessAndEq]

theorem compareLists_eq_iff : {as bs : List Expr} → (compareLists as bs = .eq ↔ as = bs)
  | [], bs => by cases bs <;> simp [compareLists]
  | a :: as, bs => by
    cases bs with
    | nil => simp [compareLists]
    | cons b bs =>
      simp [compareLists, Ordering.then_eq_eq, @compare_eq_iff a,
        @compareLists_eq_iff as]

end

instance : DecidableEq Expr := fun _ _ => decidable_of_iff _ compare_eq_iff

/-! ## Sets of expressions -/

/-- The set of the listed expressions. -/
def operandSet (es : List Expr) : List Expr := OrderedSet.ofList compare es

/-- The conjunction of the listed expressions. -/
def allOf (es : List Expr) : Expr := all (operandSet es)

/-- The disjunction of the listed expressions. -/
def anyOf (es : List Expr) : Expr := any (operandSet es)

mutual

/-- The operands of every junction in the expression are a set. -/
def Ordered : Expr → Prop
  | always | never | ref _ => True
  | not e => e.Ordered
  | all es | any es => OrderedSet.Strict compare es ∧ AllOrdered es

/-- Every expression of the list is ordered. -/
def AllOrdered : List Expr → Prop
  | [] => True
  | e :: rest => e.Ordered ∧ AllOrdered rest

end

/-! ## Meaning -/

mutual

/-- The truth value, where `isTrue` tells which names are true. -/
def eval (isTrue : String → Bool) : Expr → Bool
  | always => true
  | never => false
  | ref name => isTrue name
  | not e => !e.eval isTrue
  | all es => evalAll isTrue es
  | any es => evalAny isTrue es

/-- Whether all expressions are true. -/
def evalAll (isTrue : String → Bool) : List Expr → Bool
  | [] => true
  | e :: rest => e.eval isTrue && evalAll isTrue rest

/-- Whether some expression is true. -/
def evalAny (isTrue : String → Bool) : List Expr → Bool
  | [] => false
  | e :: rest => e.eval isTrue || evalAny isTrue rest

end

theorem evalAll_eq_all (isTrue : String → Bool) (es : List Expr) :
    evalAll isTrue es = es.all (·.eval isTrue) := by
  induction es with
  | nil => rfl
  | cons e rest ih => simp [evalAll, ih]

theorem evalAny_eq_any (isTrue : String → Bool) (es : List Expr) :
    evalAny isTrue es = es.any (·.eval isTrue) := by
  induction es with
  | nil => rfl
  | cons e rest ih => simp [evalAny, ih]

mutual

/-- The names in an expression, in the order in which they are met. -/
def mentions : Expr → List String
  | always | never => []
  | ref name => [name]
  | not e => e.mentions
  | all es | any es => mentionsOfAll es

/-- The names in all expressions of a list. -/
def mentionsOfAll : List Expr → List String
  | [] => []
  | e :: rest => e.mentions ++ mentionsOfAll rest

end

theorem mentionsOfAll_eq_flatMap (es : List Expr) : mentionsOfAll es = es.flatMap mentions := by
  induction es with
  | nil => rfl
  | cons e rest ih => simp [mentionsOfAll, ih]

/-- The names in an expression, ascending. -/
def refs (e : Expr) : List String := OrderedSet.ofList Ord.compare e.mentions

theorem mem_refs_iff {e : Expr} {name : String} : name ∈ e.refs ↔ name ∈ e.mentions :=
  OrderedSet.mem_ofList_iff Std.LawfulEqOrd.eq_of_compare

/-! ## Texts -/

mutual

/-- The text of an expression for people. -/
def display : Expr → String
  | always => "TRUE"
  | never => "FALSE"
  | ref name => name
  | not e => "(NOT " ++ e.display ++ ")"
  | all es => "(" ++ displayJoined " AND " es ++ ")"
  | any es => "(" ++ displayJoined " OR " es ++ ")"

/-- The texts of the expressions with a separator between them. -/
def displayJoined (separator : String) : List Expr → String
  | [] => ""
  | [e] => e.display
  | e :: next :: rest => e.display ++ separator ++ displayJoined separator (next :: rest)

end

mutual

def toJson : Expr → Json
  | always => .string "true"
  | never => .string "false"
  | ref name => .object [("ref", .string name)]
  | not e => .object [("not", e.toJson)]
  | all es => .object [("and", .array (listToJson es))]
  | any es => .object [("or", .array (listToJson es))]

/-- The forms of all expressions of a list. -/
def listToJson : List Expr → List Json
  | [] => []
  | e :: rest => e.toJson :: listToJson rest

end

theorem listToJson_eq_map (es : List Expr) : listToJson es = es.map toJson := by
  induction es with
  | nil => rfl
  | cons e rest ih => simp [listToJson, ih]

mutual

def ofJson? : Json → Option Expr
  | .string "true" => some always
  | .string "false" => some never
  | .object [(tag, content)] =>
    match tag, content with
    | "true", .null => some always
    | "false", .null => some never
    | "ref", .string name => some (ref name)
    | "not", operand => (ofJson? operand).map not
    | "and", .array items => (listOfJson? items).map allOf
    | "or", .array items => (listOfJson? items).map anyOf
    | _, _ => none
  | _ => none

/-- All expressions of a list. -/
def listOfJson? : List Json → Option (List Expr)
  | [] => some []
  | j :: rest => do
    let e ← ofJson? j
    let es ← listOfJson? rest
    return e :: es

end

end Expr

end FeatureFlags
