/-!
# Sets as ascending lists

A set over a type with a comparison is the list of its members in strictly
ascending order. `insert` and `ofList` keep that order.
-/

namespace FeatureFlags.OrderedSet

universe u

variable {α : Type u}

/-- Every member comes before all that follow it. -/
def Strict (cmp : α → α → Ordering) (set : List α) : Prop :=
  set.Pairwise fun a b => cmp a b = .lt

/-- Add a member. -/
def insert (cmp : α → α → Ordering) (a : α) : List α → List α
  | [] => [a]
  | x :: rest =>
    match cmp a x with
    | .lt => a :: x :: rest
    | .eq => x :: rest
    | .gt => x :: insert cmp a rest

/-- Add all members of a list. -/
def insertAll (cmp : α → α → Ordering) (set items : List α) : List α :=
  items.foldl (fun acc a => insert cmp a acc) set

/-- The set of the listed members. -/
def ofList (cmp : α → α → Ordering) (items : List α) : List α := insertAll cmp [] items

variable {cmp : α → α → Ordering}

theorem mem_insert_iff (eq_of_cmp : ∀ {a b : α}, cmp a b = .eq → a = b) {a b : α}
    {set : List α} : b ∈ insert cmp a set ↔ b = a ∨ b ∈ set := by
  induction set with
  | nil => simp [insert]
  | cons x rest ih =>
    unfold insert
    split
    · simp
    · next h => have := eq_of_cmp h; subst this; simp
    · simp [ih, or_left_comm]

theorem mem_insertAll_iff (eq_of_cmp : ∀ {a b : α}, cmp a b = .eq → a = b) {b : α}
    {set items : List α} : b ∈ insertAll cmp set items ↔ b ∈ set ∨ b ∈ items := by
  unfold insertAll
  induction items generalizing set with
  | nil => simp
  | cons x rest ih => simp [ih, mem_insert_iff eq_of_cmp, or_assoc, or_left_comm]

/-- The set has the members of the list. -/
theorem mem_ofList_iff (eq_of_cmp : ∀ {a b : α}, cmp a b = .eq → a = b) {b : α}
    {items : List α} : b ∈ ofList cmp items ↔ b ∈ items := by
  simp [ofList, mem_insertAll_iff eq_of_cmp]

end FeatureFlags.OrderedSet
