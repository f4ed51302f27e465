import FeatureFlags.Decimal.Double
import FeatureFlags.Dict

/-!
# JSON trees

- `Json`: what a JSON text says. Objects list their fields as written, so a key
  may be repeated; `unreadable` stands where the text is well formed and denotes
  nothing.
- `Json.Normal`: the trees that are values: every object lists each key once, in
  ascending order, and every number is one that a text can denote.
- `Json.normalize?`: the value a tree denotes, where a later field replaces an
  earlier one under the same key.
-/

namespace FeatureFlags

/-- A number as JSON texts distinguish them: with a fraction or an exponent it is a double. -/
inductive JsonNumber where
  /-- A whole number, from -2^63 up to but excluding 2^64. -/
  | integer (value : Int)
  /-- A finite double. -/
  | double (value : Double)
  deriving DecidableEq, Repr

/-- What a JSON text says. -/
inductive Json where
  /-- The word `null`. -/
  | null
  /-- The word `true` or `false`. -/
  | bool (value : Bool)
  /-- A number. -/
  | number (value : JsonNumber)
  /-- A string. -/
  | string (value : String)
  /-- An array. -/
  | array (items : List Json)
  /-- An object, its fields as written. -/
  | object (fields : List (String × Json))
  /-- A well-formed text without a value: a string with half of a surrogate pair, a number beyond
  the doubles, or an array or object below the deepest level that is read. A reader passes over
  it where the value is not wanted. -/
  | unreadable
  deriving Repr, Inhabited

/-- The fields of an object, in the order written. -/
abbrev Fields := List (String × Json)

namespace JsonNumber

/-- The whole numbers a text can denote. -/
def inRange (n : Int) : Bool := -(Nat.pow 2 63 : Nat) ≤ n && n < (Nat.pow 2 64 : Nat)

/-- The numbers a text can denote. -/
def isNormal : JsonNumber → Bool
  | .integer n => inRange n
  | .double d => d.isFinite

/-- The double nearest to the number. -/
def toDouble : JsonNumber → Double
  | .integer n => .ofInt n
  | .double d => d

end JsonNumber

namespace Json

mutual

/-- Whether the tree is a value. -/
def isNormal : Json → Bool
  | .null | .bool _ | .string _ => true
  | .number n => n.isNormal
  | .array items => itemsNormal items
  | .object fields => decide (Entries.Ascending fields) && fieldsNormal fields
  | .unreadable => false

/-- Whether every item is a value. -/
def itemsNormal : List Json → Bool
  | [] => true
  | j :: rest => isNormal j && itemsNormal rest

/-- Whether every field holds a value. -/
def fieldsNormal : List (String × Json) → Bool
  | [] => true
  | (_, j) :: rest => isNormal j && fieldsNormal rest

end

/-- The tree is a value: keys ascend, numbers are in range, and all of it is readable. -/
def Normal (j : Json) : Prop := j.isNormal = true

instance (j : Json) : Decidable j.Normal := inferInstanceAs (Decidable (_ = true))

mutual

/-- The value a tree denotes; `none` if part of it is unreadable. -/
def normalize? : Json → Option Json
  | .null => some .null
  | .bool b => some (.bool b)
  | .number n => if n.isNormal then some (.number n) else none
  | .string s => some (.string s)
  | .array items => (normalizeItems? items).map .array
  | .object fields => (normalizeFields? fields).map fun fs => .object (Entries.ofList fs)
  | .unreadable => none

/-- The values of all items. -/
def normalizeItems? : List Json → Option (List Json)
  | [] => some []
  | j :: rest => do
    let j ← normalize? j
    let rest ← normalizeItems? rest
    return j :: rest

/-- The values of all fields, in the order written. -/
def normalizeFields? : List (String × Json) → Option (List (String × Json))
  | [] => some []
  | (key, j) :: rest => do
    let j ← normalize? j
    let rest ← normalizeFields? rest
    return (key, j) :: rest

end

/-! ## Normal trees -/

theorem itemsNormal_iff (items : List Json) :
    itemsNormal items = true ↔ ∀ j ∈ items, j.Normal := by
  induction items with
  | nil => simp [itemsNormal]
  | cons j rest ih => simp [itemsNormal, ih, Normal]

theorem fieldsNormal_iff (fields : List (String × Json)) :
    fieldsNormal fields = true ↔ ∀ e ∈ fields, e.2.Normal := by
  induction fields with
  | nil => simp [fieldsNormal]
  | cons e rest ih => obtain ⟨k, j⟩ := e; simp [fieldsNormal, ih, Normal]

theorem normal_array_iff (items : List Json) : (array items).Normal ↔ ∀ j ∈ items, j.Normal := by
  rw [← itemsNormal_iff]; simp [Normal, isNormal]

theorem normal_object_iff (fields : List (String × Json)) :
    (object fields).Normal ↔ Entries.Ascending fields ∧ ∀ e ∈ fields, e.2.Normal := by
  rw [← fieldsNormal_iff]; simp [Normal, isNormal]

private theorem forall_mem_foldl_insert {P : Json → Prop} (l acc : List (String × Json))
    (hl : ∀ e ∈ l, P e.2) (hacc : ∀ e ∈ acc, P e.2) :
    ∀ e ∈ l.foldl (fun acc e => Entries.insert e.1 e.2 acc) acc, P e.2 := by
  induction l generalizing acc with
  | nil => exact hacc
  | cons head rest ih =>
    refine ih _ (fun e he => hl e (List.mem_cons_of_mem _ he)) fun e he => ?_
    rcases Entries.mem_insert he with rfl | he
    · exact hl _ List.mem_cons_self
    · exact hacc e he

/-- Sorting fields that hold values gives an object that is a value. -/
theorem normal_object_ofList {fields : List (String × Json)} (h : ∀ e ∈ fields, e.2.Normal) :
    (object (Entries.ofList fields)).Normal :=
  (normal_object_iff _).2
    ⟨Entries.ascending_ofList fields, forall_mem_foldl_insert fields [] h (by simp)⟩

mutual

/-- What a tree denotes is a value. -/
theorem normal_of_normalize? : {j v : Json} → j.normalize? = some v → v.Normal
  | .null, v, h => by simp only [normalize?, Option.some.injEq] at h; subst h; rfl
  | .bool _, v, h => by simp only [normalize?, Option.some.injEq] at h; subst h; rfl
  | .string _, v, h => by simp only [normalize?, Option.some.injEq] at h; subst h; rfl
  | .number n, v, h => by
    simp only [normalize?] at h
    split at h
    · next hn => cases h; exact hn
    · cases h
  | .array items, v, h => by
    simp only [normalize?, Option.map_eq_some_iff] at h
    obtain ⟨vs, hvs, rfl⟩ := h
    exact (normal_array_iff vs).2 (normal_of_normalizeItems? hvs)
  | .object fields, v, h => by
    simp only [normalize?, Option.map_eq_some_iff] at h
    obtain ⟨fs, hfs, rfl⟩ := h
    exact normal_object_ofList (normal_of_normalizeFields? hfs)
  | .unreadable, v, h => by simp [normalize?] at h

theorem normal_of_normalizeItems? : {items vs : List Json} →
    normalizeItems? items = some vs → ∀ j ∈ vs, j.Normal
  | [], vs, h => by simp only [normalizeItems?, Option.some.injEq] at h; subst h; simp
  | j :: rest, vs, h => by
    simp only [normalizeItems?, Option.bind_eq_bind, Option.pure_def,
      Option.bind_eq_some_iff, Option.some.injEq] at h
    obtain ⟨v, hv, ws, hws, rfl⟩ := h
    intro w hw
    rcases List.mem_cons.1 hw with rfl | hw
    · exact normal_of_normalize? hv
    · exact normal_of_normalizeItems? hws w hw

theorem normal_of_normalizeFields? : {fields fs : List (String × Json)} →
    normalizeFields? fields = some fs → ∀ e ∈ fs, e.2.Normal
  | [], fs, h => by simp only [normalizeFields?, Option.some.injEq] at h; subst h; simp
  | (key, j) :: rest, fs, h => by
    simp only [normalizeFields?, Option.bind_eq_bind, Option.pure_def,
      Option.bind_eq_some_iff, Option.some.injEq] at h
    obtain ⟨v, hv, ws, hws, rfl⟩ := h
    intro w hw
    rcases List.mem_cons.1 hw with rfl | hw
    · exact normal_of_normalize? hv
    · exact normal_of_normalizeFields? hws w hw

end

end Json

end FeatureFlags
