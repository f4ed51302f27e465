import FeatureFlags.Dict.Lemmas
import FeatureFlags.Proofs.Fallible
import FeatureFlags.Schema

/-!
# Values of a schema

`FieldType.Admits` says which values a type has, and `Schema.Conforms` which objects a schema has,
with nothing of how a value is filled in. `Schema.exists_expand_iff`: an object can be filled in
exactly if it conforms.

The check of a value is two functions that call each other, one for the types and one for the
fields of a struct, and so are the two lemmas on them. A field that is left out never fails: where
the type is a struct, an object without fields stands in for it, and every struct has that.
-/

namespace FeatureFlags

namespace FieldType

/-- The values of a type. Every type has `null`. A struct has the objects whose fields are all
fields of the struct and have values of their types; it need not have all fields. -/
inductive Admits : FieldType → Json → Prop
  | null (type : FieldType) : Admits type .null
  | bool (b : Bool) : Admits .bool (.bool b)
  | int (n : Int) : Admits .int (.number (.integer n))
  | double (n : JsonNumber) : Admits .double (.number n)
  | string (s : String) : Admits .string (.string s)
  | struct {fields : List (String × FieldType)} {value : List (String × Json)}
      (known : ∀ e ∈ value, e.1 ∈ fields.map (·.1))
      (admitted : ∀ e ∈ fields, ∀ j, Entries.get? e.1 value = some j → Admits e.2 j) :
      Admits (.struct fields) (.object value)
  | list {item : FieldType} {items : List Json} (admitted : ∀ j ∈ items, Admits item j) :
      Admits (.list item) (.array items)

variable {type item : FieldType} {fields : List (String × FieldType)} {value : List (String × Json)}
  {j : Json}

theorem admits_struct_iff :
    (struct fields).Admits (.object value) ↔
      (∀ e ∈ value, e.1 ∈ fields.map (·.1)) ∧
        ∀ e ∈ fields, ∀ j, Entries.get? e.1 value = some j → e.2.Admits j := by
  constructor
  · rintro ⟨⟩
    next known admitted => exact ⟨known, admitted⟩
  · rintro ⟨known, admitted⟩
    exact .struct known admitted

theorem admits_list_iff {items : List Json} :
    (list item).Admits (.array items) ↔ ∀ j ∈ items, item.Admits j := by
  constructor
  · rintro ⟨⟩
    next admitted => exact admitted
  · exact .list

theorem unknownField?_eq_none_iff :
    unknownField? fields value = none ↔ ∀ e ∈ value, e.1 ∈ fields.map (·.1) := by
  rw [unknownField?, Option.map_eq_none_iff, List.find?_eq_none]
  refine forall₂_congr fun e _ => ?_
  rw [← Entries.isSome_get?_iff]
  simp [Option.isSome_iff_ne_none]

theorem exists_checkItems_iff {check : String → Json → Except SchemaViolation Json}
    {items : List Json} (hcheck : ∀ path j, (∃ out, check path j = .ok out) ↔ item.Admits j)
    (path : String) (index : Nat) :
    (∃ out, checkItems check path index items = .ok out) ↔ ∀ j ∈ items, item.Admits j := by
  induction items generalizing index with
  | nil => simp [checkItems]
  | cons j rest ih =>
    rw [List.forall_mem_cons, ← hcheck (itemPath path index), ← ih (index + 1), checkItems]
    exact exists_both_eq_ok_iff

/-- The value that is checked for a field: what is given, or what stands in for it. -/
def filled (type : FieldType) (given : Option Json) : Json :=
  match type, given.getD .null with
  | struct _, .null => .object []
  | _, given => given

theorem admits_filled_iff (given : Option Json) :
    type.Admits (type.filled given) ↔ ∀ j, given = some j → type.Admits j := by
  have hnull : type.Admits (type.filled (some .null)) := by
    cases type with
    | struct fields => exact admits_struct_iff.mpr ⟨by simp, by simp⟩
    | bool | int | double | string | list _ => exact .null _
  cases given with
  | none => exact iff_of_true hnull (by simp)
  | some j =>
    cases j with
    | null => simpa [Admits.null] using hnull
    | bool _ | number _ | string _ | array _ | object _ | unreadable =>
      cases type <;> simp [filled]

theorem checkFields_cons (name : String) (type : FieldType) (rest : List (String × FieldType))
    (path : String) (value : List (String × Json)) :
    checkFields ((name, type) :: rest) path value =
      (do
        let checked ← check type (fieldPath path name) (type.filled (Entries.get? name value))
        let others ← checkFields rest path value
        return (name, checked) :: others) := by
  rfl

mutual

theorem exists_check_iff : (type : FieldType) → (path : String) → (j : Json) →
    ((∃ out, check type path j = .ok out) ↔ type.Admits j)
  | .bool, path, j => by
    cases j with
    | null => exact iff_of_true ⟨_, rfl⟩ (.null _)
    | bool b => exact iff_of_true ⟨_, rfl⟩ (.bool b)
    | number _ | string _ | array _ | object _ | unreadable =>
      exact iff_of_false (by rintro ⟨_, ⟨⟩⟩) (by rintro ⟨⟩)
  | .int, path, j => by
    cases j with
    | null => exact iff_of_true ⟨_, rfl⟩ (.null _)
    | number n =>
      cases n with
      | integer n => exact iff_of_true ⟨_, rfl⟩ (.int n)
      | double _ => exact iff_of_false (by rintro ⟨_, ⟨⟩⟩) (by rintro ⟨⟩)
    | bool _ | string _ | array _ | object _ | unreadable =>
      exact iff_of_false (by rintro ⟨_, ⟨⟩⟩) (by rintro ⟨⟩)
  | .double, path, j => by
    cases j with
    | null => exact iff_of_true ⟨_, rfl⟩ (.null _)
    | number n => exact iff_of_true ⟨_, rfl⟩ (.double n)
    | bool _ | string _ | array _ | object _ | unreadable =>
      exact iff_of_false (by rintro ⟨_, ⟨⟩⟩) (by rintro ⟨⟩)
  | .string, path, j => by
    cases j with
    | null => exact iff_of_true ⟨_, rfl⟩ (.null _)
    | string s => exact iff_of_true ⟨_, rfl⟩ (.string s)
    | bool _ | number _ | array _ | object _ | unreadable =>
      exact iff_of_false (by rintro ⟨_, ⟨⟩⟩) (by rintro ⟨⟩)
  | .struct fields, path, j => by
    cases j with
    | null => exact iff_of_true ⟨_, rfl⟩ (.null _)
    | object value =>
      rw [admits_struct_iff, ← exists_checkFields_iff fields path value,
        ← unknownField?_eq_none_iff, check]
      cases unknownField? fields value with
      | some name => simp
      | none =>
        rw [and_iff_right rfl]
        exact exists_map_eq_ok_iff
    | bool _ | number _ | string _ | array _ | unreadable =>
      exact iff_of_false (by rintro ⟨_, ⟨⟩⟩) (by rintro ⟨⟩)
  | .list item, path, j => by
    cases j with
    | null => exact iff_of_true ⟨_, rfl⟩ (.null _)
    | array items =>
      rw [admits_list_iff, ← exists_checkItems_iff (exists_check_iff item) path 0]
      exact exists_map_eq_ok_iff
    | bool _ | number _ | string _ | object _ | unreadable =>
      exact iff_of_false (by rintro ⟨_, ⟨⟩⟩) (by rintro ⟨⟩)

theorem exists_checkFields_iff : (fields : List (String × FieldType)) → (path : String) →
    (value : List (String × Json)) →
    ((∃ out, checkFields fields path value = .ok out) ↔
      ∀ e ∈ fields, ∀ j, Entries.get? e.1 value = some j → e.2.Admits j)
  | [], path, value => by simp [checkFields]
  | (name, type) :: rest, path, value => by
    have hrest := exists_checkFields_iff rest path value
    rw [List.forall_mem_cons, ← hrest, ← admits_filled_iff,
      ← exists_check_iff type (fieldPath path name), checkFields_cons]
    exact exists_both_eq_ok_iff

end

end FieldType

namespace Schema

/-- The objects of a schema. -/
def Conforms (s : Schema) (value : List (String × Json)) : Prop :=
  (FieldType.struct s.fields).Admits (.object value)

/-- An object can be filled in exactly if it conforms to the schema. -/
theorem exists_expand_iff {s : Schema} {value : List (String × Json)} :
    (∃ out, s.expand value = .ok out) ↔ s.Conforms value := by
  rw [Conforms, FieldType.admits_struct_iff, ← FieldType.exists_checkFields_iff s.fields "" value,
    ← FieldType.unknownField?_eq_none_iff, expand]
  cases FieldType.unknownField? s.fields value with
  | some name => simp
  | none => exact (and_iff_right rfl).symm

end Schema

end FeatureFlags
