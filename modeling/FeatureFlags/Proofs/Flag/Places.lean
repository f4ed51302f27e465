import FeatureFlags.Proofs.Flag.Expansion
import Mathlib.Data.List.Forall2

/-!
# Values place by place

Expanding a value adds to it and changes nothing (`Schema.expand_conservative`): it succeeds exactly
if at every place of the value the schema has a type that fits, what stands at a place stays there
unless it is `null`, what is new is `null` wherever it is not an object, and there is nothing left
to add when the result is expanded again.

- `FieldType.Fits` compares a type with what stands at one place, without going further down.
  `FieldType.admits_iff_fits` says that a value is of a type if it fits place by place.
- `FieldType.Expands.exists_at?` goes down to a place of the given value and finds the type and the
  expansion there; `FieldType.Expands.eq_null_of_at?_eq_none` goes down to a place of the result.
- `FieldType.Expands.check_eq_ok`: an expanded value expands to itself.
-/

namespace FeatureFlags

section Related

variable {α β : Type} {r : α → β → Prop}

theorem forall₂_of_getElem? {as : List α} {bs : List β}
    (h : ∀ i : Nat, Option.Rel r as[i]? bs[i]?) : List.Forall₂ r as bs := by
  induction as generalizing bs with
  | nil =>
    cases bs with
    | nil => exact .nil
    | cons b bs => cases h 0
  | cons a as ih =>
    cases bs with
    | nil => cases h 0
    | cons b bs =>
      cases h 0 with
      | some hab => exact .cons hab (ih fun i => h (i + 1))

end Related

/-- Names that ascend in one listing ascend in another. -/
theorem Entries.Ascending.of_names {α β : Type} {entries : List (String × α)}
    {others : List (String × β)} (h : Ascending entries)
    (hnames : others.map (·.1) = entries.map (·.1)) : Ascending others := by
  have hpairwise : (entries.map (·.1)).Pairwise (· < ·) := List.pairwise_map.mpr h
  rw [← hnames] at hpairwise
  exact List.pairwise_map.mp hpairwise

namespace Json

/-- Neither an object nor an array. -/
def IsLeaf : Json → Prop
  | .object _ | .array _ => False
  | _ => True

end Json

namespace FieldType

variable {type item : FieldType} {fields : List (String × FieldType)} {j out found below : Json}
  {place : List Step}

/-! ## Types, place by place -/

/-- What is said of the types of the fields and items of a type can be said of the type. -/
theorem induction {motive : FieldType → Prop} (bool : motive .bool) (int : motive .int)
    (double : motive .double) (string : motive .string)
    (struct : ∀ fields : List (String × FieldType), (∀ e ∈ fields, motive e.2) →
      motive (.struct fields))
    (list : ∀ item, motive item → motive (.list item)) : (type : FieldType) → motive type
  | .bool => bool
  | .int => int
  | .double => double
  | .string => string
  | .struct fields => struct fields fun e he =>
      have : sizeOf e.2 < 1 + sizeOf fields := by
        have hsize := List.sizeOf_lt_of_mem he
        obtain ⟨name, type⟩ := e
        simp only [Prod.mk.sizeOf_spec] at hsize ⊢
        omega
      induction bool int double string struct list e.2
  | .list item => list item (induction bool int double string struct list item)

theorem ordered_struct_iff :
    (struct fields).Ordered ↔ Entries.Ascending fields ∧ ∀ e ∈ fields, e.2.Ordered := by
  have hfields : FieldsOrdered fields ↔ ∀ e ∈ fields, e.2.Ordered := by
    induction fields with
    | nil => simp [FieldsOrdered]
    | cons e rest ih => simp [FieldsOrdered, ih]
  rw [Ordered, hfields]

/-- Whether a value can be of a type, as far as can be told without its fields and items. -/
inductive Fits : FieldType → Json → Prop
  | null (type : FieldType) : Fits type .null
  | bool (b : Bool) : Fits .bool (.bool b)
  | int (n : Int) : Fits .int (.number (.integer n))
  | double (n : JsonNumber) : Fits .double (.number n)
  | string (s : String) : Fits .string (.string s)
  | struct (fields : List (String × FieldType)) (value : List (String × Json)) :
      Fits (.struct fields) (.object value)
  | list (item : FieldType) (items : List Json) : Fits (.list item) (.array items)

theorem Admits.fits (h : type.Admits j) : type.Fits j := by
  cases h with
  | null => exact .null type
  | bool b => exact .bool b
  | int n => exact .int n
  | double n => exact .double n
  | string s => exact .string s
  | struct => exact .struct _ _
  | list => exact .list _ _

/-- At every place of the value there is a type, and what stands there fits it. -/
def FitsThroughout (type : FieldType) (j : Json) : Prop :=
  ∀ place found, Json.at? place j = some found →
    ∃ expected, at? place type = some expected ∧ expected.Fits found

namespace FitsThroughout

variable {value : List (String × Json)} {items : List Json} {name : String} {child : Json}

theorem fits (h : type.FitsThroughout j) : type.Fits j := by
  obtain ⟨_, ⟨⟩, hfits⟩ := h [] j rfl
  exact hfits

theorem of_field (h : (struct fields).FitsThroughout (.object value))
    (hchild : Entries.get? name value = some child) :
    ∃ expected, Entries.get? name fields = some expected ∧ expected.FitsThroughout child := by
  -- the places of the field are places of the object
  have hplace : ∀ place found, Json.at? place child = some found →
      ∃ expected inner, Entries.get? name fields = some expected ∧
        at? place expected = some inner ∧ inner.Fits found := by
    intro place found hfound
    obtain ⟨inner, hinner, hfits⟩ := h (.field name :: place) found
      (Json.at?_field_eq_some_iff.mpr ⟨value, child, rfl, hchild, hfound⟩)
    obtain ⟨_, expected, ⟨⟩, hexpected, hinner⟩ := at?_field_eq_some_iff.mp hinner
    exact ⟨expected, inner, hexpected, hinner, hfits⟩
  obtain ⟨expected, -, hexpected, -⟩ := hplace [] child rfl
  refine ⟨expected, hexpected, fun place found hfound => ?_⟩
  obtain ⟨expected', inner, hexpected', hinner, hfits⟩ := hplace place found hfound
  rw [hexpected] at hexpected'
  cases hexpected'
  exact ⟨inner, hinner, hfits⟩

theorem of_item (h : (list item).FitsThroughout (.array items)) (hchild : child ∈ items) :
    item.FitsThroughout child := by
  obtain ⟨index, hindex⟩ := List.mem_iff_getElem?.mp hchild
  intro place found hfound
  obtain ⟨inner, hinner, hfits⟩ := h (.item index :: place) found
    (Json.at?_item_eq_some_iff.mpr ⟨items, child, rfl, hindex, hfound⟩)
  obtain ⟨_, ⟨⟩, hinner⟩ := at?_item_eq_some_iff.mp hinner
  exact ⟨inner, hinner, hfits⟩

end FitsThroughout

/-- Only a struct has an object, and it has a type for every field that is given. -/
theorem Admits.of_object {value : List (String × Json)} (h : type.Admits (.object value)) :
    ∃ fields, type = .struct fields ∧ ∀ name child, Entries.get? name value = some child →
      ∃ expected, Entries.get? name fields = some expected ∧ expected.Admits child := by
  cases h with
  | @struct fields value known admitted =>
    refine ⟨fields, rfl, fun name child hchild => ?_⟩
    have hknown := known _ (Entries.mem_of_get?_eq_some hchild)
    obtain ⟨expected, hexpected⟩ :=
      Option.isSome_iff_exists.mp (Entries.isSome_get?_iff.mpr hknown)
    exact ⟨expected, hexpected, admitted _ (Entries.mem_of_get?_eq_some hexpected) child hchild⟩

/-- Only a list has an array. -/
theorem Admits.of_array {items : List Json} (h : type.Admits (.array items)) :
    ∃ item, type = .list item ∧ ∀ child ∈ items, item.Admits child := by
  cases h with
  | @list item items admitted => exact ⟨item, rfl, admitted⟩

theorem Admits.fitsThroughout (h : type.Admits j) : type.FitsThroughout j := by
  intro place found hj
  induction place generalizing type j with
  | nil =>
    cases hj
    exact ⟨type, rfl, h.fits⟩
  | cons step rest ih =>
    cases step with
    | field name =>
      obtain ⟨value, child, rfl, hchild, hfound⟩ := Json.at?_field_eq_some_iff.mp hj
      obtain ⟨fields, rfl, hfields⟩ := h.of_object
      obtain ⟨expected, hexpected, hadmits⟩ := hfields name child hchild
      obtain ⟨inner, hinner, hfits⟩ := ih hadmits hfound
      exact ⟨inner, at?_field_eq_some_iff.mpr ⟨fields, expected, rfl, hexpected, hinner⟩, hfits⟩
    | item index =>
      obtain ⟨items, child, rfl, hchild, hfound⟩ := Json.at?_item_eq_some_iff.mp hj
      obtain ⟨item, rfl, hitems⟩ := h.of_array
      obtain ⟨inner, hinner, hfits⟩ := ih (hitems child (List.mem_of_getElem? hchild)) hfound
      exact ⟨inner, at?_item_eq_some_iff.mpr ⟨item, rfl, hinner⟩, hfits⟩

theorem FitsThroughout.admits (h : type.FitsThroughout j) (hordered : type.Ordered) :
    type.Admits j := by
  have hfits := h.fits
  induction type using FieldType.induction generalizing j with
  | bool =>
    cases hfits with
    | null => exact .null _
    | bool b => exact .bool b
  | int =>
    cases hfits with
    | null => exact .null _
    | int n => exact .int n
  | double =>
    cases hfits with
    | null => exact .null _
    | double n => exact .double n
  | string =>
    cases hfits with
    | null => exact .null _
    | string s => exact .string s
  | struct fields ih =>
    cases hfits with
    | null => exact .null _
    | struct fields value =>
      obtain ⟨hascending, hordered⟩ := ordered_struct_iff.mp hordered
      refine .struct ?_ ?_
      · intro e he
        obtain ⟨child, hchild⟩ := Option.isSome_iff_exists.mp
          (Entries.isSome_get?_iff.mpr (List.mem_map_of_mem (f := (·.1)) he))
        obtain ⟨expected, hexpected, -⟩ := h.of_field hchild
        exact Entries.isSome_get?_iff.mp (Option.isSome_of_eq_some hexpected)
      · intro e he child hchild
        obtain ⟨expected, hexpected, hplaces⟩ := h.of_field hchild
        rw [hascending.get?_eq_some_iff.mpr he] at hexpected
        cases hexpected
        exact ih e he hplaces (hordered e he) hplaces.fits
  | list item ih =>
    cases hfits with
    | null => exact .null _
    | list item items =>
      exact .list fun child hchild => ih (h.of_item hchild) hordered (h.of_item hchild).fits

/-- A value is of a type exactly if it fits place by place. -/
theorem admits_iff_fitsThroughout (hordered : type.Ordered) :
    type.Admits j ↔ type.FitsThroughout j :=
  ⟨Admits.fitsThroughout, fun h => h.admits hordered⟩

/-! ## Places of the given value -/

/-- What has no places of its own is left as it is. -/
theorem Admits.check_eq_ok (h : type.Admits j) (hleaf : j.IsLeaf) (path : String) :
    check type path j = .ok j := by
  cases h with
  | null => cases type <;> rfl
  | bool | int | double | string => rfl
  | struct | list => exact absurd hleaf id

namespace Expands

theorem admits (h : type.Expands j out) : type.Admits j := by
  obtain ⟨path, h⟩ := h
  exact (exists_check_iff type path j).mp ⟨out, h⟩

theorem eq_of_isLeaf (h : type.Expands j out) (hleaf : j.IsLeaf) : out = j := by
  have hadmits := h.admits
  obtain ⟨path, h⟩ := h
  rw [hadmits.check_eq_ok hleaf path] at h
  exact (Except.ok.inj h).symm

/-- The items of an array are expanded where they stand. -/
theorem of_array {items : List Json} (h : type.Expands (.array items) out) :
    ∃ item outs, type = list item ∧ out = .array outs ∧ List.Forall₂ item.Expands items outs := by
  obtain ⟨item, rfl, -⟩ := h.admits.of_array
  obtain ⟨⟨⟩, -⟩ | ⟨_, outs, ⟨⟩, rfl, hitems⟩ := h.of_list
  exact ⟨item, outs, rfl, rfl, forall₂_of_getElem? hitems⟩

/-- What stands at a place of the value, and is not `null`, is expanded at that place. -/
theorem exists_at? (h : type.Expands j out) (hj : Json.at? place j = some found)
    (hne : found ≠ .null) :
    ∃ expected below, at? place type = some expected ∧ Json.at? place out = some below ∧
      expected.Expands found below := by
  induction place generalizing type j out with
  | nil =>
    cases hj
    exact ⟨type, out, rfl, rfl, h⟩
  | cons step rest ih =>
    cases step with
    | field name =>
      obtain ⟨value, child, rfl, hchild, hfound⟩ := Json.at?_field_eq_some_iff.mp hj
      obtain ⟨fields, rfl, hfields⟩ := h.admits.of_object
      obtain ⟨expected, hexpected, -⟩ := hfields name child hchild
      obtain ⟨⟨⟩, -⟩ | ⟨_, outs, ⟨⟩, rfl, -, hvalues⟩ := h.of_struct
      have hvalue := hvalues name
      rw [hexpected, hchild] at hvalue
      obtain ⟨childOut, hchildOut, hvalue⟩ := exists_of_rel_left hvalue
      -- nothing stands in for the field, as it is not `null`
      have hchildNe : child ≠ .null := by
        rintro rfl
        cases rest with
        | nil =>
          cases hfound
          exact hne rfl
        | cons step rest => exact Json.ne_null_of_at? (List.cons_ne_nil _ _) hfound rfl
      rw [filled_some_of_ne_null expected hchildNe] at hvalue
      obtain ⟨inner, below, hinner, hbelow, hexpands⟩ := ih hvalue hfound
      exact ⟨inner, below, at?_field_eq_some_iff.mpr ⟨fields, expected, rfl, hexpected, hinner⟩,
        Json.at?_field_eq_some_iff.mpr ⟨outs, childOut, rfl, hchildOut, hbelow⟩, hexpands⟩
    | item index =>
      obtain ⟨items, child, rfl, hchild, hfound⟩ := Json.at?_item_eq_some_iff.mp hj
      obtain ⟨item, rfl, -⟩ := h.admits.of_array
      obtain ⟨⟨⟩, -⟩ | ⟨_, outs, ⟨⟩, rfl, hitems⟩ := h.of_list
      have hitem := hitems index
      rw [hchild] at hitem
      obtain ⟨childOut, hchildOut, hitem⟩ := exists_of_rel_left hitem
      obtain ⟨inner, below, hinner, hbelow, hexpands⟩ := ih hitem hfound
      exact ⟨inner, below, at?_item_eq_some_iff.mpr ⟨item, rfl, hinner⟩,
        Json.at?_item_eq_some_iff.mpr ⟨outs, childOut, rfl, hchildOut, hbelow⟩, hexpands⟩

/-! ## Places of the result -/

theorem of_object_out {outs : List (String × Json)} (h : type.Expands j (.object outs)) :
    ∃ fields value, type = struct fields ∧ j = .object value := by
  cases h.admits with
  | null => cases expands_null_iff.mp h
  | bool | int | double | string => cases h.eq_of_isLeaf trivial
  | @struct fields value => exact ⟨fields, value, rfl, rfl⟩
  | list => obtain ⟨_, _, -, ⟨⟩, -⟩ := h.of_array

theorem of_array_out {outs : List Json} (h : type.Expands j (.array outs)) :
    ∃ item items, type = list item ∧ j = .array items := by
  cases h.admits with
  | null => cases expands_null_iff.mp h
  | bool | int | double | string => cases h.eq_of_isLeaf trivial
  | struct => obtain ⟨⟨⟩, -⟩ | ⟨_, _, -, ⟨⟩, -⟩ := h.of_struct
  | @list item items => exact ⟨item, items, rfl, rfl⟩

/-- What the result has at a place that the value lacks is `null`, or has places of its own. -/
theorem eq_null_of_at?_eq_none (h : type.Expands j out) (hout : Json.at? place out = some below)
    (hleaf : below.IsLeaf) (hj : Json.at? place j = none) : below = .null := by
  induction place generalizing type j out with
  | nil => cases hj
  | cons step rest ih =>
    cases step with
    | field name =>
      obtain ⟨outs, childOut, rfl, hchildOut, hbelow⟩ := Json.at?_field_eq_some_iff.mp hout
      obtain ⟨fields, value, rfl, rfl⟩ := h.of_object_out
      obtain ⟨⟨⟩, -⟩ | ⟨_, _, ⟨⟩, ⟨⟩, -, hvalues⟩ := h.of_struct
      have hvalue := hvalues name
      rw [hchildOut] at hvalue
      obtain ⟨expected, -, hvalue⟩ := exists_of_rel_right hvalue
      rw [Json.at?, Option.bind_eq_none_iff] at hj
      cases rest with
      | nil =>
        -- the field itself was not given
        have hmissing : Entries.get? name value = none :=
          Option.eq_none_iff_forall_ne_some.mpr fun child hchild =>
            Option.some_ne_none child (hj child hchild)
        cases hbelow
        rw [hmissing] at hvalue
        rcases expected.filled_cases none with heq | ⟨⟨fields, rfl⟩, -, heq⟩
        · rw [heq] at hvalue
          exact expands_null_iff.mp hvalue
        · rw [heq] at hvalue
          obtain ⟨⟨⟩, -⟩ | ⟨_, _, -, rfl, -⟩ := hvalue.of_struct
          exact absurd hleaf id
      | cons step rest =>
        refine ih hvalue hbelow (Option.eq_none_iff_forall_ne_some.mpr fun found hfound => ?_)
        obtain ⟨child, hchild, hfound⟩ := exists_of_at?_filled (List.cons_ne_nil _ _) hfound
        rw [hj child hchild] at hfound
        cases hfound
    | item index =>
      obtain ⟨outs, childOut, rfl, hchildOut, hbelow⟩ := Json.at?_item_eq_some_iff.mp hout
      obtain ⟨item, items, rfl, rfl⟩ := h.of_array_out
      obtain ⟨⟨⟩, -⟩ | ⟨_, _, ⟨⟩, ⟨⟩, hitems⟩ := h.of_list
      have hitem := hitems index
      rw [hchildOut] at hitem
      obtain ⟨child, hchild, hitem⟩ := exists_of_rel_right hitem
      refine ih hitem hbelow ?_
      rw [Json.at?, hchild] at hj
      exact hj

end Expands

/-! ## Expanding again -/

theorem checkFields_eq_ok {path : String} {value outs : List (String × Json)}
    (h : List.Forall₂ (fun f o => f.1 = o.1 ∧
      check f.2 (fieldPath path f.1) (f.2.filled (Entries.get? f.1 value)) = .ok o.2) fields outs) :
    checkFields fields path value = .ok outs := by
  induction h with
  | nil => rfl
  | @cons f o fields outs hfirst _ ih =>
    obtain ⟨name, type⟩ := f
    obtain ⟨_, checked⟩ := o
    obtain ⟨rfl, hchecked⟩ := hfirst
    rw [checkFields_cons]
    exact bind_eq_ok_iff.mpr ⟨checked, hchecked, bind_eq_ok_iff.mpr ⟨outs, ih, rfl⟩⟩

theorem checkItems_eq_ok {path : String} {index : Nat} {items : List Json}
    (h : ∀ j ∈ items, ∀ path, check item path j = .ok j) :
    checkItems (check item) path index items = .ok items := by
  induction items generalizing index with
  | nil => rfl
  | cons j rest ih =>
    obtain ⟨hfirst, hrest⟩ := List.forall_mem_cons.mp h
    rw [checkItems]
    exact bind_eq_ok_iff.mpr ⟨j, hfirst _, bind_eq_ok_iff.mpr ⟨rest, ih hrest, rfl⟩⟩

theorem forall₂_of_names {outs : List (String × Json)} (h : outs.map (·.1) = fields.map (·.1)) :
    List.Forall₂ (fun f o => f.1 = o.1) fields outs := by
  rw [← List.forall₂_map_right_iff (f := fun o : String × Json => o.1),
    ← List.forall₂_map_left_iff (f := fun f : String × FieldType => f.1), List.forall₂_eq_eq_eq]
  exact h.symm

namespace Expands

/-- Nothing stands in for what was expanded. -/
theorem filled_eq {given : Option Json} (h : type.Expands (type.filled given) out) :
    type.filled (some out) = out := by
  rcases type.filled_cases (some out) with heq | ⟨⟨fields, rfl⟩, rfl, -⟩
  · exact heq
  · obtain ⟨hnull, -⟩ | ⟨_, _, -, ⟨⟩, -⟩ := h.of_struct
    exact absurd hnull (filled_struct_ne_null given)

/-- An expanded value expands to itself. -/
theorem check_eq_ok (h : type.Expands j out) (hordered : type.Ordered) (path : String) :
    check type path out = .ok out := by
  induction type using FieldType.induction generalizing j out path with
  | bool | int | double | string =>
    have hleaf : j.IsLeaf := by cases h.admits <;> trivial
    rw [h.eq_of_isLeaf hleaf]
    exact h.admits.check_eq_ok hleaf path
  | struct fields ih =>
    obtain ⟨hascending, hordered⟩ := ordered_struct_iff.mp hordered
    obtain ⟨-, rfl⟩ | ⟨value, outs, rfl, rfl, hnames, hvalues⟩ := h.of_struct
    · rfl
    · have hknown : unknownField? fields outs = none := by
        rw [unknownField?_eq_none_iff, ← hnames]
        exact fun e he => List.mem_map_of_mem he
      have hchecked : checkFields fields path outs = .ok outs := by
        obtain ⟨hlength, hzip⟩ := List.forall₂_iff_zip.mp (forall₂_of_names hnames)
        refine checkFields_eq_ok (List.forall₂_iff_zip.mpr ⟨hlength, fun {f o} hfo => ?_⟩)
        obtain ⟨hf, ho⟩ := List.of_mem_zip hfo
        have hname : f.1 = o.1 := hzip hfo
        have hout : Entries.get? f.1 outs = some o.2 := by
          rw [hname]
          exact (hascending.of_names hnames).get?_eq_some_iff.mpr ho
        have hvalue := hvalues f.1
        rw [hascending.get?_eq_some_iff.mpr hf, hout] at hvalue
        obtain ⟨hvalue⟩ := hvalue
        rw [hout, hvalue.filled_eq]
        exact ⟨hname, ih f hf hvalue (hordered f hf) _⟩
      rw [check, hknown]
      exact map_eq_ok_iff.mpr ⟨outs, hchecked, rfl⟩
  | list item ih =>
    obtain ⟨-, rfl⟩ | ⟨items, outs, rfl, rfl, hitems⟩ := h.of_list
    · rfl
    · rw [check, checkItems_eq_ok]
      · rfl
      · intro o ho path
        obtain ⟨index, hindex⟩ := List.mem_iff_getElem?.mp ho
        have hitem := hitems index
        rw [hindex] at hitem
        obtain ⟨given, -, hitem⟩ := exists_of_rel_right hitem
        exact ih hitem hordered path

end Expands

end FieldType

/-! ## Expanding by a schema -/

namespace Schema

variable {s : Schema} {value out : List (String × Json)}

theorem expand_eq_ok_iff :
    s.expand value = .ok out ↔
      (FieldType.struct s.fields).check "" (.object value) = .ok (.object out) := by
  rw [expand, FieldType.check]
  split
  · exact iff_of_false (fun h => by cases h) (fun h => by cases h)
  · rw [map_eq_ok_iff]
    constructor
    · intro h
      exact ⟨out, h, rfl⟩
    · rintro ⟨_, h, ⟨⟩⟩
      exact h

/-- **What expanding a value does to it.** It succeeds exactly if the value fits the schema at every
place. Then the result has just the fields of the schema; what stands in the value stays at its
place, unless it is `null` or has places of its own; a list keeps its items in their places, each
expanded; where the value has nothing the result has `null`, or more such places; and the result
expands to itself. -/
theorem expand_conservative (s : Schema) (value : List (String × Json))
    (hordered : (FieldType.struct s.fields).Ordered) :
    ((∃ out, s.expand value = .ok out) ↔
      (FieldType.struct s.fields).FitsThroughout (.object value)) ∧
    ∀ out, s.expand value = .ok out →
      out.map (·.1) = s.fields.map (·.1) ∧
      (∀ place found, Json.at? place (.object value) = some found → found.IsLeaf →
        found ≠ .null → Json.at? place (.object out) = some found) ∧
      (∀ place items, Json.at? place (.object value) = some (.array items) →
        ∃ item outs, s.at? place = some (.list item) ∧
          Json.at? place (.object out) = some (.array outs) ∧
          List.Forall₂ item.Expands items outs) ∧
      (∀ place below, Json.at? place (.object out) = some below → below.IsLeaf →
        Json.at? place (.object value) = none → below = .null) ∧
      s.expand out = .ok out := by
  refine ⟨?_, ?_⟩
  · rw [exists_expand_iff]
    exact FieldType.admits_iff_fitsThroughout hordered
  · intro out hexpand
    have h := expands_of_expand hexpand
    refine ⟨?_, ?_, ?_, fun place below => h.eq_null_of_at?_eq_none,
      expand_eq_ok_iff.mpr (h.check_eq_ok hordered "")⟩
    · obtain ⟨⟨⟩, -⟩ | ⟨_, _, ⟨⟩, ⟨⟩, hnames, -⟩ := h.of_struct
      exact hnames
    · intro place found hfound hleaf hne
      obtain ⟨expected, below, -, hbelow, hexpands⟩ := h.exists_at? hfound hne
      rw [hbelow, hexpands.eq_of_isLeaf hleaf]
    · intro place items hitems
      obtain ⟨expected, below, hexpected, hbelow, hexpands⟩ := h.exists_at? hitems (by simp)
      obtain ⟨item, outs, rfl, rfl, hall⟩ := hexpands.of_array
      exact ⟨item, outs, hexpected, hbelow, hall⟩

/-- A schema with a list of structs and a struct. -/
def ofWindows : Schema :=
  ⟨[("hours", .struct [("from", .int), ("to", .int)]),
    ("limits", .list (.struct [("max", .int), ("min", .double)]))]⟩

/-- A value with one of the limits and without hours. -/
def someLimits : List (String × Json) :=
  [("limits", .array [.object [("max", .number (.integer 3))], .null])]

/-- The value with all that is missing. -/
def allLimits : List (String × Json) :=
  [("hours", .object [("from", .null), ("to", .null)]),
    ("limits", .array [.object [("max", .number (.integer 3)), ("min", .null)], .null])]

/-- The maximum stays, the minimum and the hours are filled in, and then nothing is missing. -/
theorem limits_filled_in_once :
    (FieldType.struct ofWindows.fields).Ordered ∧ ofWindows.expand someLimits = .ok allLimits ∧
      Json.at? [.field "limits", .item 0, .field "max"] (.object allLimits) =
        some (.number (.integer 3)) ∧
      ofWindows.expand allLimits = .ok allLimits := by
  have hordered : (FieldType.struct ofWindows.fields).Ordered :=
    ⟨by decide +kernel, ⟨by decide +kernel, trivial, trivial, trivial⟩,
      ⟨by decide +kernel, trivial, trivial, trivial⟩, trivial⟩
  have hexpand : ofWindows.expand someLimits = .ok allLimits := rfl
  obtain ⟨-, hout⟩ := expand_conservative ofWindows someLimits hordered
  obtain ⟨-, hkept, -, -, hagain⟩ := hout allLimits hexpand
  exact ⟨hordered, hexpand, hkept _ _ rfl trivial (by simp), hagain⟩

end Schema

end FeatureFlags
