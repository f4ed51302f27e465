import FeatureFlags.Proofs.Flag.Conformance

/-!
# Expanded values

A place in a value is told by the steps that lead there from its root (`Json.at?`), and the same
steps lead through the types of a schema (`FieldType.at?`).

`Schema.expand_completes_iff`: where a schema has a struct, an expanded value has an object with all
its fields, unless it is an item of a list and `null` in the given value: a field without a value is
filled in, but an item stays `null`. So an expanded value is complete exactly if the given one has
no such items.

`FieldType.Expands` is the check of a value with nothing said of the path that an error would name.
Both directions go down step by step, as the place says, with what the check did to a struct or a
list (`FieldType.Expands.of_struct`, `FieldType.Expands.of_list`).
-/

namespace FeatureFlags

section Related

variable {α β : Type} {r : α → β → Prop} {a : α} {b : β}

theorem exists_of_rel_left {other : Option β} (h : Option.Rel r (some a) other) :
    ∃ b, other = some b ∧ r a b := by
  cases h with
  | some hab => exact ⟨_, rfl, hab⟩

theorem exists_of_rel_right {other : Option α} (h : Option.Rel r other (some b)) :
    ∃ a, other = some a ∧ r a b := by
  cases h with
  | some hab => exact ⟨_, rfl, hab⟩

end Related

/-! ## Places -/

/-- A step down in a value. -/
inductive Step where
  /-- Into the field of an object. -/
  | field (name : String)
  /-- Into the item of an array. -/
  | item (index : Nat)
  deriving DecidableEq, Repr

namespace Json

/-- What stands at a place. -/
def at? : List Step → Json → Option Json
  | [], j => some j
  | .field name :: rest, .object fields => (Entries.get? name fields).bind (at? rest)
  | .item index :: rest, .array items => items[index]?.bind (at? rest)
  | _ :: _, _ => none

variable {rest : List Step} {j found : Json} {name : String} {index : Nat}

theorem at?_field_eq_some_iff :
    at? (.field name :: rest) j = some found ↔
      ∃ fields child, j = .object fields ∧ Entries.get? name fields = some child ∧
        at? rest child = some found := by
  cases j with
  | object fields => simp [at?, Option.bind_eq_some_iff]
  | null | bool _ | number _ | string _ | array _ | unreadable => simp [at?]

theorem at?_item_eq_some_iff :
    at? (.item index :: rest) j = some found ↔
      ∃ items child, j = .array items ∧ items[index]? = some child ∧
        at? rest child = some found := by
  cases j with
  | array items => simp [at?, Option.bind_eq_some_iff]
  | null | bool _ | number _ | string _ | object _ | unreadable => simp [at?]

/-- There is nothing below `null`. -/
theorem ne_null_of_at? {place : List Step} (hplace : place ≠ []) (h : at? place j = some found) :
    j ≠ .null := by
  rintro rfl
  cases place with
  | nil => exact hplace rfl
  | cons step rest => cases step <;> cases h

/-- An object with just the fields of a struct. -/
def HasFields (fields : List (String × FieldType)) (j : Json) : Prop :=
  ∃ outs, j = .object outs ∧ outs.map (·.1) = fields.map (·.1)

end Json

/-- The place is an item of a list. -/
def IsItem (place : List Step) : Prop := ∃ before index, place = before ++ [.item index]

theorem IsItem.ne_nil {place : List Step} (h : IsItem place) : place ≠ [] := by
  obtain ⟨before, index, rfl⟩ := h
  exact List.append_ne_nil_of_right_ne_nil before (List.cons_ne_nil _ _)

theorem IsItem.cons {place : List Step} (h : IsItem place) (step : Step) :
    IsItem (step :: place) := by
  obtain ⟨before, index, rfl⟩ := h
  exact ⟨step :: before, index, rfl⟩

namespace FieldType

/-- The type that a schema has for a place. -/
def at? : List Step → FieldType → Option FieldType
  | [], type => some type
  | .field name :: rest, struct fields => (Entries.get? name fields).bind (at? rest)
  | .item _ :: rest, list item => at? rest item
  | _ :: _, _ => none

variable {rest : List Step} {type found item : FieldType} {name : String} {index : Nat}
  {fields : List (String × FieldType)} {j out given : Json}

theorem at?_field_eq_some_iff :
    at? (.field name :: rest) type = some found ↔
      ∃ fields child, type = struct fields ∧ Entries.get? name fields = some child ∧
        at? rest child = some found := by
  cases type with
  | struct fields => simp [at?, Option.bind_eq_some_iff]
  | bool | int | double | string | list _ => simp [at?]

theorem at?_item_eq_some_iff :
    at? (.item index :: rest) type = some found ↔
      ∃ child, type = list child ∧ at? rest child = some found := by
  cases type with
  | list item => simp [at?]
  | bool | int | double | string | struct _ => simp [at?]

/-! ## What the check does -/

/-- The value is of the type, and this is what it becomes. -/
def Expands (type : FieldType) (j out : Json) : Prop := ∃ path, check type path j = .ok out

theorem expands_null_iff : type.Expands .null out ↔ out = .null := by
  have hnull : ∀ path, check type path .null = .ok .null := by
    intro path
    cases type <;> rfl
  constructor
  · rintro ⟨path, h⟩
    rw [hnull path] at h
    exact (Except.ok.inj h).symm
  · rintro rfl
    exact ⟨"", hnull ""⟩

/-- Fields and values stand in the order of the schema, each value for its type. -/
theorem of_checkFields {path : String} {value outs : List (String × Json)}
    (h : checkFields fields path value = .ok outs) :
    outs.map (·.1) = fields.map (·.1) ∧ ∀ name,
      Option.Rel (fun type out => Expands type (type.filled (Entries.get? name value)) out)
        (Entries.get? name fields) (Entries.get? name outs) := by
  induction fields generalizing outs with
  | nil =>
    cases h
    exact ⟨rfl, fun _ => .none⟩
  | cons entry rest ih =>
    obtain ⟨name, type⟩ := entry
    rw [checkFields_cons] at h
    obtain ⟨checked, hchecked, h⟩ := bind_eq_ok_iff.mp h
    obtain ⟨others, hothers, h⟩ := bind_eq_ok_iff.mp h
    cases h
    obtain ⟨hnames, hvalues⟩ := ih hothers
    refine ⟨congrArg (name :: ·) hnames, ?_⟩
    intro other
    rw [Entries.get?, Entries.get?]
    by_cases hname : name = other
    · subst hname
      rw [if_pos rfl, if_pos rfl]
      exact .some ⟨_, hchecked⟩
    · rw [if_neg hname, if_neg hname]
      exact hvalues other

/-- The items of a list are checked one by one. -/
theorem of_checkItems {path : String} {index : Nat} {items outs : List Json}
    (h : checkItems (check item) path index items = .ok outs) (place : Nat) :
    Option.Rel (Expands item) items[place]? outs[place]? := by
  induction items generalizing index outs place with
  | nil =>
    cases h
    exact .none
  | cons j rest ih =>
    rw [checkItems] at h
    obtain ⟨checked, hchecked, h⟩ := bind_eq_ok_iff.mp h
    obtain ⟨others, hothers, h⟩ := bind_eq_ok_iff.mp h
    cases h
    cases place with
    | zero => exact .some ⟨_, hchecked⟩
    | succ place => exact ih hothers place

namespace Expands

/-- A struct is `null`, or an object in which every field of the schema has its value. -/
theorem of_struct (h : (struct fields).Expands j out) :
    j = .null ∧ out = .null ∨
      ∃ value outs, j = .object value ∧ out = .object outs ∧
        outs.map (·.1) = fields.map (·.1) ∧ ∀ name,
          Option.Rel (fun type out => Expands type (type.filled (Entries.get? name value)) out)
            (Entries.get? name fields) (Entries.get? name outs) := by
  obtain ⟨path, h⟩ := h
  cases j with
  | null => exact .inl ⟨rfl, expands_null_iff.mp ⟨path, h⟩⟩
  | object value =>
    rw [check] at h
    split at h
    · cases h
    · obtain ⟨outs, houts, rfl⟩ := map_eq_ok_iff.mp h
      obtain ⟨hnames, hvalues⟩ := of_checkFields houts
      exact .inr ⟨value, outs, rfl, rfl, hnames, hvalues⟩
  | bool _ | number _ | string _ | array _ | unreadable => cases h

/-- A list is `null`, or an array of items of its type. -/
theorem of_list (h : (list item).Expands j out) :
    j = .null ∧ out = .null ∨
      ∃ items outs, j = .array items ∧ out = .array outs ∧
        ∀ index : Nat, Option.Rel (Expands item) items[index]? outs[index]? := by
  obtain ⟨path, h⟩ := h
  cases j with
  | null => exact .inl ⟨rfl, expands_null_iff.mp ⟨path, h⟩⟩
  | array items =>
    obtain ⟨outs, houts, rfl⟩ := map_eq_ok_iff.mp h
    exact .inr ⟨items, outs, rfl, rfl, of_checkItems houts⟩
  | bool _ | number _ | string _ | object _ | unreadable => cases h

end Expands

/-! ## What stands where -/

/-- Only for a struct something stands in, an object without fields. -/
theorem filled_cases (type : FieldType) (given : Option Json) :
    type.filled given = given.getD .null ∨
      (∃ fields, type = struct fields) ∧ given.getD .null = .null ∧
        type.filled given = .object [] := by
  unfold filled
  split
  · next fields hnull => exact .inr ⟨⟨fields, rfl⟩, hnull, rfl⟩
  · exact .inl rfl

theorem filled_struct_ne_null (given : Option Json) : (struct fields).filled given ≠ .null := by
  unfold filled
  split
  · simp
  · next hgiven =>
    intro hnull
    exact hgiven fields rfl hnull

theorem filled_some_of_ne_null (type : FieldType) (h : j ≠ .null) :
    type.filled (some j) = j := by
  rcases type.filled_cases (some j) with heq | ⟨-, hnull, -⟩
  · exact heq
  · exact absurd hnull h

/-- What stands below a field was given: nothing stands in for it. -/
theorem exists_of_at?_filled {place : List Step} {given : Option Json} {below : Json}
    (hplace : place ≠ []) (h : Json.at? place (type.filled given) = some below) :
    ∃ j, given = some j ∧ Json.at? place j = some below := by
  have hne := Json.ne_null_of_at? hplace h
  rcases type.filled_cases given with heq | ⟨-, -, heq⟩
  · rw [heq] at h hne
    cases given with
    | none => exact absurd rfl hne
    | some j => exact ⟨j, rfl, h⟩
  · rw [heq] at h
    cases place with
    | nil => exact absurd rfl hplace
    | cons step rest => cases step <;> cases h

namespace Expands

variable {place : List Step} {below : Json}

/-- Where the type has a struct there is an object with its fields, or an item that was `null`. -/
theorem hasFields_or_null (h : type.Expands j out)
    (htype : at? place type = some (struct fields)) (hout : Json.at? place out = some below) :
    below.HasFields fields ∨
      below = .null ∧ Json.at? place j = some .null ∧ (place = [] ∨ IsItem place) := by
  induction place generalizing type j out with
  | nil =>
    cases htype
    cases hout
    rcases h.of_struct with ⟨rfl, rfl⟩ | ⟨value, outs, rfl, rfl, hnames, -⟩
    · exact .inr ⟨rfl, rfl, .inl rfl⟩
    · exact .inl ⟨outs, rfl, hnames⟩
  | cons step rest ih =>
    cases step with
    | field name =>
      obtain ⟨known, child, rfl, hchild, hbelow⟩ := at?_field_eq_some_iff.mp htype
      obtain ⟨outs, filledOut, rfl, hfilledOut, hfound⟩ := Json.at?_field_eq_some_iff.mp hout
      obtain ⟨-, ⟨⟩⟩ | ⟨value, _, rfl, ⟨⟩, -, hvalues⟩ := h.of_struct
      have hvalue := hvalues name
      rw [hchild, hfilledOut] at hvalue
      obtain ⟨hvalue⟩ := hvalue
      rcases ih hvalue hbelow hfound with hfields | ⟨hnull, hgiven, rfl | hitem⟩
      · exact .inl hfields
      · -- a struct is filled in
        cases hbelow
        exact absurd (Option.some.inj hgiven) (filled_struct_ne_null _)
      · obtain ⟨given, hvalue, hgiven⟩ := exists_of_at?_filled hitem.ne_nil hgiven
        exact .inr ⟨hnull, Json.at?_field_eq_some_iff.mpr ⟨value, given, rfl, hvalue, hgiven⟩,
          .inr (hitem.cons _)⟩
    | item index =>
      obtain ⟨child, rfl, hbelow⟩ := at?_item_eq_some_iff.mp htype
      obtain ⟨outs, itemOut, rfl, hitemOut, hfound⟩ := Json.at?_item_eq_some_iff.mp hout
      obtain ⟨-, ⟨⟩⟩ | ⟨items, _, rfl, ⟨⟩, hitems⟩ := h.of_list
      have hitem := hitems index
      rw [hitemOut] at hitem
      obtain ⟨given, hgiven, hitem⟩ := exists_of_rel_right hitem
      rcases ih hitem hbelow hfound with hfields | ⟨hnull, hbelow, hplace⟩
      · exact .inl hfields
      · refine .inr ⟨hnull, Json.at?_item_eq_some_iff.mpr ⟨items, given, rfl, hgiven, hbelow⟩,
          .inr ?_⟩
        rcases hplace with rfl | hplace
        · exact ⟨[], index, rfl⟩
        · exact hplace.cons _

/-- An item that is `null` stays `null`. -/
theorem at?_eq_null (h : type.Expands j out) (hplace : IsItem place)
    (htype : at? place type = some item) (hj : Json.at? place j = some .null) :
    Json.at? place out = some .null := by
  obtain ⟨before, last, rfl⟩ := hplace
  induction before generalizing type j out with
  | nil =>
    obtain ⟨child, rfl, ⟨⟩⟩ := at?_item_eq_some_iff.mp htype
    obtain ⟨items, given, rfl, hgiven, ⟨⟩⟩ := Json.at?_item_eq_some_iff.mp hj
    obtain ⟨⟨⟩, -⟩ | ⟨_, outs, ⟨⟩, rfl, hitems⟩ := h.of_list
    have hitem := hitems last
    rw [hgiven] at hitem
    obtain ⟨itemOut, hitemOut, hitem⟩ := exists_of_rel_left hitem
    obtain rfl := expands_null_iff.mp hitem
    exact Json.at?_item_eq_some_iff.mpr ⟨outs, .null, rfl, hitemOut, rfl⟩
  | cons step rest ih =>
    cases step with
    | field name =>
      obtain ⟨known, child, rfl, hchild, hbelow⟩ := at?_field_eq_some_iff.mp htype
      obtain ⟨value, given, rfl, hgiven, hfound⟩ := Json.at?_field_eq_some_iff.mp hj
      obtain ⟨⟨⟩, -⟩ | ⟨_, outs, ⟨⟩, rfl, -, hvalues⟩ := h.of_struct
      -- there is something below the field, so nothing stands in for it
      have hne : given ≠ .null := Json.ne_null_of_at? (IsItem.ne_nil ⟨rest, last, rfl⟩) hfound
      have hvalue := hvalues name
      rw [hchild, hgiven] at hvalue
      obtain ⟨filledOut, hfilledOut, hvalue⟩ := exists_of_rel_left hvalue
      rw [filled_some_of_ne_null child hne] at hvalue
      exact Json.at?_field_eq_some_iff.mpr
        ⟨outs, filledOut, rfl, hfilledOut, ih hvalue hbelow hfound⟩
    | item index =>
      obtain ⟨child, rfl, hbelow⟩ := at?_item_eq_some_iff.mp htype
      obtain ⟨items, given, rfl, hgiven, hfound⟩ := Json.at?_item_eq_some_iff.mp hj
      obtain ⟨⟨⟩, -⟩ | ⟨_, outs, ⟨⟩, rfl, hitems⟩ := h.of_list
      have hitem := hitems index
      rw [hgiven] at hitem
      obtain ⟨itemOut, hitemOut, hitem⟩ := exists_of_rel_left hitem
      exact Json.at?_item_eq_some_iff.mpr
        ⟨outs, itemOut, rfl, hitemOut, ih hitem hbelow hfound⟩

end Expands

end FieldType

/-! ## Complete values -/

namespace Schema

variable {s : Schema} {value out : List (String × Json)}

/-- The type that a schema has for a place. -/
def at? (s : Schema) (place : List Step) : Option FieldType :=
  FieldType.at? place (.struct s.fields)

/-- Wherever the schema has a struct, the value has an object with just its fields. -/
def Complete (s : Schema) (value : List (String × Json)) : Prop :=
  ∀ place fields below, s.at? place = some (.struct fields) →
    Json.at? place (.object value) = some below → below.HasFields fields

/-- The place is an item of a list of structs, and the value has `null` there. -/
structure LacksItem (s : Schema) (value : List (String × Json)) (place : List Step) : Prop where
  isItem : IsItem place
  struct : ∃ fields, s.at? place = some (.struct fields)
  null : Json.at? place (.object value) = some .null

theorem expands_of_expand (h : s.expand value = .ok out) :
    (FieldType.struct s.fields).Expands (.object value) (.object out) := by
  refine ⟨"", ?_⟩
  rw [expand] at h
  rw [FieldType.check]
  split at h
  · cases h
  · exact map_eq_ok_iff.mpr ⟨out, h, rfl⟩

/-- **What an expanded value has for the structs of its schema.** It has an object with just their
fields, except for items of lists that were `null`. So it is complete exactly if the given value
does not lack items. -/
theorem expand_completes_iff (h : s.expand value = .ok out) :
    (∀ place fields below, s.at? place = some (.struct fields) →
      Json.at? place (.object out) = some below →
        (below.HasFields fields ↔ ¬ s.LacksItem value place)) ∧
    (s.Complete out ↔ ∀ place, ¬ s.LacksItem value place) := by
  have hexpands := expands_of_expand h
  have hkept : ∀ place, s.LacksItem value place → Json.at? place (.object out) = some .null := by
    intro place hlacks
    obtain ⟨fields, htype⟩ := hlacks.struct
    exact hexpands.at?_eq_null hlacks.isItem htype hlacks.null
  have hplaces : ∀ place fields below, s.at? place = some (.struct fields) →
      Json.at? place (.object out) = some below →
        (below.HasFields fields ↔ ¬ s.LacksItem value place) := by
    intro place fields below htype hout
    constructor
    · rintro ⟨outs, rfl, -⟩ hlacks
      rw [hkept place hlacks] at hout
      cases hout
    · intro hlacks
      rcases hexpands.hasFields_or_null htype hout with hfields | ⟨-, hnull, rfl | hitem⟩
      · exact hfields
      · cases hnull
      · exact absurd ⟨hitem, ⟨fields, htype⟩, hnull⟩ hlacks
  refine ⟨hplaces, ?_, ?_⟩
  · intro hcomplete place hlacks
    obtain ⟨fields, htype⟩ := hlacks.struct
    obtain ⟨outs, ⟨⟩, -⟩ := hcomplete place fields .null htype (hkept place hlacks)
  · intro hlacks place fields below htype hout
    exact (hplaces place fields below htype hout).mpr (hlacks place)

/-- A list of structs with two fields. -/
def ofLimits : Schema := ⟨[("limits", .list (.struct [("max", .int), ("min", .int)]))]⟩

/-- An object without fields is filled in, and the `null` behind it is not. -/
theorem limits_half_completed :
    ofLimits.expand [("limits", .array [.object [], .null])] =
        .ok [("limits", .array [.object [("max", .null), ("min", .null)], .null])] ∧
      Json.HasFields [("max", .int), ("min", .int)] (.object [("max", .null), ("min", .null)]) ∧
      ¬ ofLimits.Complete
        [("limits", .array [.object [("max", .null), ("min", .null)], .null])] := by
  have hexpand : ofLimits.expand [("limits", .array [.object [], .null])] =
      .ok [("limits", .array [.object [("max", .null), ("min", .null)], .null])] := rfl
  obtain ⟨hplaces, hcomplete⟩ := expand_completes_iff hexpand
  refine ⟨hexpand, (hplaces [.field "limits", .item 0] _ _ rfl rfl).mpr ?_, ?_⟩
  · intro hlacks
    cases hlacks.null
  · rw [hcomplete]
    intro hlacks
    exact hlacks [.field "limits", .item 1] ⟨⟨[.field "limits"], 1, rfl⟩, ⟨_, rfl⟩, rfl⟩

/-- A list with just `null` is taken, and stays without the fields of a struct. -/
theorem limits_not_completed :
    ofLimits.expand [("limits", .array [.null])] = .ok [("limits", .array [.null])] ∧
      ¬ ofLimits.Complete [("limits", .array [.null])] := by
  refine ⟨rfl, ?_⟩
  intro hcomplete
  obtain ⟨outs, ⟨⟩, -⟩ := hcomplete [.field "limits", .item 0] _ .null rfl rfl

end Schema

end FeatureFlags
