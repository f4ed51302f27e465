import FeatureFlags.Json.Record
import FeatureFlags.Proofs.Json.ReadBack

/-!
# Records read back

What a structured value is written as: an object with its fields in the order they are declared.
`Record.ofJson?_object` gives each field back as it stands, and `Json.asList?_ofList` every item of
a list. Of such trees it is told part by part whether they denote values and how many levels they
have.
-/

namespace FeatureFlags

namespace Record

variable {α : Type}

/-- An object whose fields are the known ones, once each, gives every field as it stands. -/
theorem ofJson?_object {names : List String} {fields : List (String × Json)}
    (hnames : fields.map (·.1) = names) (hnodup : names.Nodup) :
    ofJson? names (.object fields) =
      some { field? := fun name => Entries.get? name fields, positional := false } := by
  have hknown : (fields.map (·.1)).filter (names.contains ·) = names := by
    rw [hnames, List.filter_eq_self]
    exact fun name h => List.contains_iff_mem.mpr h
  simp only [ofJson?, ofFields?, hknown]
  exact if_pos hnodup

theorem required_eq {r : Record} {name : String} {j : Json} (h : r.field? name = some j)
    (decode : Json → Option α) : r.required name decode = decode j := by
  rw [required, h, Option.bind_some]

/-- A string or `null` is read as it was written. -/
theorem optional_ofOption {r : Record} {name : String} {text : Option String}
    (h : r.field? name = some (Json.ofOption .string text)) :
    r.optional name Json.asString? = some text := by
  rw [optional, h]
  cases text <;> rfl

end Record

namespace Json

variable {α : Type} {encode : α → Json}

/-- A list is read item by item as it was written. -/
theorem asList?_ofList {decode : Json → Option α}
    (h : ∀ a, decode (encode a) = some a) (items : List α) :
    asList? decode (ofList encode items) = some items := by
  show (items.map encode).mapM decode = some items
  induction items with
  | nil => rfl
  | cons a items ih =>
    rw [List.map_cons, List.mapM_cons, h a, Option.bind_eq_bind, Option.bind_some, ih]
    rfl

theorem depthOfItems_le_iff {items : List Json} {n : Nat} :
    depthOfItems items ≤ n ↔ ∀ j ∈ items, j.depth ≤ n := by
  induction items with
  | nil => simp [depthOfItems]
  | cons j items ih => rw [depthOfItems, max_le_iff, ih, List.forall_mem_cons]

theorem depthOfFields_le_iff {fields : List (String × Json)} {n : Nat} :
    depthOfFields fields ≤ n ↔ ∀ e ∈ fields, e.2.depth ≤ n := by
  induction fields with
  | nil => simp [depthOfFields]
  | cons e fields ih =>
    obtain ⟨key, j⟩ := e
    rw [depthOfFields, max_le_iff, ih, List.forall_mem_cons]

theorem readable_ofList (h : ∀ a, (encode a).Readable) (items : List α) :
    (ofList encode items).Readable := by
  rw [ofList, readable_array_iff, List.forall_mem_map]
  exact fun a _ => h a

theorem depth_ofList_le {n : Nat} (h : ∀ a, (encode a).depth ≤ n) (items : List α) :
    (ofList encode items).depth ≤ n + 1 := by
  rw [ofList, depth, Nat.add_le_add_iff_right, depthOfItems_le_iff, List.forall_mem_map]
  exact fun a _ => h a

theorem readable_ofOption_string (text : Option String) : (ofOption string text).Readable := by
  cases text <;> rfl

theorem depth_ofOption_string (text : Option String) : (ofOption string text).depth = 0 := by
  cases text <;> rfl

end Json

end FeatureFlags
