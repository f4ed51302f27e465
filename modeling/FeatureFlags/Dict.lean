/-!
# Dictionaries keyed by name

- `Entries`: operations on a list of named entries that is kept in strictly
  ascending order of the names. The order on names is the order of `String`, by
  code point, which is also the order of their UTF-8 bytes.
- `Dict`: such a list bundled with its order. Two dictionaries with the same
  look-ups are equal, because a set of names has one ascending listing.
- `Dict.Walk`: some order in which the entries of a dictionary are taken, where
  nothing is known of it.

The operations on `Entries` go through the list once and never look at its
order, so their look-up laws need no hypothesis.
-/

namespace FeatureFlags

universe u v

namespace Entries

variable {α : Type u} {β : Type v}

/-- The names are listed once each, in ascending order. -/
def Ascending (entries : List (String × α)) : Prop :=
  entries.Pairwise fun a b => a.1 < b.1

instance (entries : List (String × α)) : Decidable (Ascending entries) :=
  inferInstanceAs (Decidable (entries.Pairwise _))

/-- The value listed first under `name`. -/
def get? (name : String) : List (String × α) → Option α
  | [] => none
  | (k, v) :: rest => if k = name then some v else get? name rest

/-- Put `value` under `name`, in place of what stood there. -/
def insert (name : String) (value : α) : List (String × α) → List (String × α)
  | [] => [(name, value)]
  | (k, v) :: rest =>
    if name < k then (name, value) :: (k, v) :: rest
    else if k = name then (name, value) :: rest
    else (k, v) :: insert name value rest

/-- Drop what stands under `name`. -/
def erase (name : String) (entries : List (String × α)) : List (String × α) :=
  entries.filter fun e => e.1 ≠ name

/-- The entries in ascending order; of two under one name the later stays. -/
def ofList (entries : List (String × α)) : List (String × α) :=
  entries.foldl (fun acc e => insert e.1 e.2 acc) []

/-- Change every value, keeping the names. -/
def map (f : α → β) (entries : List (String × α)) : List (String × β) :=
  entries.map fun e => (e.1, f e.2)

@[simp] theorem get?_nil (name : String) : get? name ([] : List (String × α)) = none := rfl

theorem get?_insert_self (name : String) (value : α) (entries : List (String × α)) :
    get? name (insert name value entries) = some value := by
  induction entries with
  | nil => simp [insert, get?]
  | cons e rest ih =>
    obtain ⟨k, v⟩ := e
    by_cases hlt : name < k
    · simp [insert, hlt, get?]
    · by_cases heq : k = name
      · simp [insert, heq, get?]
      · simp [insert, hlt, heq, get?, ih]

theorem get?_insert_of_ne {name other : String} (h : other ≠ name) (value : α)
    (entries : List (String × α)) :
    get? other (insert name value entries) = get? other entries := by
  induction entries with
  | nil => simp [insert, get?, Ne.symm h]
  | cons e rest ih =>
    obtain ⟨k, v⟩ := e
    by_cases hlt : name < k
    · simp [insert, hlt, get?, Ne.symm h]
    · by_cases heq : k = name
      · subst heq; simp [insert, get?, Ne.symm h]
      · simp [insert, hlt, heq, get?, ih]

theorem mem_insert {name : String} {value : α} {e : String × α} {entries : List (String × α)}
    (h : e ∈ insert name value entries) : e = (name, value) ∨ e ∈ entries := by
  induction entries with
  | nil => simpa [insert] using h
  | cons head rest ih =>
    obtain ⟨k, v⟩ := head
    unfold insert at h
    split at h
    · simpa using h
    · split at h
      · rcases List.mem_cons.1 h with h | h
        · exact .inl h
        · exact .inr (List.mem_cons_of_mem _ h)
      · rcases List.mem_cons.1 h with h | h
        · exact .inr (h ▸ List.mem_cons_self)
        · exact (ih h).imp id (List.mem_cons_of_mem _)

private theorem lt_of_not_lt_of_ne {a b : String} (h : ¬ a < b) (hne : b ≠ a) : b < a :=
  Decidable.byContradiction fun hba =>
    hne (String.le_antisymm (String.not_lt.1 h) (String.not_lt.1 hba))

theorem Ascending.insert {entries : List (String × α)} (h : Ascending entries) (name : String)
    (value : α) : Ascending (Entries.insert name value entries) := by
  induction entries with
  | nil => exact List.pairwise_singleton ..
  | cons e rest ih =>
    obtain ⟨k, v⟩ := e
    have hrest := List.pairwise_cons.1 h
    unfold Entries.insert
    split
    · next hlt =>
      refine List.pairwise_cons.2 ⟨fun a ha => ?_, h⟩
      rcases List.mem_cons.1 ha with rfl | ha
      · exact hlt
      · exact String.lt_trans hlt (hrest.1 a ha)
    · next hlt =>
      split
      · next heq => subst heq; exact List.pairwise_cons.2 hrest
      · next hne =>
        refine List.pairwise_cons.2 ⟨fun a ha => ?_, ih hrest.2⟩
        rcases mem_insert ha with rfl | ha
        · exact lt_of_not_lt_of_ne hlt hne
        · exact hrest.1 a ha

private theorem ascending_foldl_insert (l acc : List (String × α)) (h : Ascending acc) :
    Ascending (l.foldl (fun acc e => insert e.1 e.2 acc) acc) := by
  induction l generalizing acc with
  | nil => exact h
  | cons e rest ih => exact ih _ (h.insert e.1 e.2)

theorem ascending_ofList (entries : List (String × α)) : Ascending (ofList entries) :=
  ascending_foldl_insert entries [] List.Pairwise.nil

theorem Ascending.erase {entries : List (String × α)} (h : Ascending entries) (name : String) :
    Ascending (Entries.erase name entries) :=
  List.Pairwise.filter _ h

theorem Ascending.map {entries : List (String × α)} (h : Ascending entries) (f : α → β) :
    Ascending (Entries.map f entries) :=
  List.pairwise_map.2 h

end Entries

/-- A finite map from names, listed by ascending name. -/
structure Dict (α : Type u) where
  /-- The entries in ascending order of their names. -/
  entries : List (String × α)
  /-- The names ascend, so each occurs once. -/
  ascending : Entries.Ascending entries
  deriving DecidableEq

namespace Dict

variable {α : Type u} {β : Type v}

/-- The dictionary without entries. -/
def empty : Dict α := ⟨[], List.Pairwise.nil⟩

instance : EmptyCollection (Dict α) := ⟨empty⟩
instance : Inhabited (Dict α) := ⟨empty⟩

/-- The value under `name`. -/
def get? (d : Dict α) (name : String) : Option α := Entries.get? name d.entries

/-- The value under `name`, or `default`. -/
def getD (d : Dict α) (name : String) (default : α) : α := (d.get? name).getD default

/-- Whether there is a value under `name`. -/
def contains (d : Dict α) (name : String) : Bool := (d.get? name).isSome

/-- Put `value` under `name`, in place of what stood there. -/
def insert (d : Dict α) (name : String) (value : α) : Dict α :=
  ⟨Entries.insert name value d.entries, d.ascending.insert name value⟩

/-- Drop what stands under `name`. -/
def erase (d : Dict α) (name : String) : Dict α :=
  ⟨Entries.erase name d.entries, d.ascending.erase name⟩

/-- Put every entry of the list in turn; of two under one name the later stays. -/
def ofList (entries : List (String × α)) : Dict α :=
  ⟨Entries.ofList entries, Entries.ascending_ofList entries⟩

/-- The entries by ascending name. -/
def toList (d : Dict α) : List (String × α) := d.entries

/-- The names, ascending. -/
def keys (d : Dict α) : List String := d.entries.map (·.1)

/-- Change every value, keeping the names. -/
def map (f : α → β) (d : Dict α) : Dict β := ⟨Entries.map f d.entries, d.ascending.map f⟩

/-- Put every entry of `other` over those of `d`. -/
def union (d other : Dict α) : Dict α :=
  other.entries.foldl (fun acc e => acc.insert e.1 e.2) d

/-- The number of entries. -/
def size (d : Dict α) : Nat := d.entries.length

/-- Whether there is no entry. -/
def isEmpty (d : Dict α) : Bool := d.entries.isEmpty

@[simp] theorem get?_empty (name : String) : (empty : Dict α).get? name = none := rfl

@[simp] theorem get?_insert_self (d : Dict α) (name : String) (value : α) :
    (d.insert name value).get? name = some value :=
  Entries.get?_insert_self name value d.entries

theorem get?_insert_of_ne (d : Dict α) {name other : String} (h : other ≠ name) (value : α) :
    (d.insert name value).get? other = d.get? other :=
  Entries.get?_insert_of_ne h value d.entries

theorem get?_insert (d : Dict α) (name other : String) (value : α) :
    (d.insert name value).get? other = if other = name then some value else d.get? other := by
  by_cases h : other = name
  · subst h; simp
  · simp [h, d.get?_insert_of_ne h]

/-- An order in which the entries of dictionaries are taken. -/
structure Walk (α : Type u) where
  /-- The entries in the order in which they are taken. -/
  entries : Dict α → List (String × α)
  /-- Every entry is taken once. -/
  perm : ∀ d, (entries d).Perm d.toList

/-- By ascending name. -/
def Walk.ascending : Walk α := ⟨toList, fun _ => .refl _⟩

instance : Inhabited (Walk α) := ⟨.ascending⟩

end Dict

end FeatureFlags
