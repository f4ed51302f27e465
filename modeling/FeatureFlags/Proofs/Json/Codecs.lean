import FeatureFlags.Proofs.Json.Levels
import Mathlib.Data.List.Forall2

/-!
# Codecs that round-trip

`Json.RoundTrips`: from whatever tree a value is decoded, it is decoded again from the tree that it
is written as, which denotes a value and has no more levels than were allowed for the first one
(`Json.ReadsBack`). The two trees need not be the same: the first one may leave fields out, give
them by position or in another order, and have fields that nothing reads.

A decoder is made of those of its parts, and so is the law. Texts, truth values and numbers have it,
and it goes through lists, dictionaries (`Json.RoundTrips.list`, `Json.RoundTrips.dict`) and the
ways in which a field is read (`Record.Within.required` and those beside it). What is written as a
record is read field by field with `Json.ReadsBack.required` and its like.
-/

namespace FeatureFlags

namespace Json

/-! ## Trees that can be written -/

/-- The tree denotes a value and has at most `n` levels. -/
structure Printable (n : Nat) (j : Json) : Prop where
  readable : j.Readable
  depth_le : j.depth ≤ n

variable {n m : Nat}

theorem printable_array_iff {items : List Json} :
    (array items).Printable (n + 1) ↔ ∀ j ∈ items, j.Printable n := by
  constructor
  · rintro ⟨hreadable, hdepth⟩
    rw [readable_array_iff] at hreadable
    rw [depth, Nat.add_le_add_iff_right, depthOfItems_le_iff] at hdepth
    exact fun j hj => ⟨hreadable j hj, hdepth j hj⟩
  · intro h
    constructor
    · exact (readable_array_iff items).mpr fun j hj => (h j hj).readable
    · rw [depth, Nat.add_le_add_iff_right, depthOfItems_le_iff]
      exact fun j hj => (h j hj).depth_le

theorem printable_object_iff {fields : Fields} :
    (object fields).Printable (n + 1) ↔ ∀ e ∈ fields, e.2.Printable n := by
  constructor
  · rintro ⟨hreadable, hdepth⟩
    rw [readable_object_iff] at hreadable
    rw [depth, Nat.add_le_add_iff_right, depthOfFields_le_iff] at hdepth
    exact fun e he => ⟨hreadable e he, hdepth e he⟩
  · intro h
    constructor
    · exact (readable_object_iff fields).mpr fun e he => (h e he).readable
    · rw [depth, Nat.add_le_add_iff_right, depthOfFields_le_iff]
      exact fun e he => (h e he).depth_le

theorem printable_string (text : String) : (string text).Printable n := ⟨rfl, Nat.zero_le n⟩

theorem printable_bool (b : Bool) : (bool b).Printable n := ⟨rfl, Nat.zero_le n⟩

/-! ## The law -/

variable {α : Type} {decode decode' : Json → Option α} {encode : α → Json} {a : α}

/-- The value is decoded from the tree it is written as, and that tree can be written in turn. -/
structure ReadsBack (decode : Json → Option α) (encode : α → Json) (n : Nat) (a : α) : Prop where
  reads : decode (encode a) = some a
  printable : (encode a).Printable n

/-- From whatever tree of at most `n` levels the value is decoded, it is decoded again from the tree
it is written as. The second decoder may be another one. -/
def RoundTrips (decode decode' : Json → Option α) (encode : α → Json) (n : Nat) (a : α) : Prop :=
  ∀ ⦃j : Json⦄, j.Within n → decode j = some a → ReadsBack decode' encode n a

theorem readsBack_string (text : String) : ReadsBack asString? .string n text :=
  ⟨rfl, printable_string text⟩

theorem roundTrips_string (text : String) : RoundTrips asString? asString? .string n text :=
  fun _ _ _ => readsBack_string text

theorem readsBack_bool (b : Bool) : ReadsBack asBool? .bool n b := ⟨rfl, printable_bool b⟩

theorem roundTrips_bool (b : Bool) : RoundTrips asBool? asBool? .bool n b :=
  fun _ _ _ => readsBack_bool b

theorem roundTrips_nat (k : Nat) : RoundTrips asNat? asNat? ofNat n k := by
  intro j hj h
  unfold asNat? asNatBelow? at h
  split at h
  · next i =>
    split at h
    · next hrange =>
      cases h
      have hnat : (i.toNat : Int) = i := Int.toNat_of_nonneg hrange.1
      refine ⟨?_, (readable_number_iff _).mpr ?_, Nat.zero_le n⟩
      · rw [ofNat, hnat]
        exact if_pos hrange
      · rw [hnat]
        exact hj.inRange
    · cases h
  · cases h

theorem variant?_eq_some_some_iff {j content : Json} {tag : String} :
    j.variant? = some (tag, some content) ↔ j = .object [(tag, content)] := by
  unfold variant?
  split
  · simp
  · simp
  · next h =>
    refine iff_of_false (by simp) ?_
    rintro rfl
    exact h _ _ rfl

/-- A value behind a tag is read back if what stands there is. -/
theorem ReadsBack.tagged {β : Type} {b : β} {build : α → β} {decodeTagged : Json → Option β}
    {encodeTagged : β → Json} (h : ReadsBack decode encode n a) (hbuild : build a = b)
    {tag : String} (hencode : encodeTagged b = .object [(tag, encode a)])
    (hdecode : decodeTagged (.object [(tag, encode a)]) = (decode (encode a)).map build) :
    ReadsBack decodeTagged encodeTagged (n + 1) b := by
  constructor
  · rw [hencode, hdecode, h.reads, Option.map_some, hbuild]
  · rw [hencode]
    exact printable_object_iff.mpr (List.forall_mem_singleton.mpr h.printable)

/-! ## Lists and dictionaries -/

theorem mapM_eq_some_iff {β γ : Type} {f : β → Option γ} {items : List β} {values : List γ} :
    items.mapM f = some values ↔ List.Forall₂ (fun b c => f b = some c) items values := by
  induction items generalizing values with
  | nil =>
    cases values with
    | nil => exact iff_of_true rfl .nil
    | cons c values => exact iff_of_false (by rintro ⟨⟩) (by rintro ⟨⟩)
  | cons b items ih =>
    simp only [List.mapM_cons, Option.bind_eq_bind, Option.bind_eq_some_iff, ih, Option.pure_def,
      Option.some.injEq]
    constructor
    · rintro ⟨c, hc, values, hvalues, rfl⟩
      exact .cons hc hvalues
    · rintro ⟨⟩
      next c values hc hvalues => exact ⟨c, hc, values, hvalues, rfl⟩

theorem exists_of_mem_mapM {β γ : Type} {f : β → Option γ} {items : List β} {values : List γ}
    (h : items.mapM f = some values) {c : γ} (hc : c ∈ values) : ∃ b ∈ items, f b = some c := by
  rw [mapM_eq_some_iff] at h
  induction h with
  | nil => cases hc
  | cons hb _ ih =>
    obtain rfl | hc := List.mem_cons.mp hc
    · exact ⟨_, List.mem_cons_self, hb⟩
    · obtain ⟨b, hmem, hb⟩ := ih hc
      exact ⟨b, List.mem_cons_of_mem _ hmem, hb⟩

/-- A list is read back if its items are. -/
theorem readsBack_list {items : List α} (h : ∀ a ∈ items, ReadsBack decode encode n a) :
    ReadsBack (asList? decode) (ofList encode) (n + 1) items := by
  constructor
  · refine mapM_eq_some_iff.mpr (List.forall₂_map_left_iff.mpr (List.forall₂_same.mpr ?_))
    exact fun a ha => (h a ha).reads
  · refine printable_array_iff.mpr (List.forall_mem_map.mpr ?_)
    exact fun a ha => (h a ha).printable

/-- A list round-trips if its items do. -/
theorem RoundTrips.list {items : List α}
    (h : ∀ m, n = m + 1 → ∀ a ∈ items, RoundTrips decode decode' encode m a) :
    RoundTrips (asList? decode) (asList? decode') (ofList encode) n items := by
  intro j hj hdecode
  cases j with
  | array js =>
    obtain ⟨m, rfl, hjs⟩ := within_array_iff.mp hj
    refine readsBack_list fun a ha => ?_
    obtain ⟨j, hj, hdecode⟩ := exists_of_mem_mapM hdecode ha
    exact h m rfl a ha (hjs j hj) hdecode
  | _ => cases hdecode

theorem readsBack_nil (hn : 1 ≤ n) : ReadsBack (asList? decode) (ofList encode) n [] := by
  obtain ⟨m, rfl⟩ := Nat.exists_eq_add_of_le' hn
  exact ⟨rfl, printable_array_iff.mpr (List.forall_mem_nil _)⟩

/-- What is read from the fields of an object, sorted by name, is read again from the object it is
written as. -/
theorem entries_of_asEntries? {fields : Fields} (hfields : ∀ e ∈ fields, e.2.Within n)
    {entries : List (String × α)} (h : asEntries? decode (object fields) = some entries)
    (hvalues : ∀ e ∈ Entries.ofList entries, RoundTrips decode decode' encode n e.2) :
    asEntries? decode' (object (Entries.map encode (Entries.ofList entries))) =
        some (Entries.ofList entries) ∧
      (object (Entries.map encode (Entries.ofList entries))).Printable (n + 1) := by
  have hread : ∀ e ∈ Entries.ofList entries, ReadsBack decode' encode n e.2 := by
    intro e he
    obtain ⟨f, hf, hdecode⟩ := exists_of_mem_mapM h (Entries.mem_of_mem_ofList he)
    obtain ⟨value, hvalue, rfl⟩ := Option.map_eq_some_iff.mp hdecode
    exact hvalues _ he (hfields f hf) hvalue
  constructor
  · refine mapM_eq_some_iff.mpr (List.forall₂_map_left_iff.mpr (List.forall₂_same.mpr ?_))
    intro e he
    rw [(hread e he).reads]
    rfl
  · refine printable_object_iff.mpr (List.forall_mem_map.mpr ?_)
    exact fun e he => (hread e he).printable

/-- A dictionary round-trips if its values do. -/
theorem RoundTrips.dict {d : Dict α}
    (h : ∀ m, n = m + 1 → ∀ e ∈ d.entries, RoundTrips decode decode' encode m e.2) :
    RoundTrips (asDict? decode) (asDict? decode') (ofDict encode) n d := by
  intro j hj hdecode
  cases j with
  | object fields =>
    obtain ⟨m, rfl, hfields⟩ := within_object_iff.mp hj
    obtain ⟨entries, hentries, rfl⟩ := Option.map_eq_some_iff.mp hdecode
    obtain ⟨hread, hprintable⟩ := entries_of_asEntries? hfields hentries (h m rfl)
    refine ⟨?_, hprintable⟩
    have hsame : Dict.ofList (Entries.ofList entries) = Dict.ofList entries := by
      ext1 name
      show Entries.get? name (Entries.ofList (Entries.ofList entries)) = _
      rw [(Entries.ascending_ofList entries).ofList_eq]
      rfl
    exact (congrArg (Option.map Dict.ofList) hread).trans (congrArg some hsame)
  | _ => cases hdecode

theorem readsBack_empty (hn : 1 ≤ n) : ReadsBack (asDict? decode) (ofDict encode) n .empty := by
  obtain ⟨m, rfl⟩ := Nat.exists_eq_add_of_le' hn
  exact ⟨rfl, printable_object_iff.mpr (List.forall_mem_nil _)⟩

end Json

/-! ## Records -/

namespace Record

open Json

variable {n : Nat} {α : Type} {decode decode' : Json → Option α} {encode : α → Json} {a : α}
variable {r : Record} {names : List String} {name : String} {j : Json}

/-- Every field that is given has at most `n` levels. -/
def Within (n : Nat) (r : Record) : Prop := ∀ name j, r.field? name = some j → j.Within n

theorem within_of_ofJson? (hj : j.Within n) (h : ofJson? names j = some r) :
    ∃ m, n = m + 1 ∧ r.Within m := by
  cases j with
  | object fields =>
    obtain ⟨m, rfl, hfields⟩ := within_object_iff.mp hj
    refine ⟨m, rfl, fun name j hfield => ?_⟩
    rw [ofJson?, ofFields?] at h
    split at h
    · cases h
      exact hfields _ (Entries.mem_of_get?_eq_some hfield)
    · cases h
  | array items =>
    obtain ⟨m, rfl, hitems⟩ := within_array_iff.mp hj
    refine ⟨m, rfl, fun name j hfield => ?_⟩
    rw [ofJson?, ofItems?] at h
    split at h
    · cases h
      exact hitems _ (List.of_mem_zip (Entries.mem_of_get?_eq_some hfield)).2
    · cases h
  | _ => cases h

theorem within_of_ofContent? {origin : Origin} (hj : j.Within n)
    (h : ofContent? origin names j = some r) : ∃ m, n = m + 1 ∧ r.Within m := by
  unfold ofContent? at h
  split at h
  · cases h
  · exact within_of_ofJson? hj h

namespace Within

variable (hr : r.Within n)
include hr

theorem required (h : r.required name decode = some a)
    (ha : RoundTrips decode decode' encode n a) : ReadsBack decode' encode n a := by
  obtain ⟨j, hfield, hdecode⟩ := Option.bind_eq_some_iff.mp h
  exact ha (hr name j hfield) hdecode

theorem defaulted {default : α} (h : r.defaulted name default decode = some a)
    (hdefault : ReadsBack decode' encode n default) (ha : RoundTrips decode decode' encode n a) :
    ReadsBack decode' encode n a := by
  unfold Record.defaulted at h
  split at h
  · cases h
    exact hdefault
  · next hfield => exact ha (hr name _ hfield) h

theorem optionalDefaulted {value : Option α} (h : r.optionalDefaulted name decode = some value)
    (hvalue : ∀ a ∈ value, RoundTrips decode decode' encode n a) :
    ∀ a ∈ value, ReadsBack decode' encode n a := by
  unfold Record.optionalDefaulted at h
  split at h
  · cases h
    exact fun a ha => by cases ha
  · cases h
    exact fun a ha => by cases ha
  · next hfield =>
    obtain ⟨a, hdecode, rfl⟩ := Option.map_eq_some_iff.mp h
    intro a ha
    cases ha
    exact hvalue _ rfl (hr name _ hfield) hdecode

end Within

/-- An object with some of the known fields, once each, gives every field as it stands. -/
theorem ofJson?_object_of_sublist {fields : Fields} (hnames : (fields.map (·.1)).Sublist names)
    (hnodup : names.Nodup) :
    ofJson? names (.object fields) =
      some { field? := fun name => Entries.get? name fields, positional := false } := by
  have hknown : (fields.map (·.1)).filter (names.contains ·) = fields.map (·.1) := by
    rw [List.filter_eq_self]
    exact fun name h => List.contains_iff_mem.mpr (hnames.subset h)
  simp only [ofJson?, ofFields?, hknown]
  exact if_pos (hnodup.sublist hnames)

theorem ofContent?_object {fields : Fields} (origin : Origin) :
    ofContent? origin names (.object fields) = ofJson? names (.object fields) := by
  cases origin <;> rfl

end Record

namespace Json

variable {n : Nat} {α : Type} {decode : Json → Option α} {encode : α → Json} {a : α}
variable {r : Record} {name : String}

theorem ReadsBack.required (h : ReadsBack decode encode n a)
    (hfield : r.field? name = some (encode a)) : r.required name decode = some a := by
  rw [Record.required_eq hfield, h.reads]

theorem ReadsBack.defaulted {default : α} (h : ReadsBack decode encode n a)
    (hfield : r.field? name = some (encode a)) : r.defaulted name default decode = some a := by
  unfold Record.defaulted
  rw [hfield]
  exact h.reads

theorem optionalDefaulted_of_readsBack {value : Option α}
    (h : ∀ a ∈ value, ReadsBack decode encode n a) (hnull : ∀ a ∈ value, encode a ≠ .null)
    (hfield : r.field? name = value.map encode) : r.optionalDefaulted name decode = some value := by
  unfold Record.optionalDefaulted
  rw [hfield]
  cases value with
  | none => rfl
  | some a =>
    dsimp only [Option.map_some]
    split
    · next heq => cases heq
    · next heq => exact absurd (Option.some.inj heq) (hnull a rfl)
    · next heq =>
      cases heq
      rw [(h a rfl).reads, Option.map_some]

theorem string_ne_null (text : String) : Json.string text ≠ .null := by
  intro h
  cases h

theorem object_ne_null (fields : Fields) : Json.object fields ≠ .null := by
  intro h
  cases h

theorem printable_optionalField {value : Option α} (h : ∀ a ∈ value, ReadsBack decode encode n a)
    (name : String) : ∀ e ∈ optionalField name encode value, e.2.Printable n := by
  cases value with
  | none => exact List.forall_mem_nil _
  | some a => exact List.forall_mem_singleton.mpr (h a rfl).printable

end Json

end FeatureFlags
