import FeatureFlags.Flag.Basic
import FeatureFlags.Proofs.Json.Codecs

/-!
# Flags round-trip

`Flag.roundTrips`: flags, with the schemas, the values of their variants, and the allocations of
their rules.

The fields of a schema are put in order when they are decoded, and the value of a variant is decoded
as the value that its tree denotes (`Json.normalize?`): both stay as they are from then on. What has
defaults needs a few levels to write them.
-/

namespace FeatureFlags

open Json

variable {n : Nat} (origin origin' : Origin)

/-! ## Schemas -/

namespace FieldType

theorem fieldsOfJson?_eq (fields : Fields) :
    fieldsOfJson? fields = asEntries? ofJson? (.object fields) := by
  show fieldsOfJson? fields = fields.mapM fun e => (ofJson? e.2).map (e.1, ·)
  induction fields with
  | nil => rfl
  | cons e fields ih =>
    obtain ⟨name, j⟩ := e
    rw [fieldsOfJson?, ih, List.mapM_cons]
    cases ofJson? j <;> rfl

theorem fieldsToJson_eq (fields : List (String × FieldType)) :
    fieldsToJson fields = Entries.map toJson fields := by
  induction fields with
  | nil => rfl
  | cons e fields ih =>
    obtain ⟨name, type⟩ := e
    rw [fieldsToJson, ih]
    rfl

/-- The fields of an object as the types of fields, in order. -/
def asFieldTypes? (j : Json) : Option (List (String × FieldType)) :=
  (asEntries? ofJson? j).map Entries.ofList

/-- The types of fields as an object. -/
def ofFieldTypes (fields : List (String × FieldType)) : Json := .object (Entries.map toJson fields)

theorem roundTrips_fields {fields : List (String × FieldType)}
    (ih : ∀ m < n, ∀ type, RoundTrips ofJson? ofJson? toJson m type) :
    RoundTrips asFieldTypes? asFieldTypes? ofFieldTypes n fields := by
  intro j hj h
  obtain ⟨entries, hentries, rfl⟩ := Option.map_eq_some_iff.mp h
  cases j with
  | object given =>
    obtain ⟨m, rfl, hgiven⟩ := within_object_iff.mp hj
    obtain ⟨hread, hprintable⟩ :=
      entries_of_asEntries? hgiven hentries fun e _ => ih m (Nat.lt_succ_self m) e.2
    refine ⟨?_, hprintable⟩
    rw [ofFieldTypes, asFieldTypes?, hread, Option.map_some,
      (Entries.ascending_ofList entries).ofList_eq]
  | _ => cases hentries

theorem readsBack_of_ofName? {name : String} {type : FieldType} (h : ofName? name = some type) :
    ReadsBack ofJson? toJson n type := by
  unfold ofName? at h
  split at h
  · cases h
    exact ⟨rfl, printable_string _⟩
  · cases h
    exact ⟨rfl, printable_string _⟩
  · cases h
    exact ⟨rfl, printable_string _⟩
  · cases h
    exact ⟨rfl, printable_string _⟩
  · cases h

/-- **Types of fields round-trip.** -/
theorem roundTrips (type : FieldType) : RoundTrips ofJson? ofJson? toJson n type := by
  induction n using Nat.strong_induction_on generalizing type with
  | _ n ih =>
    intro j hj h
    unfold ofJson? at h
    split at h
    · exact readsBack_of_ofName? h
    · next tag content =>
      obtain ⟨m, rfl, hfields⟩ := within_object_iff.mp hj
      have hcontent : content.Within m := hfields _ List.mem_cons_self
      have hlt : m < m + 1 := Nat.lt_succ_self m
      split at h
      · next given =>
        obtain ⟨fields, hgiven, rfl⟩ := Option.map_eq_some_iff.mp h
        rw [fieldsOfJson?_eq] at hgiven
        have hdecode : asFieldTypes? (.object given) = some (Entries.ofList fields) := by
          rw [asFieldTypes?, hgiven, Option.map_some]
        have hread := roundTrips_fields (fun k hk => ih k (hk.trans hlt)) hcontent hdecode
        have hencode : (struct (Entries.ofList fields)).toJson =
            .object [("struct", ofFieldTypes (Entries.ofList fields))] := by
          rw [toJson, fieldsToJson_eq, ofFieldTypes]
        have htagged : ∀ given, ofJson? (.object [("struct", .object given)]) =
            (asFieldTypes? (.object given)).map struct := fun given => by
          rw [asFieldTypes?, ofJson?, fieldsOfJson?_eq, Option.map_map]
          rfl
        exact hread.tagged rfl hencode (htagged _)
      · obtain ⟨item, hitem, rfl⟩ := Option.map_eq_some_iff.mp h
        exact (ih m hlt item hcontent hitem).tagged rfl rfl rfl
      · exact readsBack_of_ofName? h
      · cases h
    · cases h

end FieldType

namespace Schema

/-- **Schemas round-trip.** -/
theorem roundTrips (s : Schema) : RoundTrips ofJson? ofJson? toJson n s := by
  have hdecode : ∀ j, ofJson? j = (FieldType.asFieldTypes? j).map Schema.mk := by
    intro j
    cases j with
    | object fields =>
      rw [FieldType.asFieldTypes?, ofJson?, FieldType.fieldsOfJson?_eq, Option.map_map]
      rfl
    | _ => rfl
  intro j hj h
  rw [hdecode, Option.map_eq_some_iff] at h
  obtain ⟨fields, hfields, rfl⟩ := h
  obtain ⟨hread, hprintable⟩ :=
    FieldType.roundTrips_fields (fun _ _ type => type.roundTrips) hj hfields
  have hencode : toJson ⟨fields⟩ = FieldType.ofFieldTypes fields := by
    rw [toJson, FieldType.fieldsToJson_eq, FieldType.ofFieldTypes]
  rw [← hencode] at hread hprintable
  exact ⟨by rw [hdecode, hread, Option.map_some], hprintable⟩

theorem readsBack_empty (hn : 1 ≤ n) : ReadsBack ofJson? toJson n empty := by
  obtain ⟨m, rfl⟩ := Nat.exists_eq_add_of_le' hn
  exact ⟨rfl, printable_object_iff.mpr (List.forall_mem_nil _)⟩

end Schema

/-! ## Variants -/

mutual

theorem depth_of_normalize? : {j v : Json} → j.normalize? = some v → v.depth ≤ j.depth
  | .null, v, h => by
    cases h
    exact Nat.le_refl 0
  | .bool _, v, h => by
    cases h
    exact Nat.le_refl 0
  | .string _, v, h => by
    cases h
    exact Nat.le_refl 0
  | .number n, v, h => by
    rw [normalize?] at h
    split at h
    · cases h
      exact Nat.le_refl 0
    · cases h
  | .array items, v, h => by
    rw [normalize?, Option.map_eq_some_iff] at h
    obtain ⟨vs, hvs, rfl⟩ := h
    exact Nat.add_le_add_right (depthOfItems_of_normalizeItems? hvs) 1
  | .object fields, v, h => by
    rw [normalize?, Option.map_eq_some_iff] at h
    obtain ⟨fs, hfs, rfl⟩ := h
    have hle := depthOfFields_le_iff.mp (depthOfFields_of_normalizeFields? hfs)
    exact Nat.add_le_add_right
      (depthOfFields_le_iff.mpr fun e he => hle e (Entries.mem_of_mem_ofList he)) 1
  | .unreadable, v, h => by cases h

theorem depthOfItems_of_normalizeItems? : {items vs : List Json} →
    normalizeItems? items = some vs → depthOfItems vs ≤ depthOfItems items
  | [], vs, h => by
    cases h
    exact Nat.le_refl 0
  | j :: items, vs, h => by
    simp only [normalizeItems?, Option.bind_eq_bind, Option.pure_def, Option.bind_eq_some_iff,
      Option.some.injEq] at h
    obtain ⟨v, hv, ws, hws, rfl⟩ := h
    exact max_le_max (depth_of_normalize? hv) (depthOfItems_of_normalizeItems? hws)

theorem depthOfFields_of_normalizeFields? : {fields fs : Fields} →
    normalizeFields? fields = some fs → depthOfFields fs ≤ depthOfFields fields
  | [], fs, h => by
    cases h
    exact Nat.le_refl 0
  | (key, j) :: fields, fs, h => by
    simp only [normalizeFields?, Option.bind_eq_bind, Option.pure_def, Option.bind_eq_some_iff,
      Option.some.injEq] at h
    obtain ⟨v, hv, ws, hws, rfl⟩ := h
    exact max_le_max (depth_of_normalize? hv) (depthOfFields_of_normalizeFields? hws)

end

/-- The fields of an object that is a value. -/
theorem roundTrips_fields (fields : Fields) : RoundTrips asFields? asFields? .object n fields := by
  intro j hj h
  unfold asFields? at h
  split at h
  · next given hnormalize =>
    cases h
    have hnormal : (object fields).Normal := normal_of_normalize? hnormalize
    refine ⟨?_, hnormal.readable, (depth_of_normalize? hnormalize).trans hj.depth_le⟩
    rw [asFields?, normalize?_of_normal hnormal]
  · cases h

theorem readsBack_noFields (hn : 1 ≤ n) : ReadsBack asFields? .object n [] := by
  obtain ⟨m, rfl⟩ := Nat.exists_eq_add_of_le' hn
  exact ⟨rfl, printable_object_iff.mpr (List.forall_mem_nil _)⟩

namespace Variant

/-- **Variants round-trip.** -/
theorem roundTrips (v : Variant) (hn : 2 ≤ n) : RoundTrips ofJson? ofJson? toJson n v := by
  intro j hj h
  simp only [ofJson?, Option.bind_eq_bind, Option.bind_eq_some_iff, Option.pure_def,
    Option.some.injEq] at h
  obtain ⟨r, hrecord, name, hname, value, hvalue, rfl⟩ := h
  obtain ⟨m, rfl, hr⟩ := Record.within_of_ofJson? hj hrecord
  have hname := hr.required hname (roundTrips_string name)
  have hvalue := hr.defaulted hvalue (readsBack_noFields (by omega)) (roundTrips_fields value)
  constructor
  · simp only [ofJson?, Option.bind_eq_bind, Option.bind_eq_some_iff]
    exact ⟨_, Record.ofJson?_object rfl (by decide), _, hname.required rfl,
      _, hvalue.defaulted rfl, rfl⟩
  · simp [toJson, printable_object_iff, hname.printable, hvalue.printable]

end Variant

/-! ## Allocations -/

namespace BucketRange

theorem roundTrips (range : BucketRange) : RoundTrips ofJson? ofJson? toJson n range := by
  intro j hj h
  simp only [ofJson?, Option.bind_eq_bind, Option.bind_eq_some_iff, Option.pure_def,
    Option.some.injEq] at h
  obtain ⟨r, hrecord, lower, hlower, upper, hupper, rfl⟩ := h
  obtain ⟨m, rfl, hr⟩ := Record.within_of_ofJson? hj hrecord
  have hlower := hr.required hlower (roundTrips_nat lower)
  have hupper := hr.required hupper (roundTrips_nat upper)
  constructor
  · simp only [ofJson?, Option.bind_eq_bind, Option.bind_eq_some_iff]
    exact ⟨_, Record.ofJson?_object rfl (by decide), _, hlower.required rfl,
      _, hupper.required rfl, rfl⟩
  · simp [toJson, printable_object_iff, hlower.printable, hupper.printable]

end BucketRange

/-- What an assignment gives is written with two levels at most, and read back whatever it is. -/
theorem AssignmentKind.readsBack (kind : AssignmentKind) (hn : 2 ≤ n) :
    ReadsBack (ofJson? origin) toJson n kind := by
  obtain ⟨m, rfl⟩ := Nat.exists_eq_add_of_le' hn
  cases kind with
  | variant name =>
    constructor
    · cases origin <;> rfl
    · simp [toJson, printable_object_iff, printable_string]
  | fallthrough => exact ⟨rfl, printable_string _⟩
  | clientDefault => exact ⟨rfl, printable_string _⟩

namespace Assignment

theorem roundTrips (a : Assignment) (hn : 3 ≤ n) :
    RoundTrips (ofJson? origin) (ofJson? origin') toJson n a := by
  intro j hj h
  simp only [ofJson?, Option.bind_eq_bind, Option.bind_eq_some_iff, Option.pure_def,
    Option.some.injEq] at h
  obtain ⟨r, hrecord, id, hid, kind, -, ranges, hranges, rfl⟩ := h
  obtain ⟨m, rfl, hr⟩ := Record.within_of_ofJson? hj hrecord
  have hid := hr.required hid (roundTrips_string id)
  have hkind : ReadsBack (AssignmentKind.ofJson? origin') AssignmentKind.toJson m kind :=
    kind.readsBack origin' (by omega)
  have hranges := hr.required hranges (.list fun _ _ range _ => range.roundTrips)
  constructor
  · simp only [ofJson?, Option.bind_eq_bind, Option.bind_eq_some_iff]
    exact ⟨_, Record.ofJson?_object rfl (by decide), _, hid.required rfl, _, hkind.required rfl,
      _, hranges.required rfl, rfl⟩
  · simp [toJson, printable_object_iff, hid.printable, hkind.printable, hranges.printable]

end Assignment

namespace Allocation

/-- **Allocations round-trip.** -/
theorem roundTrips (a : Allocation) (hn : 5 ≤ n) :
    RoundTrips (ofJson? origin) (ofJson? origin') toJson n a := by
  intro j hj h
  simp only [ofJson?, Option.bind_eq_bind, Option.bind_eq_some_iff, Option.pure_def,
    Option.some.injEq] at h
  obtain ⟨r, hrecord, count, hcount, assignments, hassignments, rfl⟩ := h
  obtain ⟨m, rfl, hr⟩ := Record.within_of_ofJson? hj hrecord
  have hcount := hr.required hcount (roundTrips_nat count)
  have hassignments := hr.required hassignments
    (.list fun _ _ a _ => a.roundTrips origin origin' (by omega))
  constructor
  · simp only [ofJson?, Option.bind_eq_bind, Option.bind_eq_some_iff]
    exact ⟨_, Record.ofJson?_object rfl (by decide), _, hcount.required rfl,
      _, hassignments.required rfl, rfl⟩
  · simp [toJson, printable_object_iff, hcount.printable, hassignments.printable]

end Allocation

/-! ## Rules -/

theorem ReadMode.readsBack (mode : ReadMode) (hn : 1 ≤ n) : ReadsBack ofJson? toJson n mode := by
  obtain ⟨m, rfl⟩ := Nat.exists_eq_add_of_le' hn
  refine ⟨rfl, ?_⟩
  simp [toJson, printable_object_iff, printable_bool]

theorem Stickiness.readsBack (s : Stickiness) (hn : 2 ≤ n) : ReadsBack ofJson? toJson n s := by
  obtain ⟨m, rfl⟩ := Nat.exists_eq_add_of_le' hn
  obtain ⟨read, write, mode⟩ := s
  have hmode : ReadsBack ReadMode.ofJson? ReadMode.toJson (m + 1) mode := mode.readsBack (by omega)
  have htext : ∀ text : Option String, ∀ a ∈ text, ReadsBack asString? .string (m + 1) a :=
    fun _ a _ => readsBack_string a
  constructor
  · cases read <;> cases write <;> rfl
  · simp only [toJson, printable_object_iff, List.forall_mem_append, List.forall_mem_singleton]
    exact ⟨⟨printable_optionalField (htext read) _, printable_optionalField (htext write) _⟩,
      hmode.printable⟩

namespace FlagRule

/-- **Rules round-trip.** -/
theorem roundTrips (rule : FlagRule) (hn : 6 ≤ n) :
    RoundTrips (ofJson? origin) (ofJson? origin') toJson n rule := by
  intro j hj h
  simp only [ofJson?, Option.bind_eq_bind, Option.bind_eq_some_iff, Option.pure_def,
    Option.some.injEq] at h
  obtain ⟨r, hrecord, name, hname, enabled, henabled, segment, hsegment, selector, hselector,
    allocation, hallocation, stickiness, hstickiness, rfl⟩ := h
  obtain ⟨m, rfl, hr⟩ := Record.within_of_ofJson? hj hrecord
  have hname := hr.required hname (roundTrips_string name)
  have henabled := hr.defaulted henabled (readsBack_bool true) (roundTrips_bool enabled)
  have hsegment := hr.required hsegment (roundTrips_string segment)
  have hselector := hr.optionalDefaulted hselector fun text _ => roundTrips_string text
  have hallocation := hr.required hallocation (allocation.roundTrips origin origin' (by omega))
  have hstickiness : ∀ s ∈ stickiness, ReadsBack Stickiness.ofJson? Stickiness.toJson m s :=
    fun s _ => s.readsBack (by omega)
  constructor
  · simp only [ofJson?, Option.bind_eq_bind, Option.bind_eq_some_iff]
    refine ⟨_, Record.ofJson?_object_of_sublist ?_ (by decide), _, hname.required rfl,
      _, henabled.defaulted rfl, _, hsegment.required rfl,
      _, optionalDefaulted_of_readsBack hselector (fun _ _ => string_ne_null _) ?_,
      _, hallocation.required ?_,
      _, optionalDefaulted_of_readsBack hstickiness (fun _ _ => object_ne_null _) ?_, rfl⟩
    · cases selector <;> cases stickiness <;> simp [optionalField]
    all_goals cases selector <;> cases stickiness <;> rfl
  · simp only [toJson, printable_object_iff, List.forall_mem_append, List.forall_mem_cons]
    exact ⟨⟨⟨⟨hname.printable, henabled.printable, hsegment.printable, List.forall_mem_nil _⟩,
      printable_optionalField hselector _⟩, hallocation.printable, List.forall_mem_nil _⟩,
      printable_optionalField hstickiness _⟩

end FlagRule

/-! ## Flags -/

theorem FlagState.readsBack (state : FlagState) :
    ReadsBack ofJson? (fun s => .string s.name) n state := by
  cases state <;> exact ⟨rfl, printable_string _⟩

namespace Flag

/-- **Flags round-trip.** -/
theorem roundTrips (flag : Flag) (hn : 8 ≤ n) :
    RoundTrips (ofJson? origin) (ofJson? origin') toJson n flag := by
  intro j hj h
  simp only [ofJson?, Option.bind_eq_bind, Option.bind_eq_some_iff, Option.pure_def,
    Option.some.injEq] at h
  obtain ⟨r, hrecord, name, hname, state, -, schema, hschema, variants, hvariants, rules, hrules,
    clients, hclients, rfl⟩ := h
  obtain ⟨m, rfl, hr⟩ := Record.within_of_ofJson? hj hrecord
  have hname := hr.required hname (roundTrips_string name)
  have hstate : ReadsBack FlagState.ofJson? (fun s => .string s.name) m state := state.readsBack
  have hschema := hr.defaulted hschema (Schema.readsBack_empty (by omega)) schema.roundTrips
  have hvariants := hr.defaulted hvariants (readsBack_nil (by omega))
    (.list fun _ _ v _ => v.roundTrips (by omega))
  have hrules := hr.defaulted hrules (readsBack_nil (by omega))
    (.list fun _ _ rule _ => rule.roundTrips origin origin' (by omega))
  have hclients := hr.defaulted hclients (readsBack_nil (by omega))
    (.list fun _ _ client _ => roundTrips_string client)
  constructor
  · simp only [ofJson?, Option.bind_eq_bind, Option.bind_eq_some_iff]
    exact ⟨_, Record.ofJson?_object rfl (by decide), _, hname.required rfl, _, hstate.defaulted rfl,
      _, hschema.defaulted rfl, _, hvariants.defaulted rfl, _, hrules.defaulted rfl,
      _, hclients.defaulted rfl, rfl⟩
  · simp [toJson, printable_object_iff, hname.printable, hstate.printable, hschema.printable,
      hvariants.printable, hrules.printable, hclients.printable]

end Flag

end FeatureFlags
