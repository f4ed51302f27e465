import FeatureFlags.Proofs.Json.Records

/-!
# Trees that a reader makes

`Json.Within n j`: the tree has at most `n` levels, and every number in it is one that a text can
denote. Parts of it may be unreadable, and keys may be repeated. Every tree that is read from a text
is of this kind for the levels that the reader follows: `Json.within_of_ofText?`.
-/

namespace FeatureFlags

namespace Json

open Text (Decoded)

mutual

/-- Every number in the tree is one that a text can denote. -/
def InRange : Json → Prop
  | .number n => n.isNormal = true
  | .array items => ItemsInRange items
  | .object fields => FieldsInRange fields
  | _ => True

/-- Every number in the items is in range. -/
def ItemsInRange : List Json → Prop
  | [] => True
  | j :: rest => j.InRange ∧ ItemsInRange rest

/-- Every number in the fields is in range. -/
def FieldsInRange : List (String × Json) → Prop
  | [] => True
  | (_, j) :: rest => j.InRange ∧ FieldsInRange rest

end

theorem itemsInRange_iff (items : List Json) : ItemsInRange items ↔ ∀ j ∈ items, j.InRange := by
  induction items with
  | nil => simp [ItemsInRange]
  | cons j items ih => rw [ItemsInRange, ih, List.forall_mem_cons]

theorem fieldsInRange_iff (fields : List (String × Json)) :
    FieldsInRange fields ↔ ∀ e ∈ fields, e.2.InRange := by
  induction fields with
  | nil => simp [FieldsInRange]
  | cons e fields ih => rw [FieldsInRange, ih, List.forall_mem_cons]

/-- The tree has at most `n` levels, and its numbers are in range. -/
structure Within (n : Nat) (j : Json) : Prop where
  inRange : j.InRange
  depth_le : j.depth ≤ n

variable {n : Nat}

theorem within_array_iff {items : List Json} :
    (array items).Within n ↔ ∃ m, n = m + 1 ∧ ∀ j ∈ items, j.Within m := by
  constructor
  · rintro ⟨hrange, hdepth⟩
    rw [InRange, itemsInRange_iff] at hrange
    cases n with
    | zero => cases hdepth
    | succ m =>
      rw [depth, Nat.add_le_add_iff_right, depthOfItems_le_iff] at hdepth
      exact ⟨m, rfl, fun j hj => ⟨hrange j hj, hdepth j hj⟩⟩
  · rintro ⟨m, rfl, h⟩
    constructor
    · rw [InRange, itemsInRange_iff]
      exact fun j hj => (h j hj).inRange
    · rw [depth, Nat.add_le_add_iff_right, depthOfItems_le_iff]
      exact fun j hj => (h j hj).depth_le

theorem within_object_iff {fields : List (String × Json)} :
    (object fields).Within n ↔ ∃ m, n = m + 1 ∧ ∀ e ∈ fields, e.2.Within m := by
  constructor
  · rintro ⟨hrange, hdepth⟩
    rw [InRange, fieldsInRange_iff] at hrange
    cases n with
    | zero => cases hdepth
    | succ m =>
      rw [depth, Nat.add_le_add_iff_right, depthOfFields_le_iff] at hdepth
      exact ⟨m, rfl, fun e he => ⟨hrange e he, hdepth e he⟩⟩
  · rintro ⟨m, rfl, h⟩
    constructor
    · rw [InRange, fieldsInRange_iff]
      exact fun e he => (h e he).inRange
    · rw [depth, Nat.add_le_add_iff_right, depthOfFields_le_iff]
      exact fun e he => (h e he).depth_le

theorem within_unreadable : Json.unreadable.Within n := ⟨trivial, Nat.zero_le n⟩

/-! ## The reader -/

variable {j : Json} {cs rest : Decoded}

theorem within_numberOf (negative : Bool) (whole : List Char) (fraction : Option (List Char))
    (exponent : Option Int) : (numberOf negative whole fraction exponent).Within n := by
  have hdouble : ∀ (digits : Nat) (e : Int),
      (if (Double.ofDecimal negative digits e).isFinite
        then Json.number (.double (.ofDecimal negative digits e)) else .unreadable).Within n := by
    intro digits e
    split
    · next hfinite => exact ⟨hfinite, Nat.zero_le n⟩
    · exact within_unreadable
  unfold numberOf
  dsimp only
  generalize (if negative = true then -(Nat.ofDigitChars 10 whole 0 : Int) else _) = signed
  split
  · split
    · exact hdouble _ _
    · next hwhole =>
      rw [Bool.or_eq_true, not_or] at hwhole
      have hrange : JsonNumber.inRange signed = true := by simpa using hwhole.2
      exact ⟨hrange, Nat.zero_le n⟩
  · exact hdouble _ _

theorem within_of_readNumber (h : readNumber cs = some (j, rest)) : j.Within n := by
  have hunsigned : ∀ (negative : Bool) (cs : Decoded),
      readUnsigned negative cs = some (j, rest) → j.Within n := by
    intro negative cs h
    unfold readUnsigned at h
    dsimp only at h
    split at h
    · cases h
    · simp only [Option.bind_eq_bind, Option.bind_eq_some_iff, Option.pure_def] at h
      obtain ⟨⟨fraction, _⟩, -, ⟨exponent, _⟩, -, h⟩ := h
      cases h
      exact within_numberOf _ _ _ _
  unfold readNumber at h
  split at h
  · exact hunsigned true _ h
  · exact hunsigned false _ h

/-- What is opened where no level is left is unreadable. -/
theorem within_opened {room : Nat} (h : 0 < room → j.Within room) :
    (if room = 0 then unreadable else j).Within room := by
  split
  · exact within_unreadable
  · exact h (by omega)

theorem within_items {room : Nat} {items : List Json} (h : ∀ j ∈ items, j.Within (room - 1)) :
    (if room = 0 then unreadable else array items).Within room :=
  within_opened fun hroom => within_array_iff.mpr ⟨room - 1, by omega, h⟩

theorem within_fields {room : Nat} {fields : Fields} (h : ∀ e ∈ fields, e.2.Within (room - 1)) :
    (if room = 0 then unreadable else object fields).Within room :=
  within_opened fun hroom => within_object_iff.mpr ⟨room - 1, by omega, h⟩

mutual

theorem within_of_readValue : (fuel room : Nat) → {cs rest : Decoded} → {j : Json} →
    readValue fuel room cs = some (j, rest) → j.Within room
  | 0, _, _, _, _, h => by cases h
  | fuel + 1, room, cs, rest, j, h => by
    unfold readValue at h
    split at h
    · cases h
      exact ⟨trivial, Nat.zero_le room⟩
    · cases h
      exact ⟨trivial, Nat.zero_le room⟩
    · cases h
      exact ⟨trivial, Nat.zero_le room⟩
    · split at h
      · cases h
        exact ⟨trivial, Nat.zero_le room⟩
      · cases h
        exact within_unreadable
      · cases h
    · split at h
      · cases h
        exact within_items (List.forall_mem_nil _)
      · split at h
        · next hitems =>
          cases h
          exact within_items (within_of_readItems fuel (room - 1) hitems)
        · cases h
    · split at h
      · cases h
        exact within_fields (List.forall_mem_nil _)
      · split at h
        · next hfields =>
          cases h
          exact within_fields (within_of_readFields fuel (room - 1) hfields)
        · cases h
          exact within_unreadable
        · cases h
    · exact within_of_readNumber h

theorem within_of_readItems : (fuel room : Nat) → {cs rest : Decoded} → {items : List Json} →
    readItems fuel room cs = some (items, rest) → ∀ j ∈ items, j.Within room
  | 0, _, _, _, _, h => by cases h
  | fuel + 1, room, cs, rest, items, h => by
    unfold readItems at h
    split at h
    · cases h
    · next hvalue =>
      have hj := within_of_readValue fuel room hvalue
      split at h
      · split at h
        · next hitems =>
          cases h
          exact List.forall_mem_cons.mpr ⟨hj, within_of_readItems fuel room hitems⟩
        · cases h
      · cases h
        exact List.forall_mem_singleton.mpr hj
      · cases h

theorem within_of_readFields : (fuel room : Nat) → {cs rest : Decoded} → {fields : Fields} →
    readFields fuel room cs = some (some fields, rest) → ∀ e ∈ fields, e.2.Within room
  | 0, _, _, _, _, h => by cases h
  | fuel + 1, room, cs, rest, fields, h => by
    unfold readFields at h
    split at h
    · split at h
      · cases h
      · next key _ _ =>
        split at h
        · split at h
          · cases h
          · next hvalue =>
            have hj := within_of_readValue fuel room hvalue
            split at h
            · split at h
              · cases h
              · next more _ hmore =>
                cases key <;> cases more <;> cases h
                exact List.forall_mem_cons.mpr ⟨hj, within_of_readFields fuel room hmore⟩
            · cases key <;> cases h
              exact List.forall_mem_singleton.mpr hj
            · cases h
        · cases h
    · cases h

end

/-- **A tree that is read has no more levels than the reader follows, and its numbers are in
range.** -/
theorem within_of_ofText? {text : String} (h : ofText? text = some j) : j.Within maxLevels := by
  unfold ofText? ofDecoded? at h
  split at h
  · next hvalue =>
    split at h
    · cases h
      exact within_of_readValue _ _ hvalue
    · cases h
  · cases h

end Json

end FeatureFlags
