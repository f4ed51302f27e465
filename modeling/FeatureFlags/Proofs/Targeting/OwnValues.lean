import FeatureFlags.Proofs.Scalar.Codecs
import FeatureFlags.Proofs.Targeting.Matching

/-!
# Rules accept their own values

A value of a rule is read from a snapshot, and an attribute from a request, by two readers.
`AttributeRule.accepts_own_value`: sent as an attribute in the form it has in a snapshot, a value is
read as itself, and so it is accepted by equality to it, by the sets it is in and by the intervals
it lies in. A set of several kinds may still refuse it (`AttributeRule.mixed_set_refuses_own_value`),
because an attribute is read as a value of the kind that the first value of the set has.

The reader of attributes takes forms that a snapshot may not have, and of the timestamps that a
snapshot may have it takes only those of RFC 3339. But what a value is written as, both read alike
(`Scalar.coerce_payload`).
-/

namespace FeatureFlags

open Std

namespace Scalar

variable {kind : ScalarKind} {j tree : Json} {x : Scalar}

/-- What stands under the kind of a value from a snapshot is read as the value again. -/
theorem ofPayload?_payload (hrange : tree.InRange) (h : ofJson? tree = some x) (hdated : x.Dated) :
    ofPayload? x.kind x.payload = some x := by
  have hreads : ofJson? x.toJson = some x :=
    (roundTrips hdated ⟨hrange, Nat.le_refl tree.depth⟩ h).reads
  have hwritten : ofJson? x.toJson = ofPayload? x.kind x.payload := by
    show (ScalarKind.ofName? x.kind.name).bind _ = _
    rw [ScalarKind.ofName?_name, Option.bind_some]
  rw [← hwritten, hreads]

/-- **What a value is written as in a snapshot is the same value as an attribute**, if a snapshot
reads it so. -/
theorem coerce_payload (h : ofPayload? x.kind x.payload = some x) (hdated : x.Dated) :
    coerce x.payload x.kind = some x := by
  cases x with
  | bool b => rfl
  | number d =>
    obtain ⟨d', hd, hsame⟩ := Option.map_eq_some_iff.mp h
    cases hsame
    -- what is not finite is written as no number
    cases hfinite : d.isFinite with
    | true =>
      rw [payload, hfinite] at hd ⊢
      exact congrArg (Option.map number) hd
    | false =>
      rw [payload, hfinite] at hd
      cases hd
  | string s => rfl
  | timestamp t =>
    have hrange : t.InRange := by
      cases ofKind_of_ofPayload? h with
      | timestamp hrange => exact hrange
    have hread := Instant.ofText?_toText hrange.toWellFormed hdated.1 hdated.2
    show (Instant.ofText? t.toText).map timestamp = _
    rw [hread, Option.map_some]
  | version v => exact h

theorem isPlain_of_ofPayload? (h : ofPayload? kind j = some x) : Condition.isPlain j = true := by
  cases kind <;> cases j <;> first | rfl | cases h

theorem kind_eq_of_sameAs {y : Scalar} (h : x.sameAs y = true) : x.kind = y.kind :=
  kind_eq_of_order_eq (sameAs_iff.mp h)

/-- The first value of a set of one kind has the kind of all its members. -/
theorem kind_of_head? {set : List Scalar} (hone : OneKind set) (hmember : memberOf x set = true) :
    ∀ first ∈ set.head?, first.kind = x.kind := by
  intro first hfirst
  obtain ⟨y, hy, hsame⟩ := List.any_eq_true.mp hmember
  rw [kind_eq_of_sameAs hsame]
  exact hone first (List.mem_of_head? hfirst) y hy

end Scalar

namespace Condition

variable {found : Json} {x : Scalar}

theorem accepts_eq (hread : Scalar.coerce found x.kind = some x) : (eq x).accepts found = true := by
  have hkind : (eq x).kind = .ok (some x.kind) := rfl
  exact (accepts_iff_holds hkind).mpr ⟨x, hread, holds_eq_iff.mpr ReflCmp.compare_self⟩

/-- A set whose first value is of the kind accepts what is read as a member, whatever kinds the
other values are of. -/
theorem accepts_oneOf {set : List Scalar} (hread : Scalar.coerce found x.kind = some x)
    (hmember : Scalar.memberOf x set = true) (hfirst : ∀ first ∈ set.head?, first.kind = x.kind) :
    (oneOf set).accepts found = true := by
  obtain ⟨y, hy, hsame⟩ := List.any_eq_true.mp hmember
  cases set with
  | nil => cases hy
  | cons first rest =>
    rw [accepts, hfirst first rfl, hread, Option.any_some, List.any_eq_true]
    exact ⟨y, hy, (Scalar.sameAs_comm y x).trans hsame⟩

/-- An interval accepts what is read as a value that lies in it. Only an interval without bounds
does not look at the value. -/
theorem accepts_within {i : Interval} (hread : Scalar.coerce found x.kind = some x)
    (hplain : isPlain found = true) (hinside : i.contains x = .ok true) :
    (within i).accepts found = true := by
  obtain ⟨hone, hhas⟩ := Interval.contains_eq_ok_iff.mp hinside
  have hkind : (within i).kind = .ok (i.endpoints.head?.map Scalar.kind) :=
    Scalar.uniformKind_eq_ok_iff.mpr ⟨hone.mono (List.subset_cons_self x _), rfl⟩
  cases hhead : i.endpoints.head? with
  | none =>
    rw [hhead] at hkind
    have hunbounded : i.kind = .ok none := hkind
    rw [accepts, hunbounded]
    exact hplain
  | some bound =>
    have hbound : bound.kind = x.kind :=
      Scalar.oneKind_cons_iff.mp hone bound (List.mem_of_head? hhead)
    rw [hhead, Option.map_some, hbound] at hkind
    exact (accepts_iff_holds hkind).mpr ⟨x, hread, holds_within_iff.mpr (hhas.mp rfl)⟩

end Condition

namespace AttributeRule

/-- **Rules accept their own values.** Let a value be decoded from a snapshot. In the form that it is
written in it is read as an attribute of its kind, and as the same value. So it is accepted by the
rule of equality to it; by every set it is in, if the first value of the set is of its kind, which
well-formed sets take care of; and by every interval it lies in. -/
theorem accepts_own_value {tree : Json} {x : Scalar} (hrange : tree.InRange)
    (hdecode : Scalar.ofJson? tree = some x) (hdated : x.Dated) :
    (∃ y, Scalar.coerce x.payload x.kind = some y ∧ y.sameAs x = true) ∧
    (plain (.eq x)).accepts x.payload = true ∧
    (∀ set, Scalar.memberOf x set = true → (∀ first ∈ set.head?, first.kind = x.kind) →
      (plain (.oneOf set)).accepts x.payload = true) ∧
    (∀ set, Scalar.memberOf x set = true → (plain (.oneOf set)).validate = .ok () →
      (plain (.oneOf set)).accepts x.payload = true) ∧
    ∀ i : Interval, i.contains x = .ok true → (plain (.within i)).accepts x.payload = true := by
  have hpayload := Scalar.ofPayload?_payload hrange hdecode hdated
  have hread : Scalar.coerce x.payload x.kind = some x := Scalar.coerce_payload hpayload hdated
  refine ⟨⟨x, hread, x.sameAs_self⟩, ?_, fun set hmember hfirst => ?_,
    fun set hmember hvalid => ?_, fun i hinside => ?_⟩
  · exact Condition.accepts_eq hread
  · exact Condition.accepts_oneOf hread hmember hfirst
  · have hone : Scalar.OneKind set := (validate_eq_ok_iff.mp hvalid).1
    exact Condition.accepts_oneOf hread hmember (Scalar.kind_of_head? hone hmember)
  · exact Condition.accepts_within hread (Scalar.isPlain_of_ofPayload? hpayload) hinside

/-- The leap second at the end of a leap day, with an offset from UTC. -/
def leapTree : Json := .object [("timestamp", .string "2024-03-01T05:29:60.5+05:30")]

/-- The second. -/
def leapSecond : Scalar := .timestamp { seconds := 1709251199, nanos := 1500000000 }

/-- A set with an earlier instant in front of it. -/
def leapSet : List Scalar := [.timestamp { seconds := 0, nanos := 0 }, leapSecond]

/-- From the last second of the day on, but before the next day. -/
def dayEnd : Interval where
  lower := some { value := .timestamp { seconds := 1709251199, nanos := 0 }, inclusive := true }
  upper := some { value := .timestamp { seconds := 1709251200, nanos := 0 }, inclusive := false }

theorem leapSecond_accepted :
    leapTree.InRange ∧ Scalar.ofJson? leapTree = some leapSecond ∧ leapSecond.Dated ∧
      leapSecond.payload = .string "2024-02-29T23:59:60.500Z" ∧
      (plain (.eq leapSecond)).accepts leapSecond.payload = true ∧
      (plain (.oneOf [leapSecond, .bool true])).accepts leapSecond.payload = true ∧
      Scalar.memberOf leapSecond leapSet = true ∧ (plain (.oneOf leapSet)).validate = .ok () ∧
      (plain (.oneOf leapSet)).accepts leapSecond.payload = true ∧
      dayEnd.contains leapSecond = .ok true ∧
      (plain (.within dayEnd)).accepts leapSecond.payload = true := by
  have hrange : leapTree.InRange := by simp [leapTree, Json.InRange, Json.FieldsInRange]
  have hdecode : Scalar.ofJson? leapTree = some leapSecond := by decide +kernel
  have hdated : leapSecond.Dated := by
    show 0 ≤ (CivilDate.ofDays _).year ∧ (CivilDate.ofDays _).year ≤ 9999
    decide
  have hmember : Scalar.memberOf leapSecond leapSet = true := by decide
  have hpayload : leapSecond.payload = .string "2024-02-29T23:59:60.500Z" :=
    congrArg Json.string (by decide +kernel)
  have hinside : dayEnd.contains leapSecond = .ok true := by decide
  have hfirst : ∀ first ∈ [leapSecond, .bool true].head?, first.kind = leapSecond.kind := by
    rintro first ⟨⟩
    rfl
  obtain ⟨-, heq, hmixed, hset, hinterval⟩ := accepts_own_value hrange hdecode hdated
  exact ⟨hrange, hdecode, hdated, hpayload, heq, hmixed _ (by decide) hfirst, hmember, rfl,
    hset leapSet hmember rfl, hinside, hinterval dayEnd hinside⟩

/-- Eighteen, as a double. -/
def eighteen : Scalar := .number ⟨0x4032000000000000⟩

/-- A set of two kinds. -/
def mixedSet : List Scalar := [.bool true, eighteen]

/-- A set of two kinds reads its own number as a truth value and refuses it. No well-formed rule has
such a set. -/
theorem mixed_set_refuses_own_value :
    eighteen.toJson.InRange ∧ Scalar.ofJson? eighteen.toJson = some eighteen ∧ eighteen.Dated ∧
      eighteen ∈ mixedSet ∧ (plain (.oneOf mixedSet)).accepts eighteen.payload = false ∧
      (plain (.oneOf mixedSet)).validate =
        .error (.kindMismatch { expected := .bool, found := .number }) := by
  have hpayload : eighteen.payload = .number (.double ⟨0x4032000000000000⟩) := rfl
  refine ⟨?_, by decide, trivial, by decide, by decide, by decide⟩
  rw [Scalar.toJson, hpayload]
  exact ⟨rfl, trivial⟩

end AttributeRule

end FeatureFlags
