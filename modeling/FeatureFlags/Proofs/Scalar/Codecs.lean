import FeatureFlags.Proofs.Decimal.Rounding
import FeatureFlags.Proofs.Json.Codecs
import FeatureFlags.Proofs.Scalar.Values
import FeatureFlags.Scalar.Interval

/-!
# Scalars and intervals round-trip

`Scalar.roundTrips`: the forms of scalars in snapshots. A number is decoded as a double and written
as one, which takes that it is finite: there are no other numbers in a tree. An instant is written
in UTC, whatever offset it had, and its year has to have four digits there (`Scalar.Dated`).

Bounds and intervals are records of scalars (`Interval.roundTrips`).
-/

namespace FeatureFlags

open Json

theorem JsonNumber.isFinite_toDouble {n : JsonNumber} (h : n.isNormal = true) :
    n.toDouble.isFinite = true := by
  cases n with
  | integer n =>
    refine Double.isFinite_ofInt ?_
    simp only [isNormal, inRange, Bool.and_eq_true, decide_eq_true_eq, Nat.pow_eq] at h
    omega
  | double d => exact h

/-! ## Scalars -/

variable {n : Nat}

theorem ScalarKind.ofName?_name (kind : ScalarKind) : ofName? kind.name = some kind := by
  cases kind <;> rfl

namespace Scalar

/-- A timestamp is of one of the years 0 to 9999. -/
def Dated : Scalar → Prop
  | timestamp t => 0 ≤ t.year ∧ t.year ≤ 9999
  | _ => True

/-- What stands under the kind of a scalar is read as the scalar, and can be written. -/
theorem payload_of_ofPayload? {kind : ScalarKind} {j : Json} {s : Scalar} (hj : j.Within n)
    (h : ofPayload? kind j = some s) (hdated : s.Dated) :
    ofPayload? s.kind s.payload = some s ∧ s.payload.Printable n := by
  cases ofKind_of_ofPayload? h with
  | bool b => exact ⟨rfl, printable_bool b⟩
  | number d =>
    obtain ⟨d', hd, hsame⟩ := Option.map_eq_some_iff.mp h
    cases hsame
    have hfinite : d.isFinite = true := by
      unfold asDouble? at hd
      split at hd
      · cases hd
        exact JsonNumber.isFinite_toDouble hj.inRange
      · cases hd
    have hpayload : payload (number d) = .number (.double d) := if_pos hfinite
    rw [hpayload]
    exact ⟨rfl, (readable_number_iff _).mpr hfinite, Nat.zero_le n⟩
  | string text => exact ⟨rfl, printable_string text⟩
  | @timestamp t hrange =>
    refine ⟨?_, printable_string _⟩
    have hread := Instant.ofLooseText?_toText hrange.toWellFormed hdated.1 hdated.2
    rw [kind, payload, ofPayload?, asString?, Option.bind_some, hread, Option.map_some]
  | @version v hformed =>
    refine ⟨?_, printable_string _⟩
    have hread := Version.ofText?_toText hformed
    rw [kind, payload, ofPayload?, asString?, Option.bind_some, hread, Option.map_some]

/-- **Scalars round-trip.** -/
theorem roundTrips {s : Scalar} (hdated : s.Dated) : RoundTrips ofJson? ofJson? toJson n s := by
  intro j hj h
  unfold ofJson? at h
  split at h
  · next tag content hvariant =>
    obtain rfl := variant?_eq_some_some_iff.mp hvariant
    obtain ⟨m, rfl, hfields⟩ := within_object_iff.mp hj
    obtain ⟨kind, -, h⟩ := Option.bind_eq_some_iff.mp h
    obtain ⟨hread, hprintable⟩ :=
      payload_of_ofPayload? (hfields _ List.mem_cons_self) h hdated
    refine ⟨?_, printable_object_iff.mpr (List.forall_mem_singleton.mpr hprintable)⟩
    show (ScalarKind.ofName? s.kind.name).bind _ = some s
    rw [ScalarKind.ofName?_name, Option.bind_some, hread]
  · cases h

end Scalar

/-! ## Intervals -/

namespace Bound

theorem roundTrips {b : Bound} (hdated : b.value.Dated) :
    RoundTrips ofJson? ofJson? toJson n b := by
  intro j hj h
  simp only [ofJson?, Option.bind_eq_bind, Option.bind_eq_some_iff, Option.pure_def,
    Option.some.injEq] at h
  obtain ⟨r, hrecord, value, hvalue, inclusive, hinclusive, rfl⟩ := h
  obtain ⟨m, rfl, hr⟩ := Record.within_of_ofJson? hj hrecord
  have hvalue := hr.required hvalue (Scalar.roundTrips hdated)
  have hinclusive := hr.required hinclusive (roundTrips_bool inclusive)
  constructor
  · simp only [ofJson?, Option.bind_eq_bind, Option.bind_eq_some_iff]
    exact ⟨_, Record.ofJson?_object rfl (by decide), _, hvalue.required rfl,
      _, hinclusive.required rfl, rfl⟩
  · simp [toJson, printable_object_iff, hvalue.printable, hinclusive.printable]

end Bound

namespace Interval

/-- **Intervals round-trip.** -/
theorem roundTrips {i : Interval} (hdated : ∀ s ∈ i.endpoints, s.Dated) :
    RoundTrips ofJson? ofJson? toJson n i := by
  intro j hj h
  simp only [ofJson?, Option.bind_eq_bind, Option.bind_eq_some_iff, Option.pure_def,
    Option.some.injEq] at h
  obtain ⟨r, hrecord, lower, hlower, upper, hupper, rfl⟩ := h
  obtain ⟨m, rfl, hr⟩ := Record.within_of_ofJson? hj hrecord
  have hlower := hr.optionalDefaulted hlower fun b hb => Bound.roundTrips <| hdated _ <| by
    cases hb
    exact List.mem_cons_self
  have hupper := hr.optionalDefaulted hupper fun b hb => Bound.roundTrips <| hdated _ <| by
    cases hb
    simp [endpoints]
  constructor
  · simp only [ofJson?, Option.bind_eq_bind, Option.bind_eq_some_iff]
    refine ⟨_, Record.ofJson?_object_of_sublist ?_ (by decide),
      _, optionalDefaulted_of_readsBack hlower (fun _ _ => object_ne_null _) ?_,
      _, optionalDefaulted_of_readsBack hupper (fun _ _ => object_ne_null _) ?_, rfl⟩
    · cases lower <;> cases upper <;> simp [optionalField]
    all_goals cases lower <;> cases upper <;> rfl
  · exact printable_object_iff.mpr (List.forall_mem_append.mpr
      ⟨printable_optionalField hlower _, printable_optionalField hupper _⟩)

end Interval

end FeatureFlags
