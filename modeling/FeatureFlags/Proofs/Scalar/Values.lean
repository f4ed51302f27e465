import FeatureFlags.Proofs.Instant.Loose
import FeatureFlags.Proofs.Version.ReadBack
import FeatureFlags.Scalar.Coercion
import Mathlib.Tactic.SplitIfs

/-!
# Values of a kind

`Scalar.OfKind`: the values that can be read. Whatever is decoded from a snapshot is one of its kind
(`Scalar.ofKind_of_ofPayload?`), and so is whatever an attribute is read as
(`Scalar.ofKind_of_coerce`).
-/

namespace FeatureFlags.Scalar

/-- The value is one of the kind: an instant in range, a version as it may be read, or any boolean,
pattern of a double or text. -/
inductive OfKind : ScalarKind → Scalar → Prop where
  | bool (b : Bool) : OfKind .bool (.bool b)
  | number (d : Double) : OfKind .number (.number d)
  | string (s : String) : OfKind .string (.string s)
  | timestamp {t : Instant} (h : t.InRange) : OfKind .timestamp (.timestamp t)
  | version {v : Version} (h : v.WellFormed) : OfKind .version (.version v)

variable {kind : ScalarKind} {j : Json} {x : Scalar}

theorem OfKind.kind_eq (h : OfKind kind x) : x.kind = kind := by
  cases h <;> rfl

/-- Whatever is read from a snapshot is a value of its kind. -/
theorem ofKind_of_ofPayload? (h : ofPayload? kind j = some x) : OfKind kind x := by
  unfold ofPayload? at h
  split at h
  · obtain ⟨b, -, rfl⟩ := Option.map_eq_some_iff.mp h
    exact .bool b
  · obtain ⟨d, -, rfl⟩ := Option.map_eq_some_iff.mp h
    exact .number d
  · obtain ⟨s, -, rfl⟩ := Option.map_eq_some_iff.mp h
    exact .string s
  · obtain ⟨text, -, h⟩ := Option.bind_eq_some_iff.mp h
    obtain ⟨t, ht, rfl⟩ := Option.map_eq_some_iff.mp h
    exact .timestamp (Instant.inRange_of_ofLooseText? ht)
  · obtain ⟨text, -, h⟩ := Option.bind_eq_some_iff.mp h
    obtain ⟨v, hv, rfl⟩ := Option.map_eq_some_iff.mp h
    exact .version (Version.wellFormed_of_ofText? hv)

/-- Whatever an attribute is read as is a value of the kind. -/
theorem ofKind_of_coerce (h : coerce j kind = some x) : OfKind kind x := by
  cases kind with
  | bool =>
    have h : coerceBool j = some x := h
    unfold coerceBool at h
    split at h
    · cases h
      exact .bool _
    · dsimp only at h
      split_ifs at h <;> cases h <;> exact .bool _
    · cases h
  | number =>
    have h : coerceNumber j = some x := h
    unfold coerceNumber at h
    split at h
    · cases h
      exact .number _
    · obtain ⟨d, -, rfl⟩ := Option.map_eq_some_iff.mp h
      exact .number d
    · cases h
  | string =>
    have h : coerceString j = some x := h
    unfold coerceString at h
    split at h <;> cases h <;> exact .string _
  | timestamp =>
    have h : coerceTimestamp j = some x := h
    unfold coerceTimestamp at h
    split at h
    · obtain ⟨t, ht, rfl⟩ := Option.map_eq_some_iff.mp h
      exact .timestamp (Instant.inRange_of_ofText? ht)
    · obtain ⟨t, ht, rfl⟩ := Option.map_eq_some_iff.mp h
      unfold instantOfSeconds? at ht
      dsimp only at ht
      split at ht
      · exact .timestamp (Instant.inRange_of_ofMillis? ht)
      · cases ht
    · cases h
  | version =>
    have h : coerceVersion j = some x := h
    unfold coerceVersion at h
    split at h
    · obtain ⟨v, hv, rfl⟩ := Option.map_eq_some_iff.mp h
      exact .version (Version.wellFormed_of_ofText? hv)
    · cases h

end FeatureFlags.Scalar
