import FeatureFlags.Proofs.Scalar.Order
import FeatureFlags.Proofs.Scalar.Values
import Mathlib.Data.String.Basic

/-!
# Neighbours among scalars

Each kind has a least value (`Scalar.least`), and right behind a value comes the next one, unless it
is the greatest (`Scalar.next?`): to be above a value is to be the next one or above that
(`Scalar.discrete`).

Behind a double comes the next pattern, behind an instant the next nanosecond, behind a text the
same text with the least character at its end, and behind a pre-release the same one with the least
identifier at its end. A release is followed by the least pre-release of the next numbers.

The values of a kind are those that can be read (`Scalar.OfKind`). Two versions can be the same and be
spelled differently, so what is said of the least value and of the next one holds up to
`Scalar.sameAs`.
-/

namespace FeatureFlags

open Std

/-! ## Orders in steps -/

/-- An order of the valid values in which the next one comes right behind a value. -/
structure Discrete {α : Type} (cmp : α → α → Ordering) (Valid : α → Prop) (least : α)
    (next? : α → Option α) : Prop where
  valid_least : Valid least
  least_le : ∀ y, Valid y → (cmp least y).isLE = true
  valid_next : ∀ x, Valid x → ∀ next ∈ next? x, Valid next
  /-- Above a value is the next one and what is above that. -/
  lt_iff : ∀ x, Valid x → ∀ y, Valid y →
    (cmp x y = .lt ↔ ∃ next ∈ next? x, (cmp next y).isLE = true)

/-! ## Words

Texts are words over characters, and tags are words over identifiers. The next word has the least
letter at its end. -/

section Words

variable {α : Type} {cmp : α → α → Ordering} {letter : α}

theorem compareLex_append_least (hleast : ∀ b, (cmp letter b).isLE = true) (word other : List α) :
    word.compareLex cmp other = .lt ↔
      ((word ++ [letter]).compareLex cmp other).isLE = true := by
  induction word generalizing other with
  | nil =>
    cases other with
    | nil =>
      rw [List.nil_append, List.compareLex_nil_nil, List.compareLex_cons_nil]
      decide
    | cons b rest =>
      rw [List.nil_append, List.compareLex_cons_cons, List.compareLex_nil_cons]
      exact iff_of_true rfl
        (Ordering.isLE_then_iff_and.mpr ⟨hleast b, .inr List.isLE_compareLex_nil_left⟩)
  | cons a word ih =>
    cases other with
    | nil =>
      rw [List.cons_append, List.compareLex_cons_nil, List.compareLex_cons_nil]
      decide
    | cons b rest =>
      rw [List.cons_append, List.compareLex_cons_cons, List.compareLex_cons_cons,
        Ordering.then_eq_lt, Ordering.isLE_then_iff_or, ih]

theorem compareLex_eq_lt_iff (as bs : List Char) :
    as.compareLex Ord.compare bs = .lt ↔ as < bs := by
  induction as generalizing bs with
  | nil =>
    cases bs with
    | nil => exact iff_of_false (by rw [List.compareLex_nil_nil]; decide) (List.not_lt_nil _)
    | cons b bs => exact iff_of_true List.compareLex_nil_cons (List.nil_lt_cons b bs)
  | cons a as ih =>
    cases bs with
    | nil => exact iff_of_false (by rw [List.compareLex_cons_nil]; decide) (List.not_lt_nil _)
    | cons b bs =>
      have hlt : Ord.compare a b = .lt ↔ a < b := compare_lt_iff_lt
      rw [List.cons_lt_cons_iff, List.compareLex_cons_cons, Ordering.then_eq_lt, ih, hlt,
        LawfulEqCmp.compare_eq_iff_eq]

/-- Texts are compared like words over their characters. -/
theorem compare_eq_compareLex_toList (a b : String) :
    Ord.compare a b = a.toList.compareLex Ord.compare b.toList := by
  have hlt : ∀ a b : String,
      a.toList.compareLex Ord.compare b.toList = .lt ↔ Ord.compare a b = .lt := by
    intro a b
    have htext : Ord.compare a b = .lt ↔ a < b := compare_lt_iff_lt
    rw [htext, compareLex_eq_lt_iff, String.lt_iff_toList_lt]
  cases h : a.toList.compareLex Ord.compare b.toList with
  | lt => exact (hlt a b).mp h
  | eq =>
    rw [String.toList_inj.mp (LawfulEqCmp.eq_of_compare h)]
    exact ReflCmp.compare_self
  | gt => exact OrientedCmp.gt_iff_lt.mpr ((hlt b a).mp (OrientedCmp.gt_iff_lt.mp h))

end Words

/-! ## Doubles -/

namespace Double

/-- The keys lie below this bound, and not below its negative. -/
def keyBound : Int := 2 ^ 63

/-- The pattern with a key. -/
def ofKey (key : Int) : Double :=
  if key < 0 then ofMagnitude true (-1 - key).toNat else ofMagnitude false key.toNat

/-- The pattern behind this one. -/
def next? (d : Double) : Option Double :=
  if d.key + 1 < keyBound then some (ofKey (d.key + 1)) else none

variable {a b : Double}

theorem key_bounds (d : Double) : -keyBound ≤ d.key ∧ d.key < keyBound := by
  have hbits := d.bits.toNat_lt
  simp only [key, isNegative, magnitude, decide_eq_true_eq, Nat.pow_eq, keyBound]
  split <;> omega

theorem key_ofMagnitude (negative : Bool) {m : Nat} (h : m < 2 ^ 63) :
    (ofMagnitude negative m).key = if negative then -1 - (m : Int) else m := by
  cases negative <;>
    simp only [ofMagnitude, key, isNegative, magnitude, decide_eq_true_eq, Nat.pow_eq,
      UInt64.toNat_ofNat', Bool.false_eq_true, ↓reduceIte] <;>
    split <;> omega

theorem key_ofKey {key : Int} (hlow : -keyBound ≤ key) (hhigh : key < keyBound) :
    (ofKey key).key = key := by
  unfold keyBound at hlow hhigh
  unfold ofKey
  by_cases hneg : key < 0
  · rw [if_pos hneg, key_ofMagnitude true (by omega), if_pos rfl]
    omega
  · rw [if_neg hneg, key_ofMagnitude false (by omega), if_neg Bool.false_ne_true]
    omega

theorem compare_eq_lt_iff : a.compare b = .lt ↔ a.key < b.key := Int.compare_eq_lt

theorem isLE_compare_iff : (a.compare b).isLE = true ↔ a.key ≤ b.key := Int.isLE_compare

theorem discrete : Discrete Double.compare (fun _ => True) (ofKey (-keyBound)) next? where
  valid_least := trivial
  least_le y _ := by
    rw [isLE_compare_iff, key_ofKey (Int.le_refl _) (by decide)]
    exact y.key_bounds.1
  valid_next _ _ _ _ := trivial
  lt_iff x _ y _ := by
    have hx := x.key_bounds
    have hy := y.key_bounds
    rw [compare_eq_lt_iff, next?]
    by_cases hnext : x.key + 1 < keyBound
    · simp only [if_pos hnext, Option.mem_some_iff, exists_eq_left', isLE_compare_iff]
      rw [key_ofKey (by omega) hnext]
      omega
    · simp only [if_neg hnext, Option.mem_def, reduceCtorEq, false_and, exists_false, iff_false]
      omega

end Double

/-! ## Texts -/

/-- The text behind this one. -/
def nextText (s : String) : String := s.push (Char.ofNat 0)

theorem discrete_text :
    Discrete (Ord.compare (α := String)) (fun _ => True) "" (some ∘ nextText) where
  valid_least := trivial
  least_le y _ := by
    rw [compare_eq_compareLex_toList]
    exact List.isLE_compareLex_nil_left
  valid_next _ _ _ _ := trivial
  lt_iff x _ y _ := by
    have hleast : ∀ c : Char, (Ord.compare (Char.ofNat 0) c).isLE = true := fun c =>
      Ordering.isLE_iff_ne_gt.mpr (compare_le_iff_le.mpr (Nat.zero_le c.toNat))
    simp only [Function.comp_apply, Option.mem_some_iff, exists_eq_left',
      compare_eq_compareLex_toList, nextText, String.toList_push]
    exact compareLex_append_least hleast _ _

/-! ## Instants -/

namespace Instant

/-- How many nanoseconds a second has. There is room for a leap second behind the last one of a
minute. -/
def nanosIn (seconds : Int) : Nat := if seconds % 60 = 59 then 2000000000 else 1000000000

/-- The instant behind this one. -/
def next? (t : Instant) : Option Instant :=
  if t.nanos + 1 < nanosIn t.seconds then some { t with nanos := t.nanos + 1 }
  else if t.seconds + 1 ≤ greatestSeconds then some { seconds := t.seconds + 1, nanos := 0 }
  else none

variable {a b : Instant}

theorem compare_eq_lt_iff :
    a.compare b = .lt ↔ a.seconds < b.seconds ∨ a.seconds = b.seconds ∧ a.nanos < b.nanos := by
  rw [compare, Ordering.then_eq_lt, Int.compare_eq_lt, Int.compare_eq_eq, Nat.compare_eq_lt]

theorem isLE_compare_iff :
    (a.compare b).isLE = true ↔
      a.seconds < b.seconds ∨ a.seconds = b.seconds ∧ a.nanos ≤ b.nanos := by
  rw [compare, Ordering.isLE_then_iff_or, Int.compare_eq_lt, Int.compare_eq_eq, Nat.isLE_compare]

theorem wellFormed_iff {t : Instant} : t.WellFormed ↔ t.nanos < nanosIn t.seconds := by
  unfold nanosIn
  constructor
  · rintro ⟨hnanos, hleap⟩
    split <;> omega
  · intro h
    constructor <;> split at h <;> omega

theorem discrete :
    Discrete Instant.compare InRange { seconds := leastSeconds, nanos := 0 } next? where
  valid_least := ⟨wellFormed_iff.mpr (by decide), by decide, by decide⟩
  least_le y hy := by
    have hleast := hy.least
    rw [isLE_compare_iff]
    dsimp only
    omega
  valid_next x hx next hnext := by
    have hleast := hx.least
    have hgreatest := hx.greatest
    unfold next? at hnext
    split at hnext
    · next hsecond =>
      cases hnext
      exact ⟨wellFormed_iff.mpr hsecond, hleast, hgreatest⟩
    · split at hnext
      · next hminute =>
        cases hnext
        refine ⟨wellFormed_iff.mpr ?_, by dsimp only; omega, hminute⟩
        dsimp only
        unfold nanosIn
        split <;> decide
      · cases hnext
  lt_iff x _ y hy := by
    have hnanos := wellFormed_iff.mp hy.toWellFormed
    have hgreatest := hy.greatest
    rw [compare_eq_lt_iff, next?]
    by_cases hsecond : x.nanos + 1 < nanosIn x.seconds
    · simp only [if_pos hsecond, Option.mem_some_iff, exists_eq_left', isLE_compare_iff]
      omega
    · -- above the last nanosecond of a second there is nothing in that second
      have hlast : x.seconds = y.seconds → ¬ x.nanos < y.nanos := by
        intro h
        rw [← h] at hnanos
        omega
      rw [if_neg hsecond]
      by_cases hminute : x.seconds + 1 ≤ greatestSeconds
      · simp only [if_pos hminute, Option.mem_some_iff, exists_eq_left', isLE_compare_iff]
        omega
      · simp only [if_neg hminute, Option.mem_def, reduceCtorEq, false_and, exists_false, iff_false]
        omega

end Instant

/-! ## Versions -/

theorem Text.split_append_cons (sep : Char) (as bs : List Char) :
    split sep (as ++ sep :: bs) = split sep as ++ split sep bs := by
  induction as with
  | nil =>
    show split sep (sep :: bs) = [] :: split sep bs
    rw [split, if_pos rfl]
  | cons c as ih =>
    rw [List.cons_append, split, ih]
    by_cases hc : c = sep
    · rw [if_pos hc, split, if_pos hc, List.cons_append]
    · rw [if_neg hc, split, if_neg hc]
      cases hsplit : split sep as with
      | nil => exact absurd hsplit (split_ne_nil sep as)
      | cons part parts => rfl

namespace Version

variable {a b : Version}

theorem compare_eq_lt_iff :
    a.compare b = .lt ↔ a.major < b.major ∨ a.major = b.major ∧ (a.minor < b.minor ∨
      a.minor = b.minor ∧ (a.patch < b.patch ∨ a.patch = b.patch ∧
        comparePre a.pre b.pre = .lt)) := by
  simp only [compare, Ordering.then_eq_lt, Nat.compare_eq_lt, Nat.compare_eq_eq]

theorem isLE_compare_iff :
    (a.compare b).isLE = true ↔ a.major < b.major ∨ a.major = b.major ∧ (a.minor < b.minor ∨
      a.minor = b.minor ∧ (a.patch < b.patch ∨ a.patch = b.patch ∧
        (comparePre a.pre b.pre).isLE = true)) := by
  simp only [compare, Ordering.isLE_then_iff_or, Nat.compare_eq_lt, Nat.compare_eq_eq]

/-- No identifier comes before zero. -/
theorem isLE_compareIdentifiers_zero (b : List Char) :
    (compareIdentifiers ['0'] b).isLE = true := by
  have hzero : identifierNumber? ['0'] = some 0 := by decide +kernel
  rw [compareIdentifiers, hzero]
  cases identifierNumber? b with
  | none => rfl
  | some y => exact Nat.isLE_compare.mpr (Nat.zero_le y)

/-- No pre-release comes before the one with zero for its tag. -/
theorem isLE_comparePre_zero (pre : Option String) : (comparePre (some "0") pre).isLE = true := by
  cases pre with
  | none => rfl
  | some tag =>
    have hzero : Text.split '.' "0".toList = [] ++ [['0']] := by decide +kernel
    rw [comparePre, compareTags_eq, hzero,
      ← compareLex_append_least isLE_compareIdentifiers_zero]
    cases hsplit : Text.split '.' tag.toList with
    | nil => exact absurd hsplit (Text.split_ne_nil _ _)
    | cons first rest => exact List.compareLex_nil_cons

/-- Behind a pre-release comes the one with zero for one more identifier. -/
theorem comparePre_eq_lt_iff (tag : String) (pre : Option String) :
    comparePre (some tag) pre = .lt ↔ (comparePre (some (tag ++ ".0")) pre).isLE = true := by
  cases pre with
  | none => exact iff_of_true rfl rfl
  | some other =>
    have hsplit : Text.split '.' (tag ++ ".0").toList = Text.split '.' tag.toList ++ [['0']] := by
      rw [String.toList_append]
      exact Text.split_append_cons '.' tag.toList ['0']
    rw [comparePre, comparePre, compareTags_eq, compareTags_eq, hsplit]
    exact compareLex_append_least isLE_compareIdentifiers_zero _ _

/-- The version behind this one. -/
def next? (v : Version) : Option Version :=
  match v.pre with
  | some tag => some { v with pre := some (tag ++ ".0") }
  | none =>
    if v.patch + 1 < numberBound then some { v with patch := v.patch + 1, pre := some "0" }
    else if v.minor + 1 < numberBound then
      some { v with minor := v.minor + 1, patch := 0, pre := some "0" }
    else if v.major + 1 < numberBound then
      some { major := v.major + 1, minor := 0, patch := 0, pre := some "0" }
    else none

/-- The version before all others. -/
def least : Version := { major := 0, minor := 0, patch := 0, pre := some "0" }

theorem wellFormed_zero {major minor patch : Nat} (hmajor : major < numberBound)
    (hminor : minor < numberBound) (hpatch : patch < numberBound) :
    ({ major, minor, patch, pre := some "0" } : Version).WellFormed := by
  refine ⟨hmajor, hminor, hpatch, ?_⟩
  intro tag htag
  cases htag
  exact ⟨by decide +kernel, List.all_eq_true.mp (by decide +kernel)⟩

/-- The least pre-release comes before all versions with its numbers or greater ones. -/
theorem isLE_compare_zero_iff {major minor patch : Nat} :
    (({ major, minor, patch, pre := some "0" } : Version).compare b).isLE = true ↔
      major < b.major ∨ major = b.major ∧
        (minor < b.minor ∨ minor = b.minor ∧ patch ≤ b.patch) := by
  simp only [isLE_compare_iff, isLE_comparePre_zero b.pre, and_true]
  omega

theorem discrete : Discrete Version.compare WellFormed least next? where
  valid_least := wellFormed_zero (by decide) (by decide) (by decide)
  least_le y _ := by
    rw [least, isLE_compare_zero_iff]
    omega
  valid_next x hx next hnext := by
    obtain ⟨hmajor, hminor, hpatch, hpre⟩ := hx
    unfold next? at hnext
    split at hnext
    · next tag htag =>
      cases hnext
      refine ⟨hmajor, hminor, hpatch, ?_⟩
      intro tag' htag'
      cases htag'
      obtain ⟨hne, hchars⟩ := hpre tag htag
      rw [String.toList_append]
      refine ⟨List.append_ne_nil_of_left_ne_nil hne _, ?_⟩
      exact List.forall_mem_append.mpr ⟨hchars, List.all_eq_true.mp (by decide +kernel)⟩
    · have hzero : 0 < numberBound := by decide
      split at hnext
      · next hlt =>
        cases hnext
        exact wellFormed_zero hmajor hminor hlt
      · split at hnext
        · next hlt =>
          cases hnext
          exact wellFormed_zero hmajor hlt hzero
        · split at hnext
          · next hlt =>
            cases hnext
            exact wellFormed_zero hlt hzero hzero
          · cases hnext
  lt_iff x hx y hy := by
    obtain ⟨hmajor, hminor, hpatch, -⟩ := hy
    rw [compare_eq_lt_iff, next?]
    cases hpre : x.pre with
    | some tag =>
      simp only [Option.mem_some_iff, exists_eq_left', isLE_compare_iff, comparePre_eq_lt_iff]
    | none =>
      -- a release stands behind all its pre-releases, so the numbers decide
      have hrelease : comparePre none y.pre ≠ .lt := by
        cases y.pre with
        | none => decide
        | some tag => exact fun h => by cases h
      simp only [hrelease, and_false, or_false]
      split_ifs
      · simp only [Option.mem_some_iff, exists_eq_left', isLE_compare_zero_iff]
        omega
      · simp only [Option.mem_some_iff, exists_eq_left', isLE_compare_zero_iff]
        omega
      · simp only [Option.mem_some_iff, exists_eq_left', isLE_compare_zero_iff]
        omega
      · simp only [Option.mem_def, reduceCtorEq, false_and, exists_false, iff_false]
        omega

end Version

/-! ## Scalars -/

/-- Behind `false` comes `true`. -/
def nextBool (b : Bool) : Option Bool := if b then none else some true

theorem discrete_bool : Discrete (Ord.compare (α := Bool)) (fun _ => True) false nextBool where
  valid_least := trivial
  least_le := by decide
  valid_next _ _ _ _ := trivial
  lt_iff := by decide

namespace Scalar

/-- The least value of a kind: of doubles, the not-a-number with the sign bit and all others set. -/
def least : ScalarKind → Scalar
  | .bool => bool false
  | .number => number (.ofKey (-Double.keyBound))
  | .string => string ""
  | .timestamp => timestamp { seconds := Instant.leastSeconds, nanos := 0 }
  | .version => version .least

/-- The value behind this one, unless it is the greatest of its kind. -/
def next? : Scalar → Option Scalar
  | bool b => (nextBool b).map bool
  | number d => d.next?.map number
  | string s => some (string (nextText s))
  | timestamp t => t.next?.map timestamp
  | version v => v.next?.map version

variable {kind : ScalarKind}

/-- An order in steps is one of the values of a kind as well. -/
theorem discrete_of_values {α : Type} {cmp : α → α → Ordering} {Valid : α → Prop} {first : α}
    {behind? : α → Option α} (h : Discrete cmp Valid first behind?) (f : α → Scalar)
    (hvalue : ∀ a, Valid a → OfKind kind (f a))
    (honly : ∀ x, OfKind kind x → ∃ a, Valid a ∧ f a = x)
    (horder : ∀ a b, (f a).order (f b) = cmp a b) (hfirst : least kind = f first)
    (hnext : ∀ a, (f a).next? = (behind? a).map f) :
    Discrete order (OfKind kind) (least kind) next? where
  valid_least := by
    rw [hfirst]
    exact hvalue first h.valid_least
  least_le y hy := by
    obtain ⟨b, hb, rfl⟩ := honly y hy
    rw [hfirst, horder]
    exact h.least_le b hb
  valid_next x hx next hin := by
    obtain ⟨a, ha, rfl⟩ := honly x hx
    rw [hnext] at hin
    obtain ⟨c, hc, rfl⟩ := Option.mem_map.mp hin
    exact hvalue c (h.valid_next a ha c hc)
  lt_iff x hx y hy := by
    obtain ⟨a, ha, rfl⟩ := honly x hx
    obtain ⟨b, hb, rfl⟩ := honly y hy
    rw [horder, h.lt_iff a ha b hb, hnext]
    simp only [Option.mem_map, exists_exists_and_eq_and, horder]

/-- **Each kind is ordered in steps.** -/
theorem discrete (kind : ScalarKind) : Discrete order (OfKind kind) (least kind) next? := by
  cases kind with
  | bool =>
    refine discrete_of_values discrete_bool .bool (fun b _ => .bool b) ?_ (fun _ _ => rfl) rfl
      fun _ => rfl
    intro x hx
    cases hx with
    | bool b => exact ⟨b, trivial, rfl⟩
  | number =>
    refine discrete_of_values Double.discrete .number (fun d _ => .number d) ?_ (fun _ _ => rfl) rfl
      fun _ => rfl
    intro x hx
    cases hx with
    | number d => exact ⟨d, trivial, rfl⟩
  | string =>
    refine discrete_of_values discrete_text .string (fun s _ => .string s) ?_ (fun _ _ => rfl) rfl
      fun _ => rfl
    intro x hx
    cases hx with
    | string s => exact ⟨s, trivial, rfl⟩
  | timestamp =>
    refine discrete_of_values Instant.discrete .timestamp (fun _ h => .timestamp h) ?_
      (fun _ _ => rfl) rfl fun _ => rfl
    intro x hx
    cases hx with
    | timestamp h => exact ⟨_, h, rfl⟩
  | version =>
    refine discrete_of_values Version.discrete .version (fun _ h => .version h) ?_
      (fun _ _ => rfl) rfl fun _ => rfl
    intro x hx
    cases hx with
    | version h => exact ⟨_, h, rfl⟩

end Scalar

end FeatureFlags
