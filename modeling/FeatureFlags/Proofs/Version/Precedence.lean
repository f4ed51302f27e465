import FeatureFlags.Proofs.Scalar.Neighbours
import FeatureFlags.Proofs.Version.ReadBack

/-!
# Precedence of versions

`Version.Precedes` is the precedence of semantic versions, told by a relation: the three numbers
decide first, a pre-release precedes its release, and two pre-releases are compared like words over
their identifiers, of which those of digits alone stand for numbers (`Identifier.ofChars`).

- `Version.compare_eq_lt_iff_precedesBy`: the comparison of versions is this relation, except that a
  number of 2^64 or more is a text to it (`Identifier.bounded`).
- `Version.follows_precedence_iff`: so it departs from precedence exactly where such a number stands
  against a text or another one that is out of order as a text (`Version.Misplaced`).

Everything is first said for identifiers and then for words over them (`List.Lex`). Before a word
that is misplaced come identifiers which the comparison does not tell apart, and those are the same
for precedence too (`Identifier.ofChars_eq_of_bounded_eq`).
-/

namespace FeatureFlags

open Std

/-! ## Identifiers -/

/-- What an identifier stands for. -/
inductive Identifier where
  /-- A number, however many digits it has. -/
  | number (n : Nat)
  /-- Anything else stands for itself. -/
  | text (cs : List Char)
  deriving DecidableEq, Repr

namespace Identifier

/-- The order of identifiers: numbers come first. -/
inductive Before : Identifier → Identifier → Prop
  | numbers {m n : Nat} (h : m < n) : Before (number m) (number n)
  | numberText (n : Nat) (cs : List Char) : Before (number n) (text cs)
  | texts {cs ds : List Char} (h : cs < ds) : Before (text cs) (text ds)

/-- Digits alone stand for their number. -/
def ofChars (cs : List Char) : Identifier :=
  match Text.Digits.decode? cs with
  | some n => number n
  | none => text cs

/-- What the comparison of versions takes an identifier for. -/
def bounded (cs : List Char) : Identifier :=
  match Version.identifierNumber? cs with
  | some n => number n
  | none => text cs

/-- A number of 2^64 or more. -/
def IsLong : Identifier → Prop
  | number n => Version.numberBound ≤ n
  | text _ => False

instance (a : Identifier) : Decidable a.IsLong :=
  match a with
  | number n => inferInstanceAs (Decidable (Version.numberBound ≤ n))
  | text _ => inferInstanceAs (Decidable False)

variable {a b : Identifier} {x y : List Char} {m n : Nat}

theorem Before.asymm (h : a.Before b) : ¬ b.Before a := by
  intro h'
  cases h with
  | numbers h =>
    cases h' with
    | numbers h' => exact Nat.lt_asymm h h'
  | numberText n cs => cases h'
  | texts h =>
    cases h' with
    | texts h' => exact List.lt_asymm h h'

theorem Before.irrefl (a : Identifier) : ¬ a.Before a := fun h => h.asymm h

theorem eq_of_ofChars_eq_text {cs : List Char} (h : ofChars x = text cs) : cs = x := by
  unfold ofChars at h
  split at h
  · cases h
  · exact (Identifier.text.inj h).symm

theorem bounded_eq (hplus : '+' ∉ x) :
    bounded x = if (ofChars x).IsLong then text x else ofChars x := by
  have hunsigned : Version.identifierNumber? x =
      (Text.Digits.decode? x).filter (· < Version.numberBound) := by
    unfold Version.identifierNumber? Text.Digits.unsigned?
    split
    · exact absurd List.mem_cons_self hplus
    · rfl
  rw [bounded, hunsigned, ofChars]
  cases Text.Digits.decode? x with
  | none => rfl
  | some n =>
    by_cases hn : n < Version.numberBound
    · have hlong : ¬ (number n).IsLong := Nat.not_le.mpr hn
      rw [Option.filter_some_pos (by simpa using hn)]
      exact (if_neg hlong).symm
    · have hlong : (number n).IsLong := Nat.not_lt.mp hn
      rw [Option.filter_some_neg (by simpa using hn)]
      exact (if_pos hlong).symm

theorem bounded_of_isLong (hplus : '+' ∉ x) (h : (ofChars x).IsLong) : bounded x = text x := by
  rw [bounded_eq hplus, if_pos h]

theorem bounded_of_not_isLong (hplus : '+' ∉ x) (h : ¬ (ofChars x).IsLong) :
    bounded x = ofChars x := by
  rw [bounded_eq hplus, if_neg h]

theorem bounded_of_number (hplus : '+' ∉ x) (h : ofChars x = number n)
    (hlong : Version.numberBound ≤ n) : bounded x = text x :=
  bounded_of_isLong hplus (h ▸ hlong)

theorem bounded_of_text (hplus : '+' ∉ x) (h : ofChars x = text x) : bounded x = text x := by
  rw [bounded_of_not_isLong hplus (h ▸ id), h]

theorem before_of_texts (hx : bounded x = text x) (hy : bounded y = text y) (h : x < y) :
    (bounded x).Before (bounded y) := by
  rw [hx, hy]
  exact .texts h

theorem exists_number_of_isLong (h : a.IsLong) : ∃ n, a = number n ∧ Version.numberBound ≤ n := by
  cases a with
  | number n => exact ⟨n, rfl, h⟩
  | text cs => exact absurd h id

/-- What the comparison does not tell apart stands for the same. -/
theorem ofChars_eq_of_bounded_eq (hx : '+' ∉ x) (hy : '+' ∉ y) (h : bounded x = bounded y) :
    ofChars x = ofChars y := by
  rw [bounded_eq hx, bounded_eq hy] at h
  split at h
  · next hlong =>
    split at h
    · rw [Identifier.text.inj h]
    · rw [eq_of_ofChars_eq_text h.symm]
  · split at h
    · next hlong => rw [eq_of_ofChars_eq_text h]
    · exact h

/-- The comparison puts nothing before an identifier wrongly that is no number of 2^64 or more. -/
theorem before_of_not_isLong (hx : '+' ∉ x) (hy : '+' ∉ y) (h : (bounded x).Before (bounded y))
    (hlong : ¬ (ofChars y).IsLong) : (ofChars x).Before (ofChars y) := by
  rw [bounded_of_not_isLong hy hlong] at h
  by_cases hlong' : (ofChars x).IsLong
  · -- what comes before it as a text comes before it as a number
    obtain ⟨m, hm, -⟩ := exists_number_of_isLong hlong'
    rw [bounded_of_isLong hx hlong'] at h
    rw [hm]
    cases hy : ofChars y with
    | number n =>
      rw [hy] at h
      cases h
    | text cs => exact .numberText m cs
  · rwa [bounded_of_not_isLong hx hlong'] at h

/-- The comparison of identifiers is the order of what it takes them for. -/
theorem compareIdentifiers_eq_lt_iff :
    Version.compareIdentifiers x y = .lt ↔ (bounded x).Before (bounded y) := by
  unfold Version.compareIdentifiers bounded
  cases Version.identifierNumber? x with
  | none =>
    cases Version.identifierNumber? y with
    | none => exact (compareLex_eq_lt_iff x y).trans ⟨.texts, fun | .texts h => h⟩
    | some n => exact iff_of_false (fun h => by cases h) (fun h => by cases h)
  | some m =>
    cases Version.identifierNumber? y with
    | none => exact iff_of_true rfl (.numberText m y)
    | some n => exact Nat.compare_eq_lt.trans ⟨.numbers, fun | .numbers h => h⟩

theorem compareIdentifiers_eq_eq_iff :
    Version.compareIdentifiers x y = .eq ↔ bounded x = bounded y := by
  unfold Version.compareIdentifiers bounded
  cases Version.identifierNumber? x with
  | none =>
    cases Version.identifierNumber? y with
    | none => simp [LawfulEqCmp.compare_eq_iff_eq]
    | some n => simp
  | some m =>
    cases Version.identifierNumber? y with
    | none => simp
    | some n => simp

end Identifier

/-! ## Words over identifiers -/

namespace Version

open Identifier

theorem compareIdentifierLists_eq_lt_iff (as bs : List (List Char)) :
    compareIdentifierLists as bs = .lt ↔
      List.Lex Before (as.map bounded) (bs.map bounded) := by
  induction as generalizing bs with
  | nil =>
    cases bs with
    | nil => exact iff_of_false (fun h => by cases h) List.not_lex_nil
    | cons b bs => exact iff_of_true rfl .nil
  | cons a as ih =>
    cases bs with
    | nil => exact iff_of_false (fun h => by cases h) List.not_lex_nil
    | cons b bs =>
      rw [compareIdentifierLists, Ordering.then_eq_lt, ih, compareIdentifiers_eq_lt_iff,
        compareIdentifiers_eq_eq_iff, List.map_cons, List.map_cons, List.cons_lex_cons_iff]

theorem compareIdentifierLists_eq_eq_iff (as bs : List (List Char)) :
    compareIdentifierLists as bs = .eq ↔ as.map bounded = bs.map bounded := by
  induction as generalizing bs with
  | nil => cases bs <;> simp [compareIdentifierLists]
  | cons a as ih =>
    cases bs with
    | nil => simp [compareIdentifierLists]
    | cons b bs =>
      rw [compareIdentifierLists, Ordering.then_eq_eq, ih, compareIdentifiers_eq_eq_iff,
        List.map_cons, List.map_cons, List.cons.injEq]

/-- The ways in which the comparison puts a word over identifiers before another one that it should
not come before. Each has its reason in a number of 2^64 or more. -/
inductive MisplacedWord : List (List Char) → List (List Char) → Prop
  /-- A text comes before such a number because it is less as a text. -/
  | text {x y : List Char} {xs ys : List (List Char)} (hx : ofChars x = .text x)
      (hy : (ofChars y).IsLong) (hlt : x < y) : MisplacedWord (x :: xs) (y :: ys)
  /-- The greater of two such numbers comes first because it is less as a text. -/
  | number {x y : List Char} {xs ys : List (List Char)} {m n : Nat} (hx : ofChars x = .number m)
      (hy : ofChars y = .number n) (hlong : numberBound ≤ n) (hnm : n < m) (hlt : x < y) :
      MisplacedWord (x :: xs) (y :: ys)
  /-- Two spellings of such a number are told apart, and what follows would not put the first word
  before the second one. -/
  | spelling {x y : List Char} {xs ys : List (List Char)} {n : Nat} (hx : ofChars x = .number n)
      (hy : ofChars y = .number n) (hlong : numberBound ≤ n) (hlt : x < y)
      (hrest : ¬ List.Lex Before (xs.map ofChars) (ys.map ofChars)) :
      MisplacedWord (x :: xs) (y :: ys)
  /-- It happens behind identifiers that the comparison does not tell apart. -/
  | later {x y : List Char} {xs ys : List (List Char)} (hsame : bounded x = bounded y)
      (hrest : MisplacedWord xs ys) : MisplacedWord (x :: xs) (y :: ys)

variable {as bs : List (List Char)}

theorem MisplacedWord.lex_bounded (h : MisplacedWord as bs) (has : ∀ x ∈ as, '+' ∉ x)
    (hbs : ∀ y ∈ bs, '+' ∉ y) : List.Lex Before (as.map bounded) (bs.map bounded) := by
  induction h with
  | text hx hy hlt =>
    have hx' := bounded_of_text (has _ List.mem_cons_self) hx
    have hy' := bounded_of_isLong (hbs _ List.mem_cons_self) hy
    exact .rel (before_of_texts hx' hy' hlt)
  | number hx hy hlong hnm hlt =>
    have hx' := bounded_of_number (has _ List.mem_cons_self) hx (hlong.trans hnm.le)
    have hy' := bounded_of_number (hbs _ List.mem_cons_self) hy hlong
    exact .rel (before_of_texts hx' hy' hlt)
  | spelling hx hy hlong hlt hrest =>
    have hx' := bounded_of_number (has _ List.mem_cons_self) hx hlong
    have hy' := bounded_of_number (hbs _ List.mem_cons_self) hy hlong
    exact .rel (before_of_texts hx' hy' hlt)
  | later hsame hrest ih =>
    rw [List.map_cons, List.map_cons, hsame]
    exact .cons (ih (List.forall_mem_cons.mp has).2 (List.forall_mem_cons.mp hbs).2)

theorem MisplacedWord.not_lex_ofChars (h : MisplacedWord as bs) (has : ∀ x ∈ as, '+' ∉ x)
    (hbs : ∀ y ∈ bs, '+' ∉ y) : ¬ List.Lex Before (as.map ofChars) (bs.map ofChars) := by
  induction h with
  | text hx hy hlt =>
    obtain ⟨n, hy, -⟩ := exists_number_of_isLong hy
    rw [List.map_cons, List.map_cons, List.cons_lex_cons_iff, hx, hy]
    rintro (h | ⟨h, -⟩) <;> cases h
  | number hx hy hlong hnm hlt =>
    rw [List.map_cons, List.map_cons, List.cons_lex_cons_iff, hx, hy]
    rintro (hmn | ⟨hmn, -⟩)
    · cases hmn with
      | numbers hmn => exact Nat.lt_asymm hnm hmn
    · exact hnm.ne' (Identifier.number.inj hmn)
  | spelling hx hy hlong hlt hrest =>
    rw [List.map_cons, List.map_cons, List.cons_lex_cons_iff, hx, hy]
    rintro (hnn | ⟨-, hlex⟩)
    · exact Before.irrefl _ hnn
    · exact hrest hlex
  | later hsame hrest ih =>
    obtain ⟨hx, has⟩ := List.forall_mem_cons.mp has
    obtain ⟨hy, hbs⟩ := List.forall_mem_cons.mp hbs
    rw [List.map_cons, List.map_cons, List.cons_lex_cons_iff, ofChars_eq_of_bounded_eq hx hy hsame]
    rintro (hself | ⟨-, hlex⟩)
    · exact Before.irrefl _ hself
    · exact ih has hbs hlex

/-- Identifiers that the comparison puts in order, and that are not in order. -/
theorem misplacedWord_of_before {x y : List Char} {xs ys : List (List Char)} (hx : '+' ∉ x)
    (hy : '+' ∉ y) (h : (bounded x).Before (bounded y))
    (hnot : ¬ List.Lex Before ((x :: xs).map ofChars) ((y :: ys).map ofChars)) :
    MisplacedWord (x :: xs) (y :: ys) := by
  have hnot' : ¬ (ofChars x).Before (ofChars y) := fun hxy => hnot (.rel hxy)
  have hlong : (ofChars y).IsLong :=
    by_contra fun hlong => hnot' (before_of_not_isLong hx hy h hlong)
  obtain ⟨n, hn, hbound⟩ := exists_number_of_isLong hlong
  rw [bounded_of_isLong hy hlong] at h
  cases hm : ofChars x with
  | text cs =>
    obtain rfl := eq_of_ofChars_eq_text hm
    rw [bounded_of_text hx hm] at h
    cases h with
    | texts hlt => exact .text hm hlong hlt
  | number m =>
    rw [hm, hn] at hnot'
    have hnm : n ≤ m := Nat.not_lt.mp fun hmn => hnot' (.numbers hmn)
    rw [bounded_of_number hx hm (hbound.trans hnm)] at h
    cases h with
    | texts hlt =>
      rcases hnm.lt_or_eq with hnm | rfl
      · exact .number hm hn hbound hnm hlt
      · refine .spelling hm hn hbound hlt fun hlex => hnot ?_
        rw [List.map_cons, List.map_cons, hm, hn]
        exact .cons hlex

theorem misplacedWord_of_lex (has : ∀ x ∈ as, '+' ∉ x) (hbs : ∀ y ∈ bs, '+' ∉ y)
    (h : List.Lex Before (as.map bounded) (bs.map bounded))
    (hnot : ¬ List.Lex Before (as.map ofChars) (bs.map ofChars)) : MisplacedWord as bs := by
  induction as generalizing bs with
  | nil =>
    cases bs with
    | nil => exact absurd h List.not_lex_nil
    | cons y ys => exact absurd .nil hnot
  | cons x xs ih =>
    cases bs with
    | nil => exact absurd h List.not_lex_nil
    | cons y ys =>
      obtain ⟨hx, hxs⟩ := List.forall_mem_cons.mp has
      obtain ⟨hy, hys⟩ := List.forall_mem_cons.mp hbs
      rw [List.map_cons, List.map_cons, List.cons_lex_cons_iff] at h
      rcases h with h | ⟨hsame, h⟩
      · exact misplacedWord_of_before hx hy h hnot
      · refine .later hsame (ih hxs hys h ?_)
        intro hlex
        refine hnot ?_
        rw [List.map_cons, List.map_cons, ofChars_eq_of_bounded_eq hx hy hsame]
        exact .cons hlex

theorem MisplacedWord.exists_isLong (h : MisplacedWord as bs) :
    ∃ y ∈ bs, (ofChars y).IsLong := by
  induction h with
  | text hx hy hlt => exact ⟨_, List.mem_cons_self, hy⟩
  | number hx hy hlong hnm hlt => exact ⟨_, List.mem_cons_self, hy ▸ hlong⟩
  | spelling hx hy hlong hlt hrest => exact ⟨_, List.mem_cons_self, hy ▸ hlong⟩
  | later hsame hrest ih =>
    obtain ⟨y, hy, hlong⟩ := ih
    exact ⟨y, List.mem_cons_of_mem _ hy, hlong⟩

theorem map_ofChars_eq_of_map_bounded_eq (has : ∀ x ∈ as, '+' ∉ x) (hbs : ∀ y ∈ bs, '+' ∉ y)
    (h : as.map bounded = bs.map bounded) : as.map ofChars = bs.map ofChars := by
  induction as generalizing bs with
  | nil => rw [List.map_eq_nil_iff.mp h.symm]
  | cons x xs ih =>
    cases bs with
    | nil => cases h
    | cons y ys =>
      obtain ⟨hx, hxs⟩ := List.forall_mem_cons.mp has
      obtain ⟨hy, hys⟩ := List.forall_mem_cons.mp hbs
      obtain ⟨hsame, hrest⟩ := List.cons.inj h
      rw [List.map_cons, List.map_cons, ofChars_eq_of_bounded_eq hx hy hsame, ih hxs hys hrest]

/-! ## Versions -/

/-- The identifiers of a tag, as they are read. -/
def identifiers (read : List Char → Identifier) (tag : String) : List Identifier :=
  (Text.split '.' tag.toList).map read

/-- A pre-release precedes its release. Of two pre-releases the identifiers decide, from left to
right, and a tag precedes those that go on where it ends. -/
inductive PrecedesPre (read : List Char → Identifier) : Option String → Option String → Prop
  | release (tag : String) : PrecedesPre read (some tag) none
  | tags {tag other : String}
      (h : List.Lex Before (identifiers read tag) (identifiers read other)) :
      PrecedesPre read (some tag) (some other)

/-- Precedence, where identifiers are read in a certain way: the numbers decide from left to right,
and then the tags. -/
inductive PrecedesBy (read : List Char → Identifier) (a b : Version) : Prop
  | major (h : a.major < b.major)
  | minor (hmajor : a.major = b.major) (h : a.minor < b.minor)
  | patch (hmajor : a.major = b.major) (hminor : a.minor = b.minor) (h : a.patch < b.patch)
  | pre (hmajor : a.major = b.major) (hminor : a.minor = b.minor) (hpatch : a.patch = b.patch)
      (h : PrecedesPre read a.pre b.pre)

/-- The precedence of semantic versions, in which identifiers of digits alone stand for their
numbers, however long they are. -/
abbrev Precedes (a b : Version) : Prop := PrecedesBy ofChars a b

/-- The comparison of two versions tells which one precedes the other, if any does. -/
def FollowsPrecedence (a b : Version) : Prop :=
  (a.compare b = .lt ↔ a.Precedes b) ∧ (a.compare b = .gt ↔ b.Precedes a)

/-- The versions have the same numbers, and the first tag is put before the second one though it
should not be. -/
structure Misplaced (a b : Version) : Prop where
  major : a.major = b.major
  minor : a.minor = b.minor
  patch : a.patch = b.patch
  pre : ∃ tag ∈ a.pre, ∃ other ∈ b.pre,
    MisplacedWord (Text.split '.' tag.toList) (Text.split '.' other.toList)

/-- The tag has no number of 2^64 or more for an identifier. -/
def HasShortNumbers (v : Version) : Prop :=
  ∀ tag ∈ v.pre, ∀ x ∈ identifiers ofChars tag, ¬ x.IsLong

/-- The tag, if any, has no plus sign. -/
def PlusFree (v : Version) : Prop :=
  ∀ tag ∈ v.pre, ∀ x ∈ Text.split '.' tag.toList, '+' ∉ x

variable {read : List Char → Identifier} {a b : Version}

theorem precedesBy_iff :
    PrecedesBy read a b ↔ a.major < b.major ∨ a.major = b.major ∧ (a.minor < b.minor ∨
      a.minor = b.minor ∧ (a.patch < b.patch ∨ a.patch = b.patch ∧
        PrecedesPre read a.pre b.pre)) := by
  constructor
  · rintro (h | ⟨hmajor, h⟩ | ⟨hmajor, hminor, h⟩ | ⟨hmajor, hminor, hpatch, h⟩)
    · exact .inl h
    · exact .inr ⟨hmajor, .inl h⟩
    · exact .inr ⟨hmajor, .inr ⟨hminor, .inl h⟩⟩
    · exact .inr ⟨hmajor, .inr ⟨hminor, .inr ⟨hpatch, h⟩⟩⟩
  · rintro (h | ⟨hmajor, h | ⟨hminor, h | ⟨hpatch, h⟩⟩⟩)
    · exact .major h
    · exact .minor hmajor h
    · exact .patch hmajor hminor h
    · exact .pre hmajor hminor hpatch h

theorem precedesPre_iff {pre other : Option String} :
    PrecedesPre read pre other ↔ ∃ tag ∈ pre, ∀ tag' ∈ other,
      List.Lex Before (identifiers read tag) (identifiers read tag') := by
  constructor
  · rintro (tag | hlex)
    · exact ⟨tag, rfl, by simp⟩
    · exact ⟨_, rfl, by simpa using hlex⟩
  · rintro ⟨tag, htag, hall⟩
    rw [Option.mem_def.mp htag]
    cases other with
    | none => exact .release tag
    | some other => exact .tags (hall other rfl)

theorem comparePre_eq_lt_iff_precedesPre (pre other : Option String) :
    comparePre pre other = .lt ↔ PrecedesPre bounded pre other := by
  cases pre with
  | none => cases other <;> exact iff_of_false (fun h => by cases h) (fun h => by cases h)
  | some tag =>
    cases other with
    | none => exact iff_of_true rfl (.release tag)
    | some other => exact (compareIdentifierLists_eq_lt_iff _ _).trans ⟨.tags, fun | .tags h => h⟩

/-- **The comparison of versions is precedence for which a number of 2^64 or more is a text.** -/
theorem compare_eq_lt_iff_precedesBy (a b : Version) :
    a.compare b = .lt ↔ PrecedesBy bounded a b := by
  rw [compare_eq_lt_iff, precedesBy_iff, comparePre_eq_lt_iff_precedesPre]

theorem PrecedesPre.asymm {pre other : Option String} (h : PrecedesPre read pre other) :
    ¬ PrecedesPre read other pre := by
  intro h'
  cases h with
  | release tag => cases h'
  | tags h =>
    cases h' with
    | tags h' => exact List.lex_asymm Before.asymm h h'

theorem PrecedesBy.asymm (h : PrecedesBy read a b) : ¬ PrecedesBy read b a := by
  intro h'
  rw [precedesBy_iff] at h h'
  have hpre := fun h : PrecedesPre read a.pre b.pre => h.asymm
  grind

theorem precedesBy_iff_pre (hmajor : a.major = b.major) (hminor : a.minor = b.minor)
    (hpatch : a.patch = b.patch) : PrecedesBy read a b ↔ PrecedesPre read a.pre b.pre := by
  simp [precedesBy_iff, hmajor, hminor, hpatch]

/-- A version is misplaced exactly if it is put before one that it does not precede. -/
theorem misplaced_iff (ha : a.PlusFree) (hb : b.PlusFree) :
    a.Misplaced b ↔ a.compare b = .lt ∧ ¬ a.Precedes b := by
  rw [compare_eq_lt_iff_precedesBy]
  constructor
  · rintro ⟨hmajor, hminor, hpatch, tag, htag, other, hother, hword⟩
    rw [Precedes, precedesBy_iff_pre hmajor hminor hpatch,
      precedesBy_iff_pre hmajor hminor hpatch, Option.mem_def.mp htag, Option.mem_def.mp hother]
    have hlex := hword.lex_bounded (ha tag htag) (hb other hother)
    have hnot := hword.not_lex_ofChars (ha tag htag) (hb other hother)
    exact ⟨.tags hlex, fun | .tags h => hnot h⟩
  · rintro ⟨h | ⟨hmajor, h⟩ | ⟨hmajor, hminor, h⟩ | ⟨hmajor, hminor, hpatch, h⟩, hnot⟩
    · exact absurd (.major h) hnot
    · exact absurd (.minor hmajor h) hnot
    · exact absurd (.patch hmajor hminor h) hnot
    · rw [Precedes, precedesBy_iff_pre hmajor hminor hpatch] at hnot
      obtain ⟨tag, htag, hlex⟩ := precedesPre_iff.mp h
      have hother : ∃ other ∈ b.pre,
          ¬ List.Lex Before (identifiers ofChars tag) (identifiers ofChars other) := by
        by_contra! hall
        exact hnot (precedesPre_iff.mpr ⟨tag, htag, hall⟩)
      obtain ⟨other, hother, hnot⟩ := hother
      exact ⟨hmajor, hminor, hpatch, tag, htag, other, hother,
        misplacedWord_of_lex (ha tag htag) (hb other hother) (hlex other hother) hnot⟩

theorem not_precedes_of_compare_eq_eq (ha : a.PlusFree) (hb : b.PlusFree)
    (h : a.compare b = .eq) : ¬ a.Precedes b := by
  simp only [compare, Ordering.then_eq_eq, Nat.compare_eq_eq] at h
  obtain ⟨hmajor, hminor, hpatch, hpre⟩ := h
  rw [Precedes, precedesBy_iff_pre hmajor hminor hpatch]
  intro hprecedes
  obtain ⟨tag, htag, hlex⟩ := precedesPre_iff.mp hprecedes
  rw [Option.mem_def.mp htag] at hpre
  cases hother : b.pre with
  | none =>
    rw [hother] at hpre
    cases hpre
  | some other =>
    rw [hother] at hpre
    have hsame := map_ofChars_eq_of_map_bounded_eq (ha tag htag) (hb other hother)
      ((compareIdentifierLists_eq_eq_iff _ _).mp hpre)
    have hlex := hlex other hother
    rw [identifiers, identifiers, hsame] at hlex
    exact List.lex_irrefl Before.irrefl _ hlex

/-- The comparison follows precedence unless one of the two versions is misplaced. -/
theorem followsPrecedence_iff (ha : a.PlusFree) (hb : b.PlusFree) :
    a.FollowsPrecedence b ↔ ¬ a.Misplaced b ∧ ¬ b.Misplaced a := by
  have hswap : b.compare a = .lt ↔ a.compare b = .gt := OrientedCmp.gt_iff_lt.symm
  rw [misplaced_iff ha hb, misplaced_iff hb ha, hswap, FollowsPrecedence]
  constructor
  · rintro ⟨hlt, hgt⟩
    exact ⟨fun h => h.2 (hlt.mp h.1), fun h => h.2 (hgt.mp h.1)⟩
  · rintro ⟨hab, hba⟩
    have hlt : a.compare b = .lt → a.Precedes b := fun h => not_not.mp fun hnot => hab ⟨h, hnot⟩
    have hgt : a.compare b = .gt → b.Precedes a := fun h => not_not.mp fun hnot => hba ⟨h, hnot⟩
    cases hcompare : a.compare b with
    | lt =>
      have hprecedes := hlt hcompare
      simp [hprecedes, hprecedes.asymm]
    | eq =>
      have hnot := not_precedes_of_compare_eq_eq ha hb hcompare
      have hnot' := not_precedes_of_compare_eq_eq hb ha (OrientedCmp.eq_comm.mp hcompare)
      simp [hnot, hnot']
    | gt =>
      have hprecedes := hgt hcompare
      simp [hprecedes, hprecedes.asymm]

theorem Misplaced.not_hasShortNumbers (h : a.Misplaced b) : ¬ b.HasShortNumbers := by
  obtain ⟨-, -, -, tag, -, other, hother, hword⟩ := h
  obtain ⟨y, hy, hlong⟩ := hword.exists_isLong
  intro hshort
  exact hshort other hother (ofChars y) (List.mem_map_of_mem hy) hlong

/-- Tags that are read have no plus sign. -/
theorem plusFree_of_ofText? {text : String} (h : ofText? text = some a) : a.PlusFree := by
  intro tag htag x hx hplus
  have hchars := ((wellFormed_of_ofText? h).pre tag htag).2
  have hchar := hchars '+' (Text.mem_of_mem_split hx hplus)
  revert hchar
  decide

/-- **Where the comparison of versions is precedence.** The comparison of two versions that can be
read tells their precedence unless one of them is misplaced. None is if the tags have no numbers of
2^64 or more for identifiers. -/
theorem follows_precedence_iff {text other : String} (ha : ofText? text = some a)
    (hb : ofText? other = some b) :
    (a.FollowsPrecedence b ↔ ¬ a.Misplaced b ∧ ¬ b.Misplaced a) ∧
    (a.HasShortNumbers → b.HasShortNumbers → a.FollowsPrecedence b) := by
  have hiff := followsPrecedence_iff (plusFree_of_ofText? ha) (plusFree_of_ofText? hb)
  refine ⟨hiff, ?_⟩
  intro hshort hshort'
  exact hiff.mpr ⟨fun h => h.not_hasShortNumbers hshort', fun h => h.not_hasShortNumbers hshort⟩

/-- The pre-release of version 1.0.0 with a tag. -/
def ofTag (tag : String) : Version := { major := 1, minor := 0, patch := 0, pre := some tag }

/-- The numbers of pre-releases decide, not their spellings. -/
theorem rc_nine_before_rc_ten :
    ofText? "1.0.0-rc.9" = some (ofTag "rc.9") ∧ ofText? "1.0.0-rc.10" = some (ofTag "rc.10") ∧
      (ofTag "rc.9").HasShortNumbers ∧ (ofTag "rc.10").HasShortNumbers ∧
      (ofTag "rc.9").FollowsPrecedence (ofTag "rc.10") := by
  have hnine : ofText? "1.0.0-rc.9" = some (ofTag "rc.9") := by decide +kernel
  have hten : ofText? "1.0.0-rc.10" = some (ofTag "rc.10") := by decide +kernel
  have hshort : (ofTag "rc.9").HasShortNumbers := by
    rintro tag ⟨⟩
    decide +kernel
  have hshort' : (ofTag "rc.10").HasShortNumbers := by
    rintro tag ⟨⟩
    decide +kernel
  exact ⟨hnine, hten, hshort, hshort', (follows_precedence_iff hnine hten).2 hshort hshort'⟩

/-- Of two numbers that do not fit into 64 bits the greater one comes first. -/
theorem longer_number_first :
    ofText? "1.0.0-99999999999999999999" = some (ofTag "99999999999999999999") ∧
      ofText? "1.0.0-100000000000000000000" = some (ofTag "100000000000000000000") ∧
      (ofTag "99999999999999999999").Precedes (ofTag "100000000000000000000") ∧
      (ofTag "99999999999999999999").compare (ofTag "100000000000000000000") = .gt := by
  have hread : identifiers ofChars "99999999999999999999" =
      [Identifier.number 99999999999999999999] := by decide +kernel
  have hread' : identifiers ofChars "100000000000000000000" =
      [Identifier.number 100000000000000000000] := by decide +kernel
  refine ⟨by decide +kernel, by decide +kernel, .pre rfl rfl rfl (.tags ?_), by decide +kernel⟩
  rw [hread, hread']
  exact .rel (.numbers (by decide))

end Version

end FeatureFlags
