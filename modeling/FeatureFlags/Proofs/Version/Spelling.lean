import FeatureFlags.Version
import Mathlib.Data.List.TakeWhile

/-!
# How versions are spelled

A `Version.Spelling` is what a text of a version consists of: the letter, if it is there, runs of
digits for the numbers, and runs of tag characters for the tag and the build text.

- `Version.ofText?_eq_some_iff`: a text is read as a version exactly if it is such a spelling with
  blanks around it, of this version, and the numbers are of 64 bits.
- `Version.Spelling.eq_of_spells`: a text has one spelling.

The characters of a tag may be points and hyphens, which are marks elsewhere. Still nothing is read
in two ways, because every run is read as far as it goes: a class and what stops it determine the
run (`Version.Run.eq_append_iff`), and behind each part of a spelling comes what stops it
(`Version.Spelling.endsAt_patch` and the like). So there is one equivalence for every reader.
-/

namespace FeatureFlags

namespace Text

/-! ## Where a class of characters ends -/

section Classes

variable {p : Char → Bool} {front rest : List Char}

/-- The text begins with no character of the class. -/
def StopsAt (p : Char → Bool) (rest : List Char) : Prop := ∀ c ∈ rest.head?, p c = false

theorem stopsAt_dropWhile (cs : List Char) : StopsAt p (cs.dropWhile p) := by
  intro c hc
  have h := List.head?_dropWhile_not p cs
  rw [Option.mem_def.mp hc] at h
  exact h

/-- What stops a class ends the characters that are taken. -/
theorem span_append (hfront : ∀ c ∈ front, p c = true) (hrest : StopsAt p rest) :
    (front ++ rest).takeWhile p = front ∧ (front ++ rest).dropWhile p = rest := by
  rw [List.takeWhile_append_of_pos hfront, List.dropWhile_append_of_pos hfront]
  cases rest with
  | nil => exact ⟨List.append_nil front, rfl⟩
  | cons c rest =>
    have hc : ¬ p c = true := by
      rw [hrest c rfl]
      decide
    rw [List.takeWhile_cons_of_neg hc, List.dropWhile_cons_of_neg hc]
    exact ⟨List.append_nil front, rfl⟩

end Classes

/-! ## Blanks -/

variable {before core after : List Char}

theorem stopsAt_isBlank (hcore : ∀ c ∈ core, isBlank c = false) (hne : core ≠ [])
    (after : List Char) : StopsAt isBlank (core ++ after) := by
  obtain ⟨c, cs, rfl⟩ := List.exists_cons_of_ne_nil hne
  rintro _ ⟨⟩
  exact hcore c List.mem_cons_self

/-- Blanks around a text without blanks are trimmed. -/
theorem trim_append (hbefore : ∀ c ∈ before, isBlank c = true)
    (hafter : ∀ c ∈ after, isBlank c = true) (hcore : ∀ c ∈ core, isBlank c = false)
    (hne : core ≠ []) : trim (before ++ core ++ after) = core := by
  have hdrop : (before ++ core ++ after).dropWhile isBlank = core ++ after := by
    rw [List.append_assoc]
    exact (span_append hbefore (stopsAt_isBlank hcore hne after)).2
  have hreverse : (core ++ after).reverse.dropWhile isBlank = core.reverse := by
    have hstops : StopsAt isBlank (core.reverse ++ []) :=
      stopsAt_isBlank (fun c hc => hcore c (List.mem_reverse.mp hc))
        (List.reverse_ne_nil_iff.mpr hne) []
    rw [List.append_nil] at hstops
    rw [List.reverse_append]
    exact (span_append (fun c hc => hafter c (List.mem_reverse.mp hc)) hstops).2
  rw [trim, hdrop, hreverse, List.reverse_reverse]

/-- Nothing but blanks is trimmed. -/
theorem exists_append_trim (cs : List Char) :
    ∃ before after, (∀ c ∈ before, isBlank c = true) ∧ (∀ c ∈ after, isBlank c = true) ∧
      cs = before ++ trim cs ++ after := by
  refine ⟨cs.takeWhile isBlank, ((cs.dropWhile isBlank).reverse.takeWhile isBlank).reverse,
    fun c hc => List.mem_takeWhile_imp hc, fun c hc => ?_, ?_⟩
  · exact List.mem_takeWhile_imp (List.mem_reverse.mp hc)
  · rw [trim, List.append_assoc, ← List.reverse_append, List.takeWhile_append_dropWhile,
      List.reverse_reverse, List.takeWhile_append_dropWhile]

end Text

namespace Version

open Text (StopsAt)

/-! ## Tag characters -/

theorem isTagChar_of_isDigit {c : Char} (h : c.isDigit = true) : isTagChar c = true := by
  simp [isTagChar, Char.isAlphanum, h]

theorem toNat_of_isTagChar {c : Char} (h : isTagChar c = true) : 45 ≤ c.toNat ∧ c.toNat ≤ 122 := by
  rw [isTagChar, Bool.or_eq_true, Bool.or_eq_true, decide_eq_true_eq, decide_eq_true_eq] at h
  obtain (h | rfl) | rfl := h
  · have hletter : (c.isUpper || c.isLower || c.isDigit) = true := h
    rw [Bool.or_eq_true, Bool.or_eq_true] at hletter
    obtain (h | h) | h := hletter
    · obtain ⟨hlow, hhigh⟩ : 'A'.val ≤ c.val ∧ c.val ≤ 'Z'.val := of_decide_eq_true h
      rw [UInt32.le_iff_toNat_le] at hlow hhigh
      exact ⟨le_trans (by decide) hlow, le_trans hhigh (by decide)⟩
    · obtain ⟨hlow, hhigh⟩ : 'a'.val ≤ c.val ∧ c.val ≤ 'z'.val := by
        simpa using (show (decide ('a'.val ≤ c.val) && decide (c.val ≤ 'z'.val)) = true from h)
      rw [UInt32.le_iff_toNat_le] at hlow hhigh
      exact ⟨le_trans (by decide) hlow, le_trans hhigh (by decide)⟩
    · obtain ⟨hlow, hhigh⟩ := Char.isDigit_iff_toNat.mp h
      exact ⟨le_trans (by decide) hlow, le_trans hhigh (by decide)⟩
  · decide
  · decide

theorem isBlank_of_isTagChar {c : Char} (h : isTagChar c = true) : Text.isBlank c = false := by
  obtain ⟨hlow, hhigh⟩ := toNat_of_isTagChar h
  simp [Text.isBlank, Text.blankRanges]
  omega

/-! ## Runs -/

/-- Characters of a class, at least one. -/
@[ext]
structure Run (p : Char → Bool) where
  /-- The characters in order. -/
  chars : List Char
  ne_nil : chars ≠ []
  all : ∀ c ∈ chars, p c = true

section Runs

variable {p : Char → Bool} {mark : Char} {cs rest : List Char} {r r' : Run p}
  {part part' : Option (Run p)}

/-- A run that may be missing, behind its mark. -/
def marked (mark : Char) : Option (Run p) → List Char
  | none => []
  | some r => mark :: r.chars

/-- What follows is no longer part of the run, nor its mark if the run is missing. -/
def EndsAt (mark : Char) (rest : List Char) : Option (Run p) → Prop
  | none => rest.head? ≠ some mark
  | some _ => StopsAt p rest

/-- A class and what stops it determine the run. -/
theorem Run.eq_append_iff :
    cs = r.chars ++ rest ∧ StopsAt p rest ↔ cs.takeWhile p = r.chars ∧ cs.dropWhile p = rest := by
  constructor
  · rintro ⟨rfl, hstops⟩
    exact Text.span_append r.all hstops
  · rintro ⟨htake, rfl⟩
    rw [← htake, List.takeWhile_append_dropWhile]
    exact ⟨rfl, Text.stopsAt_dropWhile cs⟩

/-- The run that a text begins with. -/
theorem exists_run (h : cs.takeWhile p ≠ []) :
    ∃ r : Run p, r.chars = cs.takeWhile p ∧ cs = r.chars ++ cs.dropWhile p ∧
      StopsAt p (cs.dropWhile p) :=
  ⟨⟨cs.takeWhile p, h, fun _ hc => List.mem_takeWhile_imp hc⟩, rfl,
    Run.eq_append_iff.mpr ⟨rfl, rfl⟩⟩

theorem run_append_inj {rest' : List Char} (h : StopsAt p rest) (h' : StopsAt p rest')
    (heq : r.chars ++ rest = r'.chars ++ rest') : r = r' ∧ rest = rest' := by
  obtain ⟨htake, hdrop⟩ := Run.eq_append_iff.mp ⟨rfl, h⟩
  obtain ⟨htake', hdrop'⟩ := Run.eq_append_iff.mp ⟨heq, h'⟩
  exact ⟨Run.ext (htake.symm.trans htake'), hdrop.symm.trans hdrop'⟩

/-- What follows a part and may not belong to it determines the part. -/
theorem marked_append_inj {rest' : List Char} (h : EndsAt mark rest part)
    (h' : EndsAt mark rest' part') (heq : marked mark part ++ rest = marked mark part' ++ rest') :
    part = part' ∧ rest = rest' := by
  cases part with
  | none =>
    cases part' with
    | none => exact ⟨rfl, heq⟩
    | some r' =>
      obtain rfl : rest = _ := heq
      exact absurd rfl h
  | some r =>
    cases part' with
    | none =>
      obtain rfl : _ = rest' := heq
      exact absurd rfl h'
    | some r' =>
      exact (run_append_inj h h' (List.cons.inj heq).2).imp_left (congrArg some)

/-- The number a run of digits stands for. -/
def Run.number (r : Run Char.isDigit) : Nat := Text.Digits.value r.chars

/-- The text a run consists of. -/
def Run.text (r : Run p) : String := String.ofList r.chars

/-! ## What the readers read -/

theorem readNumber_eq_some_iff {n : Nat} :
    readNumber cs = some (n, rest) ↔
      ∃ r : Run Char.isDigit, cs = r.chars ++ rest ∧ StopsAt Char.isDigit rest ∧
        r.number = n ∧ n < numberBound := by
  unfold readNumber Text.Digits.decodeBelow? Text.Digits.decode?
  constructor
  · intro h
    obtain ⟨m, hm, heq⟩ := Option.map_eq_some_iff.mp h
    cases heq
    obtain ⟨hdigits, hbound⟩ := Option.filter_eq_some_iff.mp hm
    split at hdigits
    · next hrun =>
      obtain ⟨r, hchars, hcs, hstops⟩ := exists_run hrun.1
      rw [← hchars] at hdigits
      exact ⟨r, hcs, hstops, Option.some.inj hdigits, of_decide_eq_true hbound⟩
    · cases hdigits
  · rintro ⟨r, hcs, hstops, hnumber, hbound⟩
    obtain ⟨htake, hdrop⟩ := Run.eq_append_iff.mp ⟨hcs, hstops⟩
    have hnumber : Text.Digits.value r.chars = n := hnumber
    rw [htake, hdrop, if_pos ⟨r.ne_nil, List.all_eq_true.mpr r.all⟩, hnumber, Option.filter_some,
      if_pos (decide_eq_true hbound), Option.map_some]

theorem readPatch_of_head?_ne (h : cs.head? ≠ some '.') : readPatch cs = some (0, cs) := by
  unfold readPatch
  split
  · exact absurd rfl h
  · rfl

theorem readPatch_eq_some_iff {n : Nat} :
    readPatch cs = some (n, rest) ↔
      ∃ part : Option (Run Char.isDigit), cs = marked '.' part ++ rest ∧ EndsAt '.' rest part ∧
        part.elim 0 Run.number = n ∧ n < numberBound := by
  constructor
  · intro h
    by_cases hmark : cs.head? = some '.'
    · obtain ⟨tail, rfl⟩ := List.head?_eq_some_iff.mp hmark
      obtain ⟨r, rfl, hstops, hnumber, hbound⟩ := readNumber_eq_some_iff.mp h
      exact ⟨some r, rfl, hstops, hnumber, hbound⟩
    · rw [readPatch_of_head?_ne hmark] at h
      cases h
      exact ⟨none, rfl, hmark, rfl, by decide⟩
  · rintro ⟨part, rfl, hends, hnumber, hbound⟩
    cases part with
    | none =>
      cases hnumber
      exact readPatch_of_head?_ne hends
    | some r => exact readNumber_eq_some_iff.mpr ⟨r, rfl, hends, hnumber, hbound⟩

theorem readTag_cons_self (mark : Char) (cs : List Char) :
    readTag mark (mark :: cs) =
      if cs.takeWhile isTagChar = [] then none
      else some (some (String.ofList (cs.takeWhile isTagChar)), cs.dropWhile isTagChar) :=
  if_pos rfl

theorem readTag_of_head?_ne (h : cs.head? ≠ some mark) : readTag mark cs = some (none, cs) := by
  cases cs with
  | nil => rfl
  | cons c cs => exact if_neg fun hc => h (congrArg some hc)

theorem readTag_eq_some_iff {pre : Option String} :
    readTag mark cs = some (pre, rest) ↔
      ∃ part : Option (Run isTagChar), cs = marked mark part ++ rest ∧ EndsAt mark rest part ∧
        part.map Run.text = pre := by
  constructor
  · intro h
    by_cases hmark : cs.head? = some mark
    · obtain ⟨tail, rfl⟩ := List.head?_eq_some_iff.mp hmark
      rw [readTag_cons_self] at h
      split at h
      · cases h
      · next hne =>
        obtain ⟨r, hchars, hcs, hstops⟩ := exists_run hne
        cases h
        exact ⟨some r, congrArg (mark :: ·) hcs, hstops, by rw [← hchars]; rfl⟩
    · rw [readTag_of_head?_ne hmark] at h
      cases h
      exact ⟨none, rfl, hmark, rfl⟩
  · rintro ⟨part, rfl, hends, rfl⟩
    cases part with
    | none => exact readTag_of_head?_ne hends
    | some r =>
      obtain ⟨htake, hdrop⟩ := Run.eq_append_iff.mp ⟨rfl, hends⟩
      rw [marked, List.cons_append, readTag_cons_self, htake, hdrop, if_neg r.ne_nil]
      rfl

end Runs

/-! ## Spellings -/

/-- What a text of a version consists of. -/
@[ext]
structure Spelling where
  /-- Whether a `v` stands in front. -/
  letter : Bool
  /-- The digits of the major number. -/
  major : Run Char.isDigit
  /-- The digits of the minor number. -/
  minor : Run Char.isDigit
  /-- The digits of the patch number, if there is one. -/
  patch : Option (Run Char.isDigit)
  /-- The pre-release tag, if there is one. -/
  tag : Option (Run isTagChar)
  /-- The build text, if there is any. -/
  build : Option (Run isTagChar)

namespace Spelling

/-- What stands behind the letter. -/
def body (s : Spelling) : List Char :=
  s.major.chars ++ '.' :: (s.minor.chars ++
    (marked '.' s.patch ++ (marked '-' s.tag ++ marked '+' s.build)))

/-- The text without blanks around it. -/
def chars (s : Spelling) : List Char := if s.letter then 'v' :: s.body else s.body

/-- The version that is spelled: a missing patch number is zero, and the build text does not
matter. -/
def version (s : Spelling) : Version where
  major := s.major.number
  minor := s.minor.number
  patch := s.patch.elim 0 Run.number
  pre := s.tag.map Run.text

/-- The text is the spelling with blanks around it. -/
def Spells (s : Spelling) (text : String) : Prop :=
  ∃ before after, (∀ c ∈ before, Text.isBlank c = true) ∧ (∀ c ∈ after, Text.isBlank c = true) ∧
    text.toList = before ++ s.chars ++ after

variable {s s' : Spelling} {cs : List Char} {v : Version}

/-! ### What stands behind the parts -/

theorem endsAt_build (s : Spelling) : EndsAt '+' [] s.build := by
  cases s.build
  · exact fun h => by cases h
  · exact fun c hc => by cases hc

theorem endsAt_tag (s : Spelling) : EndsAt '-' (marked '+' s.build) s.tag := by
  cases s.tag <;> cases s.build <;> simp [EndsAt, StopsAt, marked, isTagChar]

theorem endsAt_patch (s : Spelling) :
    EndsAt '.' (marked '-' s.tag ++ marked '+' s.build) s.patch := by
  cases s.patch <;> cases s.tag <;> cases s.build <;> simp [EndsAt, StopsAt, marked]

theorem stopsAt_minor (s : Spelling) :
    StopsAt Char.isDigit (marked '.' s.patch ++ (marked '-' s.tag ++ marked '+' s.build)) := by
  cases s.patch <;> cases s.tag <;> cases s.build <;> simp [StopsAt, marked]

theorem stopsAt_major (tail : List Char) : StopsAt Char.isDigit ('.' :: tail) := by
  simp [StopsAt]

/-! ### One spelling -/

theorem body_ne_cons_v (s : Spelling) (cs : List Char) : s.body ≠ 'v' :: cs := by
  obtain ⟨c, digits, hchars⟩ := List.exists_cons_of_ne_nil s.major.ne_nil
  have hdigit : c.isDigit = true := s.major.all c (by rw [hchars]; exact List.mem_cons_self)
  intro h
  rw [body, hchars, List.cons_append] at h
  cases h
  cases hdigit

theorem eq_of_body_eq (h : s.body = s'.body) (hletter : s.letter = s'.letter) : s = s' := by
  obtain ⟨hmajor, h⟩ := run_append_inj (stopsAt_major _) (stopsAt_major _) h
  obtain ⟨hminor, h⟩ := run_append_inj s.stopsAt_minor s'.stopsAt_minor (List.cons.inj h).2
  obtain ⟨hpatch, h⟩ := marked_append_inj s.endsAt_patch s'.endsAt_patch h
  obtain ⟨htag, h⟩ := marked_append_inj s.endsAt_tag s'.endsAt_tag h
  obtain ⟨hbuild, -⟩ := marked_append_inj s.endsAt_build s'.endsAt_build (congrArg (· ++ []) h)
  exact Spelling.ext hletter hmajor hminor hpatch htag hbuild

theorem eq_of_chars_eq (h : s.chars = s'.chars) : s = s' := by
  unfold chars at h
  cases hletter : s.letter <;> cases hletter' : s'.letter <;>
    simp only [hletter, hletter', if_true, if_false, Bool.false_eq_true] at h
  · exact eq_of_body_eq h (hletter.trans hletter'.symm)
  · exact absurd h (s.body_ne_cons_v _)
  · exact absurd h.symm (s'.body_ne_cons_v _)
  · exact eq_of_body_eq (List.cons.inj h).2 (hletter.trans hletter'.symm)

/-! ### Reading -/

/-- Behind the letter, a text is read as a version exactly if it spells it. -/
theorem ofChars?_cons_v_iff :
    ofChars? ('v' :: cs) = some v ↔
      ∃ s : Spelling, s.body = cs ∧ s.version = v ∧
        v.major < numberBound ∧ v.minor < numberBound ∧ v.patch < numberBound := by
  unfold ofChars?
  simp only [Option.bind_eq_bind]
  constructor
  · intro hread
    obtain ⟨⟨_, _⟩, hmajor, h⟩ := Option.bind_eq_some_iff.mp hread
    clear hread
    dsimp only at h
    split at h
    · simp only [Option.bind_eq_some_iff, Prod.exists] at h
      obtain ⟨_, _, hminor, _, _, hpatch, _, _, htag, _, _, hbuild, h⟩ := h
      obtain ⟨major, rfl, -, rfl, hmajorLt⟩ := readNumber_eq_some_iff.mp hmajor
      obtain ⟨minor, rfl, -, rfl, hminorLt⟩ := readNumber_eq_some_iff.mp hminor
      obtain ⟨patch, rfl, -, rfl, hpatchLt⟩ := readPatch_eq_some_iff.mp hpatch
      obtain ⟨tag, rfl, -, rfl⟩ := readTag_eq_some_iff.mp htag
      obtain ⟨build, rfl, -, rfl⟩ := readTag_eq_some_iff.mp hbuild
      split at h
      · next hrest =>
        cases h
        cases hrest
        refine ⟨⟨false, major, minor, patch, tag, build⟩, ?_, rfl, hmajorLt, hminorLt, hpatchLt⟩
        rw [List.append_nil]
        rfl
      · cases h
    · cases h
  · rintro ⟨s, rfl, rfl, hmajor, hminor, hpatch⟩
    have hreadMajor := fun tail =>
      readNumber_eq_some_iff.mpr ⟨s.major, rfl, stopsAt_major tail, rfl, hmajor⟩
    have hreadMinor := readNumber_eq_some_iff.mpr ⟨s.minor, rfl, s.stopsAt_minor, rfl, hminor⟩
    have hreadPatch := readPatch_eq_some_iff.mpr ⟨s.patch, rfl, s.endsAt_patch, rfl, hpatch⟩
    have hreadTag := readTag_eq_some_iff.mpr ⟨s.tag, rfl, s.endsAt_tag, rfl⟩
    have hreadBuild := readTag_eq_some_iff.mpr ⟨s.build, rfl, s.endsAt_build, rfl⟩
    rw [List.append_nil] at hreadBuild
    simp only [body, hreadMajor, hreadMinor, hreadPatch, hreadTag, hreadBuild, Option.bind_some,
      if_true]
    rfl

/-- The letter may be missing. -/
theorem ofChars?_cons_v (h : ∀ tail, cs ≠ 'v' :: tail) : ofChars? ('v' :: cs) = ofChars? cs := by
  conv => rhs; unfold ofChars?
  split
  · exact absurd rfl (h _)
  · rfl

end Spelling

/-- A text without blanks around it is read as a version exactly if it spells it. -/
theorem ofChars?_eq_some_iff {cs : List Char} {v : Version} :
    ofChars? cs = some v ↔
      ∃ s : Spelling, s.chars = cs ∧ s.version = v ∧
        v.major < numberBound ∧ v.minor < numberBound ∧ v.patch < numberBound := by
  by_cases hletter : ∃ tail, cs = 'v' :: tail
  · obtain ⟨tail, rfl⟩ := hletter
    rw [Spelling.ofChars?_cons_v_iff]
    constructor
    · rintro ⟨s, rfl, h⟩
      exact ⟨{ s with letter := true }, rfl, h⟩
    · rintro ⟨s, hchars, h⟩
      unfold Spelling.chars at hchars
      split at hchars
      · exact ⟨s, (List.cons.inj hchars).2, h⟩
      · exact absurd hchars (s.body_ne_cons_v tail)
  · rw [← Spelling.ofChars?_cons_v (not_exists.mp hletter), Spelling.ofChars?_cons_v_iff]
    constructor
    · rintro ⟨s, rfl, h⟩
      exact ⟨{ s with letter := false }, rfl, h⟩
    · rintro ⟨s, hchars, h⟩
      unfold Spelling.chars at hchars
      split at hchars
      · exact absurd ⟨_, hchars.symm⟩ hletter
      · exact ⟨s, hchars, h⟩

/-! ## Blanks around a spelling -/

namespace Spelling

variable {s s' : Spelling} {text : String}

theorem chars_ne_nil (s : Spelling) : s.chars ≠ [] := by
  unfold chars body
  split
  · exact List.cons_ne_nil _ _
  · exact fun h => s.major.ne_nil (List.append_eq_nil_iff.mp h).1

theorem isBlank_of_mem_marked {p : Char → Bool} {mark : Char} {part : Option (Run p)}
    (hp : ∀ c, p c = true → isTagChar c = true) (hmark : Text.isBlank mark = false) :
    ∀ c ∈ marked mark part, Text.isBlank c = false := by
  cases part with
  | none => exact List.forall_mem_nil _
  | some r =>
    exact List.forall_mem_cons.mpr ⟨hmark, fun c hc => isBlank_of_isTagChar (hp c (r.all c hc))⟩

theorem isBlank_of_mem_chars (s : Spelling) : ∀ c ∈ s.chars, Text.isBlank c = false := by
  have hdigit : ∀ r : Run Char.isDigit, ∀ c ∈ r.chars, Text.isBlank c = false := fun r c hc =>
    isBlank_of_isTagChar (isTagChar_of_isDigit (r.all c hc))
  have hbody : ∀ c ∈ s.body, Text.isBlank c = false := by
    unfold body
    simp only [List.forall_mem_append, List.forall_mem_cons]
    exact ⟨hdigit _, by decide, hdigit _,
      isBlank_of_mem_marked (fun _ => isTagChar_of_isDigit) (by decide),
      isBlank_of_mem_marked (fun _ => id) (by decide),
      isBlank_of_mem_marked (fun _ => id) (by decide)⟩
  unfold chars
  split
  · exact List.forall_mem_cons.mpr ⟨by decide, hbody⟩
  · exact hbody

theorem spells_iff : s.Spells text ↔ s.chars = Text.trim text.toList := by
  constructor
  · rintro ⟨before, after, hbefore, hafter, htext⟩
    rw [htext, Text.trim_append hbefore hafter s.isBlank_of_mem_chars s.chars_ne_nil]
  · intro h
    obtain ⟨before, after, hbefore, hafter, htext⟩ := Text.exists_append_trim text.toList
    exact ⟨before, after, hbefore, hafter, h ▸ htext⟩

/-- **A text has one spelling.** -/
theorem eq_of_spells (h : s.Spells text) (h' : s'.Spells text) : s = s' :=
  eq_of_chars_eq ((spells_iff.mp h).trans (spells_iff.mp h').symm)

end Spelling

/-- **A text is read as a version exactly if it spells it**, and the numbers are of 64 bits. -/
theorem ofText?_eq_some_iff {text : String} {v : Version} :
    ofText? text = some v ↔
      ∃ s : Spelling, s.Spells text ∧ s.version = v ∧
        v.major < numberBound ∧ v.minor < numberBound ∧ v.patch < numberBound := by
  rw [ofText?, ofChars?_eq_some_iff]
  simp only [Spelling.spells_iff]

end Version

end FeatureFlags
