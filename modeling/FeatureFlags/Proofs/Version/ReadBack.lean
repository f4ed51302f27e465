import FeatureFlags.Proofs.Version.Spelling
import FeatureFlags.Scalar.Basic

/-!
# Versions read back

`Version.ofText?_toText`: the text of a version is read as the version, if its numbers are of 64
bits and its tag is a text over tag characters (`Version.WellFormed`). Whatever is read is of that
kind: `Version.wellFormed_of_ofText?`. Together with what is read in the first place this is
`Version.reads_its_grammar`.

Both are read off spellings: the text of a version is one of its spellings, the one with all three
numbers and without leading zeros, letter and build text.
-/

namespace FeatureFlags

namespace Version

/-- The numbers are of 64 bits, and the tag is a text over tag characters. -/
structure WellFormed (v : Version) : Prop where
  major : v.major < numberBound
  minor : v.minor < numberBound
  patch : v.patch < numberBound
  pre : ∀ tag ∈ v.pre, tag.toList ≠ [] ∧ ∀ c ∈ tag.toList, isTagChar c = true

variable {v : Version} {text : String}

/-! ## What is read -/

/-- **Whatever version is read has numbers of 64 bits and a tag over tag characters.** -/
theorem wellFormed_of_ofText? (h : ofText? text = some v) : v.WellFormed := by
  obtain ⟨s, -, rfl, hmajor, hminor, hpatch⟩ := ofText?_eq_some_iff.mp h
  refine ⟨hmajor, hminor, hpatch, fun tag htag => ?_⟩
  obtain ⟨r, -, rfl⟩ := Option.map_eq_some_iff.mp htag
  rw [Run.text, String.toList_ofList]
  exact ⟨r.ne_nil, r.all⟩

/-! ## What is written -/

/-- The tag behind its mark. -/
def tagChars : Option String → List Char
  | some tag => '-' :: tag.toList
  | none => []

theorem toList_toText (v : Version) :
    v.toText.toList = Text.Digits.encode v.major ++ '.' :: (Text.Digits.encode v.minor ++
      '.' :: (Text.Digits.encode v.patch ++ tagChars v.pre)) := by
  obtain ⟨major, minor, patch, pre⟩ := v
  cases pre <;> simp [toText, tagChars, Text.Digits.encode]

/-- The digits of a number. -/
def Run.ofNumber (n : Nat) : Run Char.isDigit where
  chars := Text.Digits.encode n
  ne_nil := Text.Digits.encode_ne_nil n
  all _ hc := Text.Digits.isDigit_of_mem_encode hc

theorem Run.number_ofNumber (n : Nat) : (Run.ofNumber n).number = n := Text.Digits.value_encode n

/-- The text of a version is one of its spellings. -/
theorem exists_spelling_toText (h : v.WellFormed) :
    ∃ s : Spelling, s.chars = v.toText.toList ∧ s.version = v := by
  obtain ⟨tag, hmarked, htext⟩ : ∃ tag : Option (Run isTagChar),
      marked '-' tag = tagChars v.pre ∧ tag.map Run.text = v.pre := by
    cases hpre : v.pre with
    | none => exact ⟨none, rfl, rfl⟩
    | some tag =>
      obtain ⟨hne, hall⟩ := h.pre tag hpre
      exact ⟨some ⟨tag.toList, hne, hall⟩, rfl, congrArg some String.ofList_toList⟩
  let s : Spelling :=
    { letter := false, major := .ofNumber v.major, minor := .ofNumber v.minor,
      patch := some (.ofNumber v.patch), tag, build := none }
  refine ⟨s, ?_, ?_⟩
  · rw [toList_toText, ← hmarked, ← List.append_nil (marked '-' tag)]
    rfl
  · simp only [s, Spelling.version, Option.elim, Run.number_ofNumber, htext]

/-- **The text of a version is read as the version.** -/
theorem ofText?_toText (h : v.WellFormed) : ofText? v.toText = some v := by
  obtain ⟨s, hchars, hversion⟩ := exists_spelling_toText h
  refine ofText?_eq_some_iff.mpr ⟨s, ?_, hversion, h.major, h.minor, h.patch⟩
  refine ⟨[], [], List.forall_mem_nil _, List.forall_mem_nil _, ?_⟩
  rw [hchars, List.nil_append, List.append_nil]

theorem ofText?_of_ofJson? {json : Json} (h : Scalar.ofJson? json = some (.version v)) :
    ∃ text, ofText? text = some v := by
  unfold Scalar.ofJson? at h
  split at h
  · obtain ⟨kind, -, h⟩ := Option.bind_eq_some_iff.mp h
    cases kind with
    | version =>
      obtain ⟨text, -, h⟩ := Option.bind_eq_some_iff.mp h
      obtain ⟨v', hread, heq⟩ := Option.map_eq_some_iff.mp h
      cases heq
      exact ⟨text, hread⟩
    | bool | number | string =>
      obtain ⟨_, -, heq⟩ := Option.map_eq_some_iff.mp h
      cases heq
    | timestamp =>
      obtain ⟨_, -, h⟩ := Option.bind_eq_some_iff.mp h
      obtain ⟨_, -, heq⟩ := Option.map_eq_some_iff.mp h
      cases heq
  · cases h

/-- **Versions are read by their grammar and read back.** A text is read as a version exactly if,
blanks around it apart, it is a spelling of this version, and the numbers are below 2^64. No text
has two spellings. The text of whatever was read is read as the same version, and so is what is
written for it in a snapshot. -/
theorem reads_its_grammar (text : String) (v : Version) :
    (ofText? text = some v ↔
      ∃ s : Spelling, s.Spells text ∧ s.version = v ∧
        v.major < Nat.pow 2 64 ∧ v.minor < Nat.pow 2 64 ∧ v.patch < Nat.pow 2 64) ∧
    (∀ s s' : Spelling, s.Spells text → s'.Spells text → s = s') ∧
    (ofText? text = some v → ofText? v.toText = some v) ∧
    (∀ json, Scalar.ofJson? json = some (.version v) →
      Scalar.ofJson? (Scalar.version v).toJson = some (.version v)) := by
  refine ⟨ofText?_eq_some_iff, fun s s' => Spelling.eq_of_spells,
    fun h => ofText?_toText (wellFormed_of_ofText? h), fun json h => ?_⟩
  obtain ⟨text, hread⟩ := ofText?_of_ofJson? h
  show (ofText? v.toText).map Scalar.version = some (.version v)
  rw [ofText?_toText (wellFormed_of_ofText? hread), Option.map_some]

/-- A beta whose text keeps neither letter, blanks, leading zeros nor build text. -/
def secondBeta : Version := { major := 1, minor := 2, patch := 0, pre := some "beta.2" }

def secondBetaText : String := "\tv1.02-beta.2+build.7 "

theorem second_beta_reads_back :
    ofText? secondBetaText = some secondBeta ∧
      (∃ s : Spelling, s.Spells secondBetaText ∧ s.version = secondBeta) ∧
      ofText? secondBeta.toText = some secondBeta ∧
      Scalar.ofJson? (.object [("version", .string secondBetaText)]) = some (.version secondBeta) ∧
      Scalar.ofJson? (Scalar.version secondBeta).toJson = some (.version secondBeta) := by
  have hread : ofText? secondBetaText = some secondBeta := by decide
  have hjson : Scalar.ofJson? (.object [("version", .string secondBetaText)]) =
      some (.version secondBeta) := by decide
  obtain ⟨hspelled, -, hback, hsnapshot⟩ := reads_its_grammar secondBetaText secondBeta
  obtain ⟨s, hspells, hversion, -⟩ := hspelled.mp hread
  exact ⟨hread, ⟨s, hspells, hversion⟩, hback hread, hjson, hsnapshot _ hjson⟩

end Version

end FeatureFlags
