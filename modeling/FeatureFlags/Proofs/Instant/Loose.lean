import FeatureFlags.Instant.Loose
import FeatureFlags.Proofs.Instant.ReadBack

/-!
# Loose texts of instants, read

- `Instant.inRange_of_ofLooseText?`: whatever text an instant is read from loosely, only the last
  second of a minute is a leap second, and the instant is in range.
- `Instant.ofLooseText?_of_ofText?`: where a text is one of RFC 3339, both ways of reading agree. So
  they agree on whatever is written (`Instant.ofLooseText?_toText`).
-/

namespace FeatureFlags

namespace Instant

variable {cs rest : List Char}

/-! ## What is read -/

/-- Offsets are whole minutes. -/
theorem offset_of_readLooseOffset {offset : Int} (h : readLooseOffset cs = some (offset, rest)) :
    offset % 60 = 0 := by
  have hminutes : ∀ (sign : Int) (cs : List Char),
      readLooseOffset.readLooseHoursMinutes sign cs = some (offset, rest) → offset % 60 = 0 := by
    intro sign cs h
    simp only [readLooseOffset.readLooseHoursMinutes, Option.bind_eq_bind,
      Option.bind_eq_some_iff] at h
    obtain ⟨⟨hours, _⟩, -, ⟨minutes, _⟩, -, h⟩ := h
    split at h
    · cases h
      rw [show sign * ((hours : Int) * 3600 + minutes * 60) = sign * (hours * 60 + minutes) * 60 by
        ring]
      exact Int.mul_emod_left _ _
    · cases h
  unfold readLooseOffset at h
  split at h
  · cases h
    rfl
  · cases h
    rfl
  · exact hminutes _ _ h
  · exact hminutes _ _ h
  · exact hminutes _ _ h
  · split at h
    · cases h
      rfl
    · cases h
  · cases h

/-- **Whatever text an instant is read from loosely, it is in range**, and only the last second of a
minute is a leap second. -/
theorem inRange_of_ofLooseText? {text : String} {t : Instant} (h : ofLooseText? text = some t) :
    t.InRange := by
  simp only [ofLooseText?, Option.bind_eq_bind, Option.bind_eq_some_iff] at h
  obtain ⟨⟨date, _⟩, -, _, -, ⟨hour, _⟩, -, _, -, ⟨minute, _⟩, -, _, -, ⟨second, _⟩, -,
    ⟨nanos, _⟩, hfraction, ⟨offset, _⟩, hoffset, h⟩ := h
  have hnanos := nanos_lt_of_readFraction hfraction
  have hminutes := offset_of_readLooseOffset hoffset
  simp only [Option.ite_none_right_eq_some] at h
  obtain ⟨-, hrange, h⟩ := h
  cases h
  refine ⟨?_, hrange.1, hrange.2⟩
  unfold daySeconds
  by_cases hleap : second = 60
  · refine ⟨?_, fun _ => ?_⟩ <;> simp only [hleap, ↓reduceIte] <;> omega
  · refine ⟨?_, fun hlarge => ?_⟩
    · simp only [hleap, ↓reduceIte]
      omega
    · simp only [hleap, ↓reduceIte] at hlarge
      omega

/-! ## Texts of RFC 3339 -/

theorem isBlank_of_isDigit {c : Char} (h : c.isDigit = true) : Text.isBlank c = false := by
  have hrange : 48 ≤ c.toNat ∧ c.toNat ≤ 57 := Char.isDigit_iff_toNat.mp h
  simp only [Text.isBlank, Text.blankRanges, List.any_cons, List.any_nil, Bool.or_false,
    Bool.or_eq_false_iff, Bool.and_eq_false_iff, decide_eq_false_iff_not]
  omega

theorem skipBlanks_cons {c : Char} (h : Text.isBlank c = false) (rest : List Char) :
    skipBlanks (c :: rest) = c :: rest :=
  List.dropWhile_cons_of_neg (by rw [h]; decide)

/-- A run of digits begins with one of them. -/
theorem exists_digit_of_readDigits {width n : Nat} (hwidth : 0 < width)
    (h : readDigits width cs = some (n, rest)) : ∃ c tail, cs = c :: tail ∧ c.isDigit = true := by
  unfold readDigits at h
  dsimp only at h
  split at h
  · next hdigits =>
    cases cs with
    | nil =>
      have hzero : (([] : List Char).take width).length = 0 := by simp
      omega
    | cons c tail =>
      refine ⟨c, tail, rfl, List.all_eq_true.mp hdigits.2 c ?_⟩
      rw [List.take_cons hwidth]
      exact List.mem_cons_self
  · cases h

/-- As many digits as there may be are read whether or not there may be fewer. -/
theorem readNumber_of_readDigits {width n : Nat} (hwidth : 0 < width)
    (h : readDigits width cs = some (n, rest)) : readNumber width cs = some (n, rest) := by
  unfold readDigits at h
  dsimp only at h
  split at h
  · next hdigits =>
    obtain ⟨hlength, hall⟩ := hdigits
    cases h
    have hrun : (cs.take width).takeWhile Char.isDigit = cs.take width :=
      List.takeWhile_eq_self_iff.mpr (List.all_eq_true.mp hall)
    have hne : cs.take width ≠ [] := List.ne_nil_of_length_pos (by omega)
    rw [readNumber, hrun, if_neg hne, hlength]
  · cases h

theorem skipBlanks_of_readDigits {width n : Nat} (hwidth : 0 < width)
    (h : readDigits width cs = some (n, rest)) : skipBlanks cs = cs := by
  obtain ⟨c, tail, rfl, hc⟩ := exists_digit_of_readDigits hwidth h
  exact skipBlanks_cons (isBlank_of_isDigit hc) tail

theorem readPart_of_readDigits {n : Nat} (h : readDigits 2 cs = some (n, rest)) :
    readPart cs = some (n, rest) := by
  rw [readPart, skipBlanks_of_readDigits (by decide) h]
  exact readNumber_of_readDigits (by decide) h

theorem readChar_eq_some_iff {c d : Char} {tail : List Char} :
    readChar c (d :: tail) = some rest ↔ d = c ∧ tail = rest := by
  rw [readChar, Option.ite_none_right_eq_some, Option.some.injEq]

theorem readMark_of_readChar {c : Char} (hc : Text.isBlank c = false)
    (h : readChar c cs = some rest) : readMark c cs = some rest := by
  cases cs with
  | nil => cases h
  | cons d tail =>
    obtain ⟨rfl, rfl⟩ := readChar_eq_some_iff.mp h
    rw [readMark, skipBlanks_cons hc, readChar_cons]

theorem readLooseYear_of_readDigits {year : Nat} (h : readDigits 4 cs = some (year, rest)) :
    readLooseYear cs = some ((year : Int), rest) := by
  obtain ⟨c, tail, rfl, hc⟩ := exists_digit_of_readDigits (by decide) h
  rw [readLooseYear, skipBlanks_cons (isBlank_of_isDigit hc)]
  -- a digit is no sign
  split
  · next heq =>
    cases heq
    cases hc
  · next heq =>
    cases heq
    cases hc
  · rw [readNumber_of_readDigits (by decide) h, Option.map_some]

theorem readLooseDate_of_readDate {date : CivilDate} (h : readDate cs = some (date, rest)) :
    readLooseDate cs = some (date, rest) := by
  simp only [readDate, Option.bind_eq_bind, Option.bind_eq_some_iff] at h
  obtain ⟨⟨year, _⟩, hyear, _, hmark, ⟨month, _⟩, hmonth, _, hmark', ⟨day, _⟩, hday, h⟩ := h
  have hfour : (year : Int) < 10000 := by
    have hlt := lt_of_readDigits hyear
    omega
  have hrange : isYearInRange year = true := by
    rw [isYearInRange, Bool.and_eq_true, decide_eq_true_eq, decide_eq_true_eq]
    omega
  simp only [readLooseDate, Option.bind_eq_bind, Option.bind_eq_some_iff]
  refine ⟨_, readLooseYear_of_readDigits hyear, _, readMark_of_readChar (by decide) hmark,
    _, readPart_of_readDigits hmonth, _, readMark_of_readChar (by decide) hmark',
    _, readPart_of_readDigits hday, ?_⟩
  rw [hrange, Bool.and_true]
  exact h

theorem readLooseOffset_of_readOffset {offset : Int} (h : readOffset cs = some (offset, rest)) :
    readLooseOffset (skipBlanks cs) = some (offset, rest) := by
  have hminutes : ∀ (sign : Int) (cs : List Char),
      readOffset.readHoursMinutes sign cs = some (offset, rest) →
        readLooseOffset.readLooseHoursMinutes sign cs = some (offset, rest) := by
    intro sign cs h
    simp only [readOffset.readHoursMinutes, Option.bind_eq_bind, Option.bind_eq_some_iff] at h
    obtain ⟨⟨hours, tail⟩, hhours, tail', hmark, ⟨minutes, _⟩, hminutes, h⟩ := h
    -- the colon is passed over, and no more than that
    have hskip : tail.dropWhile isOffsetMark = tail' := by
      obtain ⟨c, tail'', rfl, hc⟩ := exists_digit_of_readDigits (by decide) hminutes
      cases tail with
      | nil => cases hmark
      | cons d rest' =>
        have hcolon : ∀ {c : Char}, c.isDigit = true → isOffsetMark c = false := by
          intro c hc
          rw [isOffsetMark, isBlank_of_isDigit hc, Bool.or_false, decide_eq_false_iff_not]
          rintro rfl
          cases hc
        obtain ⟨rfl, rfl⟩ := readChar_eq_some_iff.mp hmark
        rw [List.dropWhile_cons_of_pos (by decide),
          List.dropWhile_cons_of_neg (by rw [hcolon hc]; decide)]
    simp only [readLooseOffset.readLooseHoursMinutes, Option.bind_eq_bind, Option.bind_eq_some_iff]
    exact ⟨_, hhours, _, hskip ▸ hminutes, h⟩
  unfold readOffset at h
  split at h
  · rw [skipBlanks_cons (by decide)]
    exact h
  · rw [skipBlanks_cons (by decide)]
    exact h
  · rw [skipBlanks_cons (by decide)]
    exact hminutes _ _ h
  · rw [skipBlanks_cons (by decide)]
    exact hminutes _ _ h
  · rw [skipBlanks_cons (by decide)]
    exact hminutes _ _ h
  · cases h

/-- **A text of RFC 3339 is read loosely as it is read strictly.** -/
theorem ofLooseText?_of_ofText? {text : String} {t : Instant} (h : ofText? text = some t) :
    ofLooseText? text = some t := by
  have hrange := inRange_of_ofText? h
  simp only [ofText?, Option.bind_eq_bind, Option.bind_eq_some_iff] at h
  obtain ⟨⟨date, _⟩, hdate, _, hseparator, ⟨hour, _⟩, hhour, _, hmark, ⟨minute, _⟩, hminute, _,
    hmark', ⟨second, _⟩, hsecond, ⟨nanos, _⟩, hfraction, ⟨offset, _⟩, hoffset, h⟩ := h
  simp only [ofLooseText?, Option.bind_eq_bind, Option.bind_eq_some_iff]
  refine ⟨_, readLooseDate_of_readDate hdate, _, hseparator, _, readPart_of_readDigits hhour,
    _, readMark_of_readChar (by decide) hmark, _, readPart_of_readDigits hminute,
    _, readMark_of_readChar (by decide) hmark', _, readPart_of_readDigits hsecond, _, hfraction,
    _, readLooseOffset_of_readOffset hoffset, ?_⟩
  split at h
  · next hvalid =>
    obtain ⟨hhour, hminute, hsecond, rfl⟩ := hvalid
    cases h
    rw [if_pos ⟨hhour, hminute, hsecond, rfl⟩]
    exact if_pos ⟨hrange.least, hrange.greatest⟩
  · cases h

/-- Other texts are read loosely only. -/
example : ofText? "2024-3-1 5 :29: 09 utc" = none ∧
    ofLooseText? "2024-3-1 5 :29: 09 utc" = some { seconds := 1709270949, nanos := 0 } := by
  decide +kernel

/-- The text of an instant is read as the instant. -/
theorem ofLooseText?_toText {t : Instant} (h : t.WellFormed) (hlow : 0 ≤ t.year)
    (hhigh : t.year ≤ 9999) : ofLooseText? t.toText = some t :=
  ofLooseText?_of_ofText? (ofText?_toText h hlow hhigh)

end Instant

end FeatureFlags
