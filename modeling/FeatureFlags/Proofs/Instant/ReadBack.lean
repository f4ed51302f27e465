import FeatureFlags.Instant.Text
import FeatureFlags.Proofs.Instant.Calendar
import Mathlib.Data.List.Induction
import Mathlib.Data.List.TakeWhile
import Mathlib.Tactic.Ring

/-!
# Instants read back

`Instant.ofText?_toText`: the text of an instant is read as the instant, if its year has four digits
and nothing but the last second of a minute is a leap second (`Instant.WellFormed`). Whatever is
read is of that kind, whatever offset it was written with: `Instant.wellFormed_of_ofText?`. It is
in the range of the calendar too (`Instant.InRange`), as is what a number is read as.
-/

namespace FeatureFlags

namespace Text.Digits

variable {width n : Nat} {cs : List Char}

/-- A run of digits stands for a number of at most so many digits. -/
theorem value_lt (h : ∀ c ∈ cs, c.isDigit = true) : value cs < 10 ^ cs.length := by
  induction cs using List.reverseRecOn with
  | nil => decide
  | append_singleton cs c ih =>
    rw [List.forall_mem_append, List.forall_mem_singleton] at h
    obtain ⟨hcs, hc⟩ := h
    have hdigit : c.toNat - '0'.toNat ≤ 9 :=
      Nat.sub_le_sub_right (Char.isDigit_iff_toNat.mp hc).2 _
    have hvalue : value (cs ++ [c]) = 10 * value cs + (c.toNat - '0'.toNat) := by
      rw [value, Nat.ofDigitChars_append]
      rfl
    have hlt := ih hcs
    rw [hvalue, List.length_append, List.length_singleton, Nat.pow_succ]
    omega

theorem length_padded (hwidth : 0 < width) (h : n < 10 ^ width) :
    (padded width n).length = width := by
  have hle : (encode n).length ≤ width := (Nat.length_toDigits_le_iff (by decide) hwidth).mpr h
  rw [padded, List.length_append, List.length_replicate]
  omega

theorem isDigit_of_mem_padded {c : Char} (h : c ∈ padded width n) : c.isDigit = true := by
  rw [padded, List.mem_append] at h
  obtain h | h := h
  · rw [List.eq_of_mem_replicate h]
    rfl
  · exact isDigit_of_mem_encode h

theorem value_padded (width n : Nat) : value (padded width n) = n := by
  rw [padded, value, Nat.ofDigitChars_append, Nat.ofDigitChars_replicate_zero]
  exact value_encode n

end Text.Digits

namespace Instant

open Text.Digits

/-! ## What is read -/

/-- A leap second is the last second of a minute. -/
structure WellFormed (t : Instant) : Prop where
  nanos_lt : t.nanos < 2000000000
  leap : 1000000000 ≤ t.nanos → t.seconds % 60 = 59

/-- The year in UTC. -/
def year (t : Instant) : Int := (CivilDate.ofDays (t.seconds / daySeconds)).year

variable {cs rest : List Char}

theorem nanos_lt_of_readFraction {nanos : Nat} (h : readFraction cs = some (nanos, rest)) :
    nanos < 1000000000 := by
  unfold readFraction at h
  split at h
  · next tail =>
    dsimp only at h
    split at h
    · cases h
    · cases h
      generalize hcounted : (tail.takeWhile Char.isDigit).take 9 = counted
      have hlength : counted.length ≤ 9 := by
        rw [← hcounted]
        exact List.length_take_le _ _
      have hvalue : value counted < 10 ^ counted.length := value_lt fun c hc => by
        rw [← hcounted] at hc
        exact List.mem_takeWhile_imp (List.mem_of_mem_take hc)
      have hpower : 10 ^ counted.length * Nat.pow 10 (9 - counted.length) = 1000000000 := by
        rw [Nat.pow_eq, ← Nat.pow_add, Nat.add_sub_cancel' hlength]
      rw [← hpower]
      exact Nat.mul_lt_mul_of_pos_right hvalue (Nat.pow_pos (by decide))
  · cases h
    decide

/-- Offsets are whole minutes. -/
theorem offset_of_readOffset {offset : Int} (h : readOffset cs = some (offset, rest)) :
    offset % 60 = 0 := by
  have hminutes : ∀ (sign : Int) (cs : List Char),
      readOffset.readHoursMinutes sign cs = some (offset, rest) → offset % 60 = 0 := by
    intro sign cs h
    simp only [readOffset.readHoursMinutes, Option.bind_eq_bind, Option.bind_eq_some_iff] at h
    obtain ⟨⟨hours, _⟩, -, _, -, ⟨minutes, _⟩, -, h⟩ := h
    split at h
    · cases h
      rw [show sign * ((hours : Int) * 3600 + minutes * 60) = sign * (hours * 60 + minutes) * 60 by
        ring]
      exact Int.mul_emod_left _ _
    · cases h
  unfold readOffset at h
  split at h
  · cases h
    rfl
  · cases h
    rfl
  · exact hminutes _ _ h
  · exact hminutes _ _ h
  · exact hminutes _ _ h
  · cases h

/-- **Whatever text an instant is read from, only the last second of a minute is a leap second.** -/
theorem wellFormed_of_ofText? {text : String} {t : Instant} (h : ofText? text = some t) :
    t.WellFormed := by
  simp only [ofText?, Option.bind_eq_bind, Option.bind_eq_some_iff] at h
  obtain ⟨⟨date, _⟩, -, _, -, ⟨hour, _⟩, -, _, -, ⟨minute, _⟩, -, _, -, ⟨second, _⟩, -,
    ⟨nanos, _⟩, hfraction, ⟨offset, _⟩, hoffset, h⟩ := h
  have hnanos := nanos_lt_of_readFraction hfraction
  have hminutes := offset_of_readOffset hoffset
  split at h
  · cases h
    unfold daySeconds
    by_cases hleap : second = 60
    · refine ⟨?_, fun _ => ?_⟩ <;> simp only [hleap, ↓reduceIte] <;> omega
    · refine ⟨?_, fun hlarge => ?_⟩
      · simp only [hleap, ↓reduceIte]
        omega
      · simp only [hleap, ↓reduceIte] at hlarge
        omega
  · cases h

/-- The second is one that an instant made from a number may have. -/
structure InRange (t : Instant) : Prop extends t.WellFormed where
  least : leastSeconds ≤ t.seconds
  greatest : t.seconds ≤ greatestSeconds

theorem lt_of_readDigits {width n : Nat} (h : readDigits width cs = some (n, rest)) :
    n < 10 ^ width := by
  unfold readDigits at h
  dsimp only at h
  split at h
  · next hdigits =>
    cases h
    have hlt : value (cs.take width) < 10 ^ (cs.take width).length :=
      value_lt (List.all_eq_true.mp hdigits.2)
    rwa [hdigits.1] at hlt
  · cases h

theorem toDays_bounds {date : CivilDate} (hyear : 0 ≤ date.year) (hyear' : date.year < 10000)
    (hday : date.day < 100) : -1000000 < date.toDays ∧ date.toDays < 4000000 := by
  unfold CivilDate.toDays
  dsimp only
  split <;> omega

/-- Offsets are of less than a day. -/
theorem offset_bounds_of_readOffset {offset : Int} (h : readOffset cs = some (offset, rest)) :
    -daySeconds < offset ∧ offset < daySeconds := by
  have hminutes : ∀ (sign : Int) (cs : List Char), sign = 1 ∨ sign = -1 →
      readOffset.readHoursMinutes sign cs = some (offset, rest) →
        -daySeconds < offset ∧ offset < daySeconds := by
    intro sign cs hsign h
    simp only [readOffset.readHoursMinutes, Option.bind_eq_bind, Option.bind_eq_some_iff] at h
    obtain ⟨⟨hours, _⟩, -, _, -, ⟨minutes, _⟩, -, h⟩ := h
    split at h
    · cases h
      unfold daySeconds
      rcases hsign with rfl | rfl <;> omega
    · cases h
  unfold readOffset at h
  split at h
  · cases h
    decide
  · cases h
    decide
  · exact hminutes _ _ (.inl rfl) h
  · exact hminutes _ _ (.inr rfl) h
  · exact hminutes _ _ (.inr rfl) h
  · cases h

theorem inRange_of_ofText? {text : String} {t : Instant} (h : ofText? text = some t) :
    t.InRange := by
  have hwellFormed := wellFormed_of_ofText? h
  simp only [ofText?, Option.bind_eq_bind, Option.bind_eq_some_iff] at h
  obtain ⟨⟨date, _⟩, hdate, _, -, ⟨hour, _⟩, -, _, -, ⟨minute, _⟩, -, _, -, ⟨second, _⟩, -,
    ⟨nanos, _⟩, -, ⟨offset, _⟩, hoffset, h⟩ := h
  simp only [readDate, Option.bind_eq_bind, Option.bind_eq_some_iff] at hdate
  obtain ⟨⟨year, _⟩, hyear, _, -, ⟨month, _⟩, -, _, -, ⟨day, _⟩, hday, hdate⟩ := hdate
  have hoffset := offset_bounds_of_readOffset hoffset
  have hyear := lt_of_readDigits hyear
  have hday := lt_of_readDigits hday
  -- four digits of a year do not come near the bounds
  have hleast : leastSeconds < -1000002 * daySeconds := by decide
  have hgreatest : 4000002 * daySeconds < greatestSeconds := by decide
  split at hdate
  · cases hdate
    have hdays : -1000000 < ({ year, month, day } : CivilDate).toDays ∧
        ({ year, month, day } : CivilDate).toDays < 4000000 :=
      toDays_bounds (Int.natCast_nonneg year) (by dsimp only; omega) hday
    split at h
    · cases h
      unfold daySeconds at *
      refine ⟨hwellFormed, ?_, ?_⟩
      · dsimp only
        omega
      · dsimp only
        omega
    · cases h
  · cases hdate

theorem inRange_of_ofMillis? {millis : Int} {t : Instant} (h : ofMillis? millis = some t) :
    t.InRange := by
  unfold ofMillis? at h
  dsimp only at h
  split at h
  · next hrange =>
    cases h
    refine ⟨⟨?_, ?_⟩, hrange.1, hrange.2⟩
    · dsimp only
      omega
    · dsimp only
      omega
  · cases h

/-! ## What is written -/

theorem readDigits_padded {width n : Nat} (hwidth : 0 < width) (h : n < 10 ^ width)
    (rest : List Char) : readDigits width (padded width n ++ rest) = some (n, rest) := by
  have hlength : (padded width n).length = width := length_padded hwidth h
  have hall : (padded width n).all Char.isDigit = true :=
    List.all_eq_true.mpr fun _ hc => isDigit_of_mem_padded hc
  rw [readDigits, List.take_left' hlength, List.drop_left' hlength]
  simp only [hlength, hall, value_padded]
  rfl

theorem readFraction_padded {width n : Nat} (hwidth : 0 < width) (hle : width ≤ 9)
    (h : n < 10 ^ width) :
    readFraction ('.' :: padded width n ++ ['Z']) = some (n * 10 ^ (9 - width), ['Z']) := by
  have hlength : (padded width n).length = width := length_padded hwidth h
  have htake : (padded width n ++ ['Z']).takeWhile Char.isDigit = padded width n := by
    rw [List.takeWhile_append_of_pos fun _ hc => isDigit_of_mem_padded hc]
    exact List.append_nil _
  have hdrop : (padded width n ++ ['Z']).dropWhile Char.isDigit = ['Z'] := by
    rw [List.dropWhile_append_of_pos fun _ hc => isDigit_of_mem_padded hc]
    rfl
  have hne : padded width n ≠ [] := List.ne_nil_of_length_pos (by omega)
  have hcounted : (padded width n).take 9 = padded width n := List.take_of_length_le (by omega)
  rw [List.cons_append, readFraction]
  simp only [htake, hdrop, hcounted, hlength, value_padded]
  exact if_neg hne

theorem readFraction_renderFraction {nanos : Nat} (h : nanos < 1000000000) :
    readFraction (renderFraction nanos ++ ['Z']) = some (nanos, ['Z']) := by
  unfold renderFraction
  split
  · next hzero =>
    subst hzero
    rfl
  · split
    · rw [readFraction_padded (by decide) (by decide) (by omega)]
      congr 2
      omega
    · split
      · rw [readFraction_padded (by decide) (by decide) (by omega)]
        congr 2
        omega
      · rw [readFraction_padded (by decide) (by decide) (by omega)]
        congr 2
        omega

theorem readChar_cons (c : Char) (rest : List Char) : readChar c (c :: rest) = some rest :=
  if_pos rfl

theorem lt_of_isValid {date : CivilDate} (h : date.isValid = true) :
    date.month < 10 ^ 2 ∧ date.day < 10 ^ 2 := by
  simp only [CivilDate.isValid, Bool.and_eq_true, decide_eq_true_eq] at h
  have hdays : CivilDate.daysInMonth date.year date.month ≤ 31 := by
    unfold CivilDate.daysInMonth
    split
    · split <;> decide
    all_goals decide
  omega

theorem readDate_render {date : CivilDate} (hvalid : date.isValid = true) (hlow : 0 ≤ date.year)
    (hhigh : date.year ≤ 9999) (rest : List Char) :
    readDate (renderYear date.year ++ '-' :: (padded 2 date.month ++
      '-' :: (padded 2 date.day ++ rest))) = some (date, rest) := by
  obtain ⟨year, month, day⟩ := date
  obtain ⟨n, rfl⟩ := Int.eq_ofNat_of_zero_le hlow
  have hyear : n < 10 ^ 4 := by
    dsimp only at hhigh
    omega
  obtain ⟨hmonth, hday⟩ := lt_of_isValid hvalid
  rw [renderYear, if_pos ⟨hlow, hhigh⟩]
  simp only [readDate, Option.bind_eq_bind, Int.toNat_natCast, Option.bind_some, readChar_cons,
    readDigits_padded (show 0 < 4 by decide) hyear, readDigits_padded (show 0 < 2 by decide) hmonth,
    readDigits_padded (show 0 < 2 by decide) hday]
  exact if_pos hvalid

/-- The parts of an instant's text, read one after the other. -/
theorem ofText?_eq {date : CivilDate} {hour minute second nanos : Nat}
    (hvalid : date.isValid = true) (hlow : 0 ≤ date.year) (hhigh : date.year ≤ 9999)
    (hhour : hour < 24) (hminute : minute < 60) (hsecond : second ≤ 60)
    (hnanos : nanos < 1000000000) :
    ofText? (String.ofList (renderYear date.year ++ '-' :: (padded 2 date.month ++
      '-' :: (padded 2 date.day ++ 'T' :: (padded 2 hour ++ ':' :: (padded 2 minute ++
        ':' :: (padded 2 second ++ (renderFraction nanos ++ ['Z'])))))))) =
      some
        { seconds := date.toDays * daySeconds +
            (hour * 3600 + minute * 60 + (second - if second = 60 then 1 else 0 : Nat))
          nanos := nanos + (if second = 60 then 1 else 0) * 1000000000 } := by
  have htwo : ∀ {n : Nat}, n ≤ 60 → ∀ rest, readDigits 2 (padded 2 n ++ rest) = some (n, rest) :=
    fun h rest => readDigits_padded (by decide) (by omega) rest
  rw [ofText?, String.toList_ofList, readDate_render hvalid hlow hhigh]
  simp only [Option.bind_eq_bind, Option.bind_some, readSeparator, readChar_cons,
    htwo (show hour ≤ 60 by omega), htwo (show minute ≤ 60 by omega), htwo hsecond,
    readFraction_renderFraction hnanos, readOffset]
  rw [if_pos ⟨hhour, hminute, hsecond, trivial⟩]
  simp

/-- **The text of an instant is read as the instant.** -/
theorem ofText?_toText {t : Instant} (h : t.WellFormed) (hlow : 0 ≤ t.year)
    (hhigh : t.year ≤ 9999) : ofText? t.toText = some t := by
  obtain ⟨seconds, nanos⟩ := t
  obtain ⟨hnanos, hleap⟩ := h
  dsimp only at hnanos hleap
  have hvalid := CivilDate.isValid_ofDays (seconds / daySeconds)
  have hdays := CivilDate.toDays_ofDays (seconds / daySeconds)
  rw [toText, renderLocal]
  dsimp only
  generalize hofDay : (seconds % daySeconds).toNat = ofDay
  generalize hdefault : (if 1000000000 ≤ nanos then 1 else 0) = leap
  have hsplit : seconds / daySeconds * daySeconds + ofDay = seconds := by
    unfold daySeconds at hofDay ⊢
    omega
  have hday : ofDay < 86400 := by
    unfold daySeconds at hofDay
    omega
  -- a leap second is written behind second 59, so it is the one that is read as second 60
  have hcarry : leap ≤ 1 ∧ nanos - leap * 1000000000 < 1000000000 ∧
      nanos - leap * 1000000000 + leap * 1000000000 = nanos := by
    split at hdefault <;> omega
  have hsecond : (if ofDay % 60 + leap = 60 then 1 else 0) = leap := by
    unfold daySeconds at hsplit
    split at hdefault <;> split <;> omega
  obtain ⟨hleap, hfraction, hwhole⟩ := hcarry
  have hread := ofText?_eq hvalid hlow hhigh (show ofDay / 3600 < 24 by omega)
    (show ofDay / 60 % 60 < 60 by omega) (show ofDay % 60 + leap ≤ 60 by omega) hfraction
  rw [hsecond, hdays, hwhole] at hread
  simp only [List.append_assoc, List.cons_append]
  rw [hread]
  congr 2
  omega

end Instant

end FeatureFlags
