import FeatureFlags.Json.Reader
import FeatureFlags.Json.Writer
import FeatureFlags.Proofs.Decimal.Shortest

/-!
# Numbers read back

`JsonNumber.readNumber_render`: behind the text of a number stands that number, if the text that
follows cannot go on with it.

What is written is a sign and a numeral (`Json.Numeral`), which is read as it was put together
(`Json.Numeral.readUnsigned_text`). In every layout the numeral of a double has the value of the
shortest decimal that reads back, and so it rounds to the double (`Json.exists_numeral_double`).
-/

namespace FeatureFlags

namespace Json

open Text (Decoded)

/-! ## What follows -/

/-- The next character, if there is one, is not of the kind. -/
def StopsAt (kind : Char → Bool) (rest : Decoded) : Prop :=
  ∀ c tail, rest = some c :: tail → kind c = false

/-- The characters that can go on with a number. -/
def continuesNumber (c : Char) : Bool := c.isDigit || c = '.' || c = 'e' || c = 'E'

/-- The characters that can go on with the digits of a number. -/
def continuesFraction (c : Char) : Bool := c.isDigit || c = '.'

variable {kind kind' : Char → Bool} {rest : Decoded}

theorem stopsAt_nil (kind : Char → Bool) : StopsAt kind [] := by
  intro c tail h
  cases h

theorem stopsAt_cons {c : Char} (h : kind c = false) (rest : Decoded) :
    StopsAt kind (some c :: rest) := by
  intro c' tail heq
  cases heq
  exact h

theorem StopsAt.mono (h : StopsAt kind rest) (hle : ∀ c, kind c = false → kind' c = false) :
    StopsAt kind' rest :=
  fun c tail heq => hle c (h c tail heq)

theorem readDigits_append {digits : List Char} (hdigits : ∀ c ∈ digits, c.isDigit = true)
    (hrest : StopsAt Char.isDigit rest) :
    readDigits (digits.map some ++ rest) = (digits, rest) := by
  induction digits with
  | nil =>
    cases rest with
    | nil => rfl
    | cons head tail =>
      cases head with
      | none => rfl
      | some c => simp [readDigits, hrest c tail rfl]
  | cons c digits ih =>
    obtain ⟨hc, hdigits⟩ := List.forall_mem_cons.mp hdigits
    simp [readDigits, hc, ih hdigits]

/-! ## Numerals -/

/-- An unsigned number as it is written. -/
structure Numeral where
  /-- The digits before the point. -/
  whole : List Char
  /-- The digits behind the point, if there is one. -/
  fraction : Option (List Char)
  /-- The exponent, if there is one. -/
  exponent : Option Int
  whole_ne_nil : whole ≠ []
  isDigit_whole : ∀ c ∈ whole, c.isDigit = true
  /-- A zero in front stands alone. -/
  lead : whole.head? = some '0' → whole.length = 1
  fraction_ne_nil : fraction ≠ some []
  isDigit_fraction : ∀ c ∈ fraction.getD [], c.isDigit = true

namespace Numeral

def fractionText : Option (List Char) → List Char
  | none => []
  | some digits => '.' :: digits

def exponentText : Option Int → List Char
  | none => []
  | some e => 'e' :: (if e < 0 then '-' else '+') :: Nat.toDigits 10 e.natAbs

/-- The characters of the numeral. -/
def text (x : Numeral) : List Char :=
  x.whole ++ (fractionText x.fraction ++ exponentText x.exponent)

/-- All digits before the exponent, as one number. -/
def digits (x : Numeral) : Nat := Nat.ofDigitChars 10 (x.whole ++ x.fraction.getD []) 0

/-- The power of ten that the last of the digits counts. -/
def power (x : Numeral) : Int := x.exponent.getD 0 - (x.fraction.getD []).length

theorem isDigit_toDigits (n : Nat) : ∀ c ∈ Nat.toDigits 10 n, c.isDigit = true :=
  fun _ h => Nat.isDigit_of_mem_toDigits (by decide) (by decide) h

theorem readExponent_of_stopsAt (hrest : StopsAt continuesNumber rest) :
    readExponent rest = some (none, rest) := by
  unfold readExponent
  dsimp only
  split
  all_goals first
    | rfl
    | exact absurd (hrest _ _ rfl) (by decide)

theorem readExponent_text (exponent : Option Int) (hrest : StopsAt continuesNumber rest) :
    readExponent ((exponentText exponent).map some ++ rest) = some (exponent, rest) := by
  cases exponent with
  | none => exact readExponent_of_stopsAt hrest
  | some e =>
    have hends : StopsAt Char.isDigit rest := hrest.mono fun c h => by
      simp only [continuesNumber, Bool.or_eq_false_iff] at h
      exact h.1.1.1
    have hdigits := readDigits_append (isDigit_toDigits e.natAbs) hends
    have hne : Nat.toDigits 10 e.natAbs ≠ [] := Nat.toDigits_ne_nil
    have hvalue : Nat.ofDigitChars 10 (Nat.toDigits 10 e.natAbs) 0 = e.natAbs :=
      Nat.ofDigitChars_ten_toDigits
    by_cases hneg : e < 0
    · rw [exponentText, if_pos hneg]
      simp [readExponent, hdigits, hne, hvalue, abs_of_neg hneg]
    · rw [exponentText, if_neg hneg]
      simp [readExponent, hdigits, hne, hvalue, abs_of_nonneg (not_lt.mp hneg)]

/-- Behind the digits of a number comes no digit and no second point. -/
theorem stopsAt_exponentText (exponent : Option Int) (hrest : StopsAt continuesNumber rest) :
    StopsAt continuesFraction ((exponentText exponent).map some ++ rest) := by
  cases exponent with
  | none =>
    refine hrest.mono fun c h => ?_
    simp only [continuesNumber, Bool.or_eq_false_iff] at h
    exact Bool.or_eq_false_iff.mpr h.1.1
  | some e => exact stopsAt_cons (by decide) _

theorem readFraction_of_stopsAt (hrest : StopsAt continuesFraction rest) :
    readFraction rest = some (none, rest) := by
  unfold readFraction
  split
  · exact absurd (hrest _ _ rfl) (by decide)
  · rfl

theorem readFraction_text {fraction : Option (List Char)} (hne : fraction ≠ some [])
    (hdigits : ∀ c ∈ fraction.getD [], c.isDigit = true) (hrest : StopsAt continuesFraction rest) :
    readFraction ((fractionText fraction).map some ++ rest) = some (fraction, rest) := by
  cases fraction with
  | none => exact readFraction_of_stopsAt hrest
  | some digits =>
    have hends : StopsAt Char.isDigit rest :=
      hrest.mono fun c h => (Bool.or_eq_false_iff.mp h).1
    have hread := readDigits_append hdigits hends
    rw [Option.getD_some] at hread
    have hne : digits ≠ [] := fun h => hne (congrArg some h)
    simp [fractionText, readFraction, hread, hne]

/-- A numeral is read as it was put together. -/
theorem readUnsigned_text (x : Numeral) (negative : Bool) (hrest : StopsAt continuesNumber rest) :
    readUnsigned negative (x.text.map some ++ rest) =
      some (numberOf negative x.whole x.fraction x.exponent, rest) := by
  have hexponent := stopsAt_exponentText x.exponent hrest
  have hwhole : StopsAt Char.isDigit
      ((fractionText x.fraction).map some ++ ((exponentText x.exponent).map some ++ rest)) := by
    cases x.fraction with
    | none => exact hexponent.mono fun c h => (Bool.or_eq_false_iff.mp h).1
    | some digits => exact stopsAt_cons (by decide) _
  have hlead : ¬ (x.whole = [] ∨ (x.whole.head? = some '0' ∧ 1 < x.whole.length)) := by
    rintro (hnil | ⟨hzero, hlong⟩)
    · exact x.whole_ne_nil hnil
    · rw [x.lead hzero] at hlong
      exact absurd hlong (by decide)
  rw [text, List.map_append, List.map_append, List.append_assoc, List.append_assoc, readUnsigned,
    readDigits_append x.isDigit_whole hwhole]
  dsimp only
  rw [if_neg hlead, readFraction_text x.fraction_ne_nil x.isDigit_fraction hexponent,
    Option.bind_eq_bind, Option.bind_some, readExponent_text x.exponent hrest]
  rfl

/-! ## Numerals of doubles -/

/-- A numeral that is read as a double. -/
def IsDouble (x : Numeral) : Prop := x.fraction ≠ none ∨ x.exponent ≠ none

theorem numberOf_of_isDouble {x : Numeral} (h : x.IsDouble) (negative : Bool)
    (hfinite : (Double.ofDecimal negative x.digits x.power).isFinite = true) :
    numberOf negative x.whole x.fraction x.exponent =
      .number (.double (Double.ofDecimal negative x.digits x.power)) := by
  unfold numberOf
  dsimp only
  split
  · next hfraction hexponent => exact absurd hexponent (h.resolve_left fun hne => hne hfraction)
  · exact if_pos hfinite

/-- The value of the numeral, as a rational. -/
def value (x : Numeral) : ℚ := x.digits * 10 ^ x.power

section Layouts

variable {digits : List Char} {exponent : Int}

/-- The numeral is read as the double next to the decimal with the digits and the exponent. -/
def Writes (x : Numeral) (digits : List Char) (exponent : Int) : Prop :=
  x.IsDouble ∧ x.value = (Nat.ofDigitChars 10 digits 0 : Nat) * 10 ^ exponent

/-- A text with a point and without an exponent is a numeral. -/
theorem exists_pointed (whole fraction : List Char) (hwhole : whole ≠ [])
    (hfraction : fraction ≠ [])
    (hdigits : ∀ c ∈ whole ++ fraction, c.isDigit = true)
    (hlead : whole.head? = some '0' → whole.length = 1)
    (hvalue : ((Nat.ofDigitChars 10 (whole ++ fraction) 0 : Nat) : ℚ) *
      10 ^ (-(fraction.length : Int)) = (Nat.ofDigitChars 10 digits 0 : Nat) * 10 ^ exponent) :
    ∃ x : Numeral, x.text = whole ++ '.' :: fraction ∧ x.Writes digits exponent := by
  obtain ⟨hwholeDigits, hfractionDigits⟩ := List.forall_mem_append.mp hdigits
  refine ⟨{ whole := whole, fraction := some fraction, exponent := none
            whole_ne_nil := hwhole, isDigit_whole := hwholeDigits, lead := hlead
            fraction_ne_nil := fun h => hfraction (Option.some.inj h)
            isDigit_fraction := hfractionDigits }, ?_, .inl (Option.some_ne_none fraction), ?_⟩
  · simp [text, fractionText, exponentText]
  · rw [← hvalue, value, power, Option.getD_none, zero_sub]
    rfl

theorem isDigit_of_mem_replicate_zero (n : Nat) :
    ∀ c ∈ List.replicate n '0', c.isDigit = true := by
  intro c hc
  rw [List.eq_of_mem_replicate hc]
  rfl

/-- The digits end left of the point. -/
theorem exists_whole (n : Nat) (hne : digits ≠ []) (hdigits : ∀ c ∈ digits, c.isDigit = true)
    (hlead : digits.head? = some '0' → digits.length = 1 ∧ n = 0) :
    ∃ x : Numeral, x.text = digits ++ List.replicate n '0' ++ '.' :: ['0'] ∧
      x.Writes digits n := by
  refine exists_pointed _ _ (List.append_ne_nil_of_left_ne_nil hne _) (by decide)
    (List.forall_mem_append.mpr
      ⟨List.forall_mem_append.mpr ⟨hdigits, isDigit_of_mem_replicate_zero n⟩,
        List.forall_mem_singleton.mpr rfl⟩) ?_ ?_
  · intro hzero
    rw [List.head?_append_of_ne_nil _ hne] at hzero
    obtain ⟨hone, hn⟩ := hlead hzero
    rw [List.length_append, List.length_replicate, hone, hn]
  · have hsame : Nat.ofDigitChars 10 (digits ++ List.replicate n '0' ++ ['0']) 0 =
        10 * (10 ^ n * Nat.ofDigitChars 10 digits 0) := by
      rw [Nat.ofDigitChars_append, Nat.ofDigitChars_append, Nat.ofDigitChars_replicate_zero]
      rfl
    rw [hsame]
    push_cast
    rw [List.length_singleton, zpow_natCast, Nat.cast_one, zpow_neg_one]
    ring

/-- The point stands behind the first `k` digits. -/
theorem exists_inside {k : Nat} (hexponent : digits.length + exponent = k) (hk : 0 < k)
    (hneg : exponent < 0) (hdigits : ∀ c ∈ digits, c.isDigit = true)
    (hlead : digits.head? ≠ some '0') :
    ∃ x : Numeral, x.text = digits.take k ++ '.' :: digits.drop k ∧ x.Writes digits exponent := by
  have htake : (digits.take k).length = k := List.length_take_of_le (by omega)
  refine exists_pointed _ _ (List.ne_nil_of_length_pos (by omega))
    (List.ne_nil_of_length_pos ?_) ?_ ?_ ?_
  · rw [List.length_drop]
    omega
  · rwa [List.take_append_drop]
  · rw [List.head?_take, if_neg (by omega)]
    exact fun hzero => absurd hzero hlead
  · rw [List.take_append_drop, List.length_drop]
    congr 2
    omega

/-- The digits begin right of the point, behind `k` zeros. -/
theorem exists_behind {k : Nat} (hexponent : -(digits.length + exponent) = k) (hne : digits ≠ [])
    (hdigits : ∀ c ∈ digits, c.isDigit = true) :
    ∃ x : Numeral, x.text = ['0'] ++ '.' :: (List.replicate k '0' ++ digits) ∧
      x.Writes digits exponent := by
  refine exists_pointed ['0'] (List.replicate k '0' ++ digits) (by decide)
    (List.append_ne_nil_of_right_ne_nil _ hne)
    (List.forall_mem_append.mpr ⟨List.forall_mem_singleton.mpr rfl,
      List.forall_mem_append.mpr ⟨isDigit_of_mem_replicate_zero k, hdigits⟩⟩)
    (fun _ => rfl) ?_
  have hsame : Nat.ofDigitChars 10 (['0'] ++ (List.replicate k '0' ++ digits)) 0 =
      Nat.ofDigitChars 10 digits 0 := by
    rw [Nat.ofDigitChars_append, Nat.ofDigitChars_append, Nat.ofDigitChars_replicate_zero]
    rfl
  rw [hsame, List.length_append, List.length_replicate]
  congr 2
  omega

/-- A decimal that is written without an exponent. -/
theorem exists_plain (exponent : Int) (hne : digits ≠ []) (hdigits : ∀ c ∈ digits, c.isDigit = true)
    (hlead : digits.head? = some '0' → digits.length = 1 ∧ exponent = 0) :
    ∃ x : Numeral, x.text = Layout.plain true digits exponent ∧ x.Writes digits exponent := by
  have htext : Layout.plain true digits exponent =
      if 0 ≤ exponent then digits ++ List.replicate exponent.toNat '0' ++ ['.', '0']
      else if 0 < digits.length + exponent then
        digits.take (digits.length + exponent).toNat ++
          '.' :: digits.drop (digits.length + exponent).toNat
      else '0' :: '.' :: List.replicate (-(digits.length + exponent)).toNat '0' ++ digits := rfl
  rw [htext]
  split
  · next hwhole =>
    obtain ⟨n, rfl⟩ := Int.eq_ofNat_of_zero_le hwhole
    rw [Int.toNat_natCast]
    exact exists_whole n hne hdigits fun hzero => (hlead hzero).imp_right Int.ofNat.inj
  · next hwhole =>
    split
    · next hpoint =>
      obtain ⟨k, hk⟩ := Int.eq_ofNat_of_zero_le hpoint.le
      rw [hk, Int.toNat_natCast]
      refine exists_inside hk (by omega) (by omega) hdigits fun hzero => ?_
      exact hwhole (hlead hzero).2.ge
    · next hpoint =>
      obtain ⟨k, hk⟩ := Int.eq_ofNat_of_zero_le (a := -(digits.length + exponent)) (by omega)
      rw [hk, Int.toNat_natCast]
      exact exists_behind hk hne hdigits

/-- A decimal that is written with an exponent. -/
theorem exists_scientific (exponent : Int) (hne : digits ≠ [])
    (hdigits : ∀ c ∈ digits, c.isDigit = true) :
    ∃ x : Numeral, x.text = Layout.scientific digits (exponent + digits.length - 1) ∧
      x.Writes digits exponent := by
  obtain ⟨c, rest, rfl⟩ := List.exists_cons_of_ne_nil hne
  obtain ⟨hc, hrest⟩ := List.forall_mem_cons.mp hdigits
  have htext : ∀ top, Layout.scientific (c :: rest) top =
      [c] ++ (fractionText (if rest = [] then none else some rest) ++ exponentText (some top)) := by
    intro top
    cases rest <;> rfl
  rw [htext]
  have hgetD : (if rest = [] then none else some rest).getD [] = rest := by
    split
    · next h => rw [h]; rfl
    · rfl
  refine ⟨{ whole := [c], fraction := if rest = [] then none else some rest
            exponent := some (exponent + (c :: rest).length - 1)
            whole_ne_nil := List.cons_ne_nil _ _
            isDigit_whole := List.forall_mem_singleton.mpr hc, lead := fun _ => rfl
            fraction_ne_nil := ?_, isDigit_fraction := ?_ }, rfl, .inr (Option.some_ne_none _), ?_⟩
  · split
    · exact Option.some_ne_none _ |>.symm
    · next h => exact fun heq => h (Option.some.inj heq)
  · rwa [hgetD]
  · simp only [value, Numeral.digits, power, hgetD]
    congr 2
    rw [Option.getD_some, List.length_cons]
    omega

end Layouts

end Numeral

theorem head?_toDigits_ne {n : Nat} (hn : 0 < n) : (Nat.toDigits 10 n).head? ≠ some '0' := by
  induction n using Nat.strongRecOn with
  | ind n ih =>
    rw [Nat.toDigits_eq_if (by decide)]
    split
    · next hlt =>
      have hdigit : ∀ n < 10, 0 < n → n.digitChar ≠ '0' := by decide
      simpa using hdigit n hlt hn
    · have hrest := ih (n / 10) (by omega) (by omega)
      rwa [List.head?_append_of_ne_nil _ Nat.toDigits_ne_nil]

variable {d : Double} {x : Numeral} {digits : List Char} {exponent : Int}

/-- The numeral of a decimal that lies next to a double rounds to it. -/
theorem Numeral.Writes.ofDecimal_eq (h : x.Writes digits exponent) (hfinite : d.isFinite = true)
    (hpos : d.magnitude ≠ 0)
    (hattracts : d.Attracts ((Nat.ofDigitChars 10 digits 0 : Nat) * 10 ^ exponent)) :
    Double.ofDecimal d.isNegative x.digits x.power = d := by
  have hvalue : d.Attracts (x.digits * 10 ^ x.power) := by
    rw [← h.2] at hattracts
    exact hattracts
  rw [Double.ofDecimal_eq d.isNegative hfinite hpos hvalue, Double.ofMagnitude_magnitude]

theorem ofDecimal_zero (negative : Bool) (exponent : Int) :
    Double.ofDecimal negative 0 exponent = .zero negative := by
  simp [Double.ofDecimal]

/-- The text of a double is that of a numeral that rounds to it. -/
theorem exists_numeral_double (hfinite : d.isFinite = true) :
    ∃ x : Numeral, JsonNumber.layout.render d = (if d.isNegative then ['-'] else []) ++ x.text ∧
      x.IsDouble ∧ Double.ofDecimal d.isNegative x.digits x.power = d := by
  by_cases hzero : d.magnitude = 0
  · simp only [Layout.render, if_pos hzero]
    obtain ⟨x, htext, hdouble, hvalue⟩ :=
      Numeral.exists_plain 0 (List.cons_ne_nil '0' []) (List.forall_mem_singleton.mpr rfl)
        (fun _ => ⟨rfl, rfl⟩)
    have hdigits : x.digits = 0 := by
      have hprod : (x.digits : ℚ) * 10 ^ x.power = 0 := by
        rw [← Numeral.value, hvalue, zpow_zero, mul_one]
        rfl
      have hpow : (10 : ℚ) ^ x.power ≠ 0 := zpow_ne_zero _ (by norm_num)
      exact_mod_cast (mul_eq_zero.mp hprod).resolve_right hpow
    refine ⟨x, by rw [htext]; rfl, hdouble, ?_⟩
    rw [hdigits, ofDecimal_zero, Double.zero, ← hzero, Double.ofMagnitude_magnitude]
  · simp only [Layout.render, if_neg hzero]
    have hattracts := Double.shortest_attracts hzero JsonNumber.layout.tie
    generalize d.shortest JsonNumber.layout.tie = decimal at hattracts ⊢
    obtain ⟨n, exponent⟩ := decimal
    dsimp only at hattracts ⊢
    have hn : 0 < n := hattracts.digits_pos hzero
    have hdigits := Numeral.isDigit_toDigits n
    have hne : Nat.toDigits 10 n ≠ [] := Nat.toDigits_ne_nil
    rw [← Nat.ofDigitChars_ten_toDigits (n := n)] at hattracts
    split
    · obtain ⟨x, htext, hx⟩ := Numeral.exists_plain exponent hne hdigits
        fun h => absurd h (head?_toDigits_ne hn)
      exact ⟨x, by rw [htext]; rfl, hx.1, hx.ofDecimal_eq hfinite hzero hattracts⟩
    · obtain ⟨x, htext, hx⟩ := Numeral.exists_scientific exponent hne hdigits
      exact ⟨x, by rw [htext], hx.1, hx.ofDecimal_eq hfinite hzero hattracts⟩

/-- The numeral of a natural number. -/
def Numeral.ofNat (n : Nat) : Numeral where
  whole := Nat.toDigits 10 n
  fraction := none
  exponent := none
  whole_ne_nil := Nat.toDigits_ne_nil
  isDigit_whole := Numeral.isDigit_toDigits n
  lead h := by
    rcases Nat.eq_zero_or_pos n with rfl | hn
    · rfl
    · exact absurd h (head?_toDigits_ne hn)
  fraction_ne_nil h := by cases h
  isDigit_fraction c h := by cases h

theorem Numeral.text_ofNat (n : Nat) : (Numeral.ofNat n).text = Nat.toDigits 10 n :=
  List.append_nil _

end Json

namespace JsonNumber

open Text (Decoded)

variable {rest : Decoded}

/-- A sign and a numeral are read as such. -/
theorem readNumber_signed (negative : Bool) (x : Json.Numeral)
    (hrest : Json.StopsAt Json.continuesNumber rest) :
    Json.readNumber (((if negative then ['-'] else []) ++ x.text).map some ++ rest) =
      some (Json.numberOf negative x.whole x.fraction x.exponent, rest) := by
  cases negative with
  | true => exact x.readUnsigned_text true hrest
  | false =>
    rw [← x.readUnsigned_text false hrest]
    obtain ⟨c, whole, hwhole⟩ := List.exists_cons_of_ne_nil x.whole_ne_nil
    have hc : c.isDigit = true := x.isDigit_whole c (by rw [hwhole]; exact List.mem_cons_self)
    have hminus : c ≠ '-' := by
      rintro rfl
      exact absurd hc (by decide)
    simp [Json.readNumber, Json.Numeral.text, hwhole, hminus]

/-- The text of a number is a sign and a numeral that stand for it. -/
theorem exists_numeral {n : JsonNumber} (h : n.isNormal = true) :
    ∃ (negative : Bool) (x : Json.Numeral), n.render = (if negative then ['-'] else []) ++ x.text ∧
      Json.numberOf negative x.whole x.fraction x.exponent = .number n := by
  cases n with
  | integer n =>
    refine ⟨decide (n < 0), .ofNat n.natAbs, ?_, ?_⟩
    · rw [Json.Numeral.text_ofNat, render, renderInt]
      by_cases hneg : n < 0 <;> simp [hneg]
    · have hsigned : (if decide (n < 0) then -(n.natAbs : Int) else n.natAbs) = n := by
        by_cases hneg : n < 0
        · simp [hneg, abs_of_neg hneg]
        · simp [hneg, abs_of_nonneg (not_lt.mp hneg)]
      have hzero : (decide (n < 0) && n.natAbs == 0) = false := by
        by_cases hneg : n < 0
        · simp [hneg, hneg.ne]
        · simp [hneg]
      have hrange : inRange n = true := h
      simp only [Json.Numeral.ofNat, Json.numberOf, Nat.ofDigitChars_ten_toDigits, hsigned, hzero,
        hrange]
      rfl
  | double d =>
    have hd : d.isFinite = true := h
    obtain ⟨x, htext, hdouble, hvalue⟩ := Json.exists_numeral_double hd
    have hfinite : (Double.ofDecimal d.isNegative x.digits x.power).isFinite = true := by
      rwa [hvalue]
    refine ⟨d.isNegative, x, ?_, ?_⟩
    · rw [render, if_pos hd, htext]
    · rw [Json.Numeral.numberOf_of_isDouble hdouble _ hfinite, hvalue]

/-- The text of a number begins with its sign or a digit. -/
theorem exists_render_eq_cons {n : JsonNumber} (h : n.isNormal = true) :
    ∃ c tail, n.render = c :: tail ∧ (c = '-' ∨ c.isDigit = true) := by
  obtain ⟨negative, x, htext, -⟩ := exists_numeral h
  rw [htext]
  cases negative with
  | true => exact ⟨'-', x.text, rfl, .inl rfl⟩
  | false =>
    obtain ⟨c, whole, hwhole⟩ := List.exists_cons_of_ne_nil x.whole_ne_nil
    refine ⟨c, _, congrArg (· ++ _) hwhole, .inr (x.isDigit_whole c ?_)⟩
    rw [hwhole]
    exact List.mem_cons_self

/-- Behind the text of a number stands the number. -/
theorem readNumber_render {n : JsonNumber} (h : n.isNormal = true)
    (hrest : Json.StopsAt Json.continuesNumber rest) :
    Json.readNumber (n.render.map some ++ rest) = some (.number n, rest) := by
  obtain ⟨negative, x, htext, hvalue⟩ := exists_numeral h
  rw [htext, readNumber_signed negative x hrest, hvalue]

end JsonNumber

end FeatureFlags
