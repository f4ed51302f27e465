import FeatureFlags.Dict.Lemmas
import FeatureFlags.Fingerprint
import FeatureFlags.Proofs.Json.Numbers

/-!
# Texts read back

`Json.ofBytes?_toBytes`: a tree that denotes a value is read back from its bytes as it stands, if
no more arrays and objects are open at its deepest place (`Json.depth`) than a reader follows.

The reader recurses on a number of steps that it is given. The length of the text that a value is
written with is always enough, and whatever is longer by a bracket, a comma or a colon pays for the
step that reads it (`Json.readValue_render`).
-/

namespace FeatureFlags

namespace Json

open Text (Decoded)

variable {rest : Decoded} {fuel room : Nat}

/-! ## Levels -/

mutual

/-- How many arrays and objects are open at the deepest place of the tree. -/
def depth : Json → Nat
  | .array items => depthOfItems items + 1
  | .object fields => depthOfFields fields + 1
  | _ => 0

/-- How many are open at the deepest place of the items. -/
def depthOfItems : List Json → Nat
  | [] => 0
  | j :: rest => max (depth j) (depthOfItems rest)

/-- How many are open at the deepest place of the fields. -/
def depthOfFields : List (String × Json) → Nat
  | [] => 0
  | (_, j) :: rest => max (depth j) (depthOfFields rest)

end

/-! ## Trees that denote values -/

/-- Nothing in the tree is unreadable or out of range. -/
def Readable (j : Json) : Prop := j.normalize?.isSome = true

theorem isSome_normalizeItems?_iff (items : List Json) :
    (normalizeItems? items).isSome = true ↔ ∀ j ∈ items, j.Readable := by
  induction items with
  | nil => simp [normalizeItems?]
  | cons j items ih =>
    rw [List.forall_mem_cons, ← ih, Readable]
    cases h : normalize? j <;> cases h' : normalizeItems? items <;> simp [normalizeItems?, h, h']

theorem isSome_normalizeFields?_iff (fields : List (String × Json)) :
    (normalizeFields? fields).isSome = true ↔ ∀ e ∈ fields, e.2.Readable := by
  induction fields with
  | nil => simp [normalizeFields?]
  | cons e fields ih =>
    obtain ⟨key, j⟩ := e
    rw [List.forall_mem_cons, ← ih, Readable]
    cases h : normalize? j <;> cases h' : normalizeFields? fields <;>
      simp [normalizeFields?, h, h']

theorem readable_array_iff (items : List Json) :
    (array items).Readable ↔ ∀ j ∈ items, j.Readable := by
  rw [← isSome_normalizeItems?_iff, Readable, normalize?, Option.isSome_map]

theorem readable_object_iff (fields : List (String × Json)) :
    (object fields).Readable ↔ ∀ e ∈ fields, e.2.Readable := by
  rw [← isSome_normalizeFields?_iff, Readable, normalize?, Option.isSome_map]

theorem readable_number_iff (n : JsonNumber) : (number n).Readable ↔ n.isNormal = true := by
  rw [Readable, normalize?]
  split
  · next h => exact iff_of_true rfl h
  · next h => exact iff_of_false (by simp) h

mutual

/-- A value denotes itself. -/
theorem normalize?_of_normal : {j : Json} → j.Normal → j.normalize? = some j
  | .null, _ | .bool _, _ | .string _, _ => rfl
  | .number _, h => if_pos h
  | .array items, h => by
    rw [normalize?, normalizeItems?_of_normal ((normal_array_iff items).mp h)]
    rfl
  | .object fields, h => by
    obtain ⟨hascending, hnormal⟩ := (normal_object_iff fields).mp h
    rw [normalize?, normalizeFields?_of_normal hnormal, Option.map_some, hascending.ofList_eq]
  | .unreadable, h => by cases h

theorem normalizeItems?_of_normal : {items : List Json} → (∀ j ∈ items, j.Normal) →
    normalizeItems? items = some items
  | [], _ => rfl
  | j :: items, h => by
    obtain ⟨hj, hitems⟩ := List.forall_mem_cons.mp h
    rw [normalizeItems?, normalize?_of_normal hj, normalizeItems?_of_normal hitems]
    rfl

theorem normalizeFields?_of_normal : {fields : List (String × Json)} →
    (∀ e ∈ fields, e.2.Normal) → normalizeFields? fields = some fields
  | [], _ => rfl
  | (key, j) :: fields, h => by
    obtain ⟨hj, hfields⟩ := List.forall_mem_cons.mp h
    rw [normalizeFields?, normalize?_of_normal hj, normalizeFields?_of_normal hfields]
    rfl

end

theorem Normal.readable {j : Json} (h : j.Normal) : j.Readable := by
  rw [Readable, normalize?_of_normal h]
  rfl

/-! ## Strings -/

theorem codeUnit?_control {n : Nat} (h : n < 0x20) :
    codeUnit? '0' '0' (n / 16).digitChar (n % 16).digitChar = some n := by
  have hzero : Text.Hex.digit? '0' = some 0 := by decide
  have hhigh := Text.Hex.digit?_digitChar (show n / 16 < 16 by omega)
  have hlow := Text.Hex.digit?_digitChar (show n % 16 < 16 by omega)
  simp only [codeUnit?, hzero, hhigh, hlow, Option.bind_eq_bind, Option.bind_some, Option.pure_def]
  congr 1
  omega

theorem pushUnit_control (s : StringState) {c : Char} (h : c.toNat < 0x20) :
    s.pushUnit c.toNat = s.push c := by
  rw [StringState.pushUnit, if_neg (by omega), if_neg (by omega), Char.ofNat_toNat]

/-- A character is read as it was written, escaped or not. -/
theorem readString_escape (s : StringState) (c : Char) (rest : Decoded) :
    readString s ((escape c).map some ++ rest) = readString (s.push c) rest := by
  unfold escape
  split
  case h_8 hquote hslash _ _ _ _ _ =>
    split
    · next hcontrol =>
      simp only [List.map_cons, List.map_nil, List.cons_append, List.nil_append, readString,
        codeUnit?_control hcontrol, pushUnit_control s hcontrol]
    · next hcontrol =>
      rw [List.map_singleton, List.singleton_append, readString, if_neg hcontrol]
      · exact hquote
      · exact fun _ _ _ _ _ _ => hslash
      · exact fun _ _ _ => hslash
      · exact hslash
  all_goals rfl

theorem readString_flatMap_escape (s : StringState) (cs : List Char) (rest : Decoded) :
    readString s ((cs.flatMap escape).map some ++ rest) = readString (cs.foldl .push s) rest := by
  induction cs generalizing s with
  | nil => rfl
  | cons c cs ih =>
    rw [List.flatMap_cons, List.map_append, List.append_assoc, readString_escape, ih,
      List.foldl_cons]

theorem foldl_push (s : StringState) (hhalf : s.half = none) (cs : List Char) :
    cs.foldl .push s = { s with read := cs.reverse ++ s.read } := by
  induction cs generalizing s with
  | nil => rfl
  | cons c cs ih =>
    rw [List.foldl_cons, ih _ rfl, StringState.push, hhalf]
    simp

/-- A string is read as it was written. -/
theorem readString_renderString (text : String) (rest : Decoded) :
    readString .start ((text.toList.flatMap escape).map some ++ some '"' :: rest) =
      some (some text, rest) := by
  rw [readString_flatMap_escape, foldl_push .start rfl]
  simp [readString, StringState.finish, StringState.start]

/-! ## Values -/

theorem skipBlanks_cons {c : Char} (h : isBlank c = false) (rest : Decoded) :
    skipBlanks (some c :: rest) = some c :: rest := by
  simp [skipBlanks, h]

theorem skipBlanks_renderString (text : String) (rest : Decoded) :
    skipBlanks ((renderString text).map some ++ rest) =
      some '"' :: ((text.toList.flatMap escape).map some ++ some '"' :: rest) := by
  simp [renderString, skipBlanks, isBlank]

/-- A character that a value can begin with. -/
def beginsValue (c : Char) : Bool := c ∈ ['n', 't', 'f', '"', '[', '{', '-'] || c.isDigit

theorem isBlank_of_beginsValue {c : Char} (h : beginsValue c = true) : isBlank c = false := by
  by_contra hblank
  simp only [isBlank, Bool.not_eq_false, Bool.or_eq_true, decide_eq_true_eq] at hblank
  obtain ((rfl | rfl) | rfl) | rfl := hblank
  all_goals exact absurd h (by decide)

theorem beginsValue_of_number {c : Char} (hc : c = '-' ∨ c.isDigit = true) :
    beginsValue c = true := by
  obtain rfl | hdigit := hc
  · rfl
  · rw [beginsValue, hdigit, Bool.or_true]

theorem ne_bracket_of_beginsValue {c : Char} (h : beginsValue c = true) : c ≠ ']' := by
  rintro rfl
  exact absurd h (by decide)

theorem exists_render_eq_cons {j : Json} (h : j.Readable) :
    ∃ c tail, render j = c :: tail ∧ beginsValue c = true := by
  cases j with
  | number n =>
    obtain ⟨c, tail, htext, hc⟩ :=
      JsonNumber.exists_render_eq_cons ((readable_number_iff n).mp h)
    exact ⟨c, tail, by rw [render, htext], beginsValue_of_number hc⟩
  | bool b => cases b <;> exact ⟨_, _, rfl, rfl⟩
  | _ => exact ⟨_, _, rfl, rfl⟩

theorem readValue_eq_readNumber {c : Char} (hc : c = '-' ∨ c.isDigit = true) (rest : Decoded) :
    readValue (fuel + 1) room (some c :: rest) = readNumber (some c :: rest) := by
  rw [readValue, skipBlanks_cons (isBlank_of_beginsValue (beginsValue_of_number hc))]
  split
  case h_7 => rfl
  all_goals
    next heq =>
      cases heq
      exact absurd hc (by decide)

/-- Behind an opening bracket and the beginning of a value stand items. -/
theorem readValue_bracket {c : Char} (hc : beginsValue c = true) (rest : Decoded) :
    readValue (fuel + 1) (room + 1) (some '[' :: some c :: rest) =
      (readItems fuel room (some c :: rest)).map fun r => (.array r.1, r.2) := by
  have hne := ne_bracket_of_beginsValue hc
  have hskip := skipBlanks_cons (isBlank_of_beginsValue hc) rest
  simp only [readValue, skipBlanks_cons (show isBlank '[' = false from rfl), hskip,
    Nat.add_sub_cancel]
  split
  · next heq =>
    cases heq
    exact absurd rfl hne
  · cases readItems fuel room (some c :: rest) <;> rfl

/-- Behind an opening brace and a quote stand fields. -/
theorem readValue_brace (rest : Decoded) :
    readValue (fuel + 1) (room + 1) (some '{' :: some '"' :: rest) =
      (readFields fuel room (some '"' :: rest)).map fun r =>
        (r.1.elim .unreadable .object, r.2) := by
  simp only [readValue, skipBlanks_cons (show isBlank '{' = false from rfl),
    skipBlanks_cons (show isBlank '"' = false from rfl), Nat.add_sub_cancel]
  split
  · next heq => cases heq
  · rcases readFields fuel room (some '"' :: rest) with _ | ⟨_ | _, _⟩ <;> rfl

/-- The last field: a key, a colon and a value before the closing brace. -/
theorem readFields_last (key : String) {j : Json} {text : Decoded}
    (hread : readValue fuel room text = some (j, some '}' :: rest)) :
    readFields (fuel + 1) room ((renderString key).map some ++ some ':' :: text) =
      some (some [(key, j)], rest) := by
  simp only [readFields, skipBlanks_renderString, readString_renderString, hread,
    skipBlanks_cons (show isBlank ':' = false from rfl),
    skipBlanks_cons (show isBlank '}' = false from rfl)]
  rfl

/-- A field before others: a key, a colon and a value before a comma. -/
theorem readFields_more (key : String) {j : Json} {text more : Decoded}
    {fields : List (String × Json)}
    (hread : readValue fuel room text = some (j, some ',' :: more))
    (hmore : readFields fuel room more = some (some fields, rest)) :
    readFields (fuel + 1) room ((renderString key).map some ++ some ':' :: text) =
      some (some ((key, j) :: fields), rest) := by
  simp only [readFields, skipBlanks_renderString, readString_renderString, hread, hmore,
    skipBlanks_cons (show isBlank ':' = false from rfl),
    skipBlanks_cons (show isBlank ',' = false from rfl)]
  rfl

theorem exists_renderItems_eq_cons {j : Json} (h : j.Readable) (items : List Json) :
    ∃ c tail, renderItems (j :: items) = c :: tail ∧ beginsValue c = true := by
  obtain ⟨c, tail, htext, hc⟩ := exists_render_eq_cons h
  cases items with
  | nil => exact ⟨c, tail, htext, hc⟩
  | cons next items => exact ⟨c, _, congrArg (· ++ _) htext, hc⟩

theorem exists_renderFields_eq_cons (e : String × Json) (fields : List (String × Json)) :
    ∃ tail, renderFields (e :: fields) = '"' :: tail := by
  cases fields <;> exact ⟨_, rfl⟩

mutual

/-- A value is read as it was written. -/
theorem readValue_render : (j : Json) → {fuel room : Nat} → {rest : Decoded} → j.Readable →
    (render j).length ≤ fuel → depth j ≤ room → StopsAt continuesNumber rest →
    readValue fuel room ((render j).map some ++ rest) = some (j, rest)
  | j, 0, room, rest, h, hfuel, _, _ => by
    obtain ⟨c, tail, htext, -⟩ := exists_render_eq_cons h
    rw [htext] at hfuel
    cases hfuel
  | .null, fuel + 1, room, rest, _, _, _, _ => rfl
  | .bool true, fuel + 1, room, rest, _, _, _, _ => rfl
  | .bool false, fuel + 1, room, rest, _, _, _, _ => rfl
  | .number n, fuel + 1, room, rest, h, _, _, hrest => by
    rw [readable_number_iff] at h
    obtain ⟨c, tail, htext, hc⟩ := JsonNumber.exists_render_eq_cons h
    have hread := JsonNumber.readNumber_render h hrest
    rw [htext] at hread
    rw [render, htext]
    exact (readValue_eq_readNumber hc _).trans hread
  | .string text, fuel + 1, room, rest, _, _, _, _ => by
    rw [render, readValue, skipBlanks_renderString]
    simp only [readString_renderString]
  | .unreadable, fuel + 1, room, rest, h, _, _, _ => by cases h
  | .array _, _, 0, _, _, _, hroom, _ | .object _, _, 0, _, _, _, hroom, _ => by cases hroom
  | .array [], fuel + 1, room + 1, rest, _, _, _, _ => rfl
  | .object [], fuel + 1, room + 1, rest, _, _, _, _ => rfl
  | .array (j :: items), fuel + 1, room + 1, rest, h, hfuel, hroom, _ => by
    rw [readable_array_iff] at h
    simp only [render, List.length_cons, List.length_append, List.length_nil] at hfuel
    rw [depth] at hroom
    have hread : readItems fuel room ((renderItems (j :: items)).map some ++ some ']' :: rest) =
        some (j :: items, rest) := readItems_render j items h (by omega) (by omega)
    obtain ⟨c, tail, htext, hc⟩ := exists_renderItems_eq_cons (h j List.mem_cons_self) items
    rw [htext] at hread
    rw [render, htext, List.map_append, List.map_cons, List.map_cons, List.append_assoc]
    exact (readValue_bracket hc _).trans (congrArg _ hread)
  | .object (e :: fields), fuel + 1, room + 1, rest, h, hfuel, hroom, _ => by
    rw [readable_object_iff] at h
    simp only [render, List.length_cons, List.length_append, List.length_nil] at hfuel
    rw [depth] at hroom
    have hread : readFields fuel room ((renderFields (e :: fields)).map some ++ some '}' :: rest) =
        some (some (e :: fields), rest) := readFields_render e fields h (by omega) (by omega)
    obtain ⟨tail, htext⟩ := exists_renderFields_eq_cons e fields
    rw [htext] at hread
    rw [render, htext, List.map_append, List.map_cons, List.map_cons, List.append_assoc]
    exact (readValue_brace _).trans (congrArg _ hread)

/-- Items are read as they were written, up to and including the closing bracket. -/
theorem readItems_render : (j : Json) → (items : List Json) → {fuel room : Nat} → {rest : Decoded} →
    (∀ i ∈ j :: items, i.Readable) → (renderItems (j :: items)).length < fuel →
    depthOfItems (j :: items) ≤ room →
    readItems fuel room ((renderItems (j :: items)).map some ++ some ']' :: rest) =
      some (j :: items, rest)
  | _, _, 0, _, _, _, hfuel, _ => by cases hfuel
  | j, [], fuel + 1, room, rest, h, hfuel, hroom => by
    rw [depthOfItems] at hroom
    have hread : readValue fuel room ((render j).map some ++ some ']' :: rest) =
        some (j, some ']' :: rest) :=
      readValue_render j (h j List.mem_cons_self) (Nat.lt_succ_iff.mp hfuel)
        (le_of_max_le_left hroom) (stopsAt_cons rfl _)
    rw [renderItems, readItems, hread]
    rfl
  | j, next :: items, fuel + 1, room, rest, h, hfuel, hroom => by
    obtain ⟨hj, hitems⟩ := List.forall_mem_cons.mp h
    simp only [renderItems, List.length_append, List.length_cons] at hfuel
    rw [depthOfItems] at hroom
    have hread : ∀ tail, readValue fuel room ((render j).map some ++ some ',' :: tail) =
        some (j, some ',' :: tail) := fun tail =>
      readValue_render j hj (by omega) (le_of_max_le_left hroom) (stopsAt_cons rfl _)
    have hreads : readItems fuel room ((renderItems (next :: items)).map some ++ some ']' :: rest) =
        some (next :: items, rest) :=
      readItems_render next items hitems (by omega) (le_of_max_le_right hroom)
    rw [renderItems, List.map_append, List.map_cons, List.append_assoc, List.cons_append, readItems,
      hread]
    simp only [skipBlanks_cons (show isBlank ',' = false from rfl), hreads]

/-- Fields are read as they were written, up to and including the closing brace. -/
theorem readFields_render : (e : String × Json) → (fields : List (String × Json)) →
    {fuel room : Nat} → {rest : Decoded} → (∀ f ∈ e :: fields, f.2.Readable) →
    (renderFields (e :: fields)).length < fuel → depthOfFields (e :: fields) ≤ room →
    readFields fuel room ((renderFields (e :: fields)).map some ++ some '}' :: rest) =
      some (some (e :: fields), rest)
  | _, _, 0, _, _, _, hfuel, _ => by cases hfuel
  | (key, j), [], fuel + 1, room, rest, h, hfuel, hroom => by
    simp only [renderFields, List.length_append, List.length_cons] at hfuel
    rw [depthOfFields] at hroom
    have hread : readValue fuel room ((render j).map some ++ some '}' :: rest) =
        some (j, some '}' :: rest) :=
      readValue_render j (h (key, j) List.mem_cons_self) (by omega) (le_of_max_le_left hroom)
        (stopsAt_cons rfl _)
    rw [renderFields, List.map_append, List.map_cons, List.append_assoc, List.cons_append]
    exact readFields_last key hread
  | (key, j), next :: fields, fuel + 1, room, rest, h, hfuel, hroom => by
    obtain ⟨hj, hfields⟩ := List.forall_mem_cons.mp h
    simp only [renderFields, List.length_append, List.length_cons] at hfuel
    rw [depthOfFields] at hroom
    have hread : ∀ tail, readValue fuel room ((render j).map some ++ some ',' :: tail) =
        some (j, some ',' :: tail) := fun tail =>
      readValue_render j hj (by omega) (le_of_max_le_left hroom) (stopsAt_cons rfl _)
    have hreads : readFields fuel room
        ((renderFields (next :: fields)).map some ++ some '}' :: rest) =
        some (some (next :: fields), rest) :=
      readFields_render next fields hfields (by omega) (le_of_max_le_right hroom)
    rw [renderFields, List.map_append, List.map_append, List.map_cons, List.map_cons,
      List.append_assoc, List.append_assoc, List.cons_append, List.cons_append]
    exact readFields_more key (hread _) hreads

end

/-! ## Texts -/

/-- The text of a value is read as the value. -/
theorem ofText?_toText {j : Json} (h : j.Readable) (hdepth : j.depth ≤ maxLevels) :
    ofText? j.toText = some j := by
  have hfuel : (render j).length ≤ 2 * ((render j).map some).length + 2 := by
    rw [List.length_map]
    omega
  have hread := readValue_render j h hfuel hdepth (stopsAt_nil _)
  rw [List.append_nil] at hread
  rw [ofText?, toText, String.toList_ofList, ofDecoded?, hread]
  rfl

/-- The bytes of a value are read as the value. -/
theorem ofBytes?_toBytes {j : Json} (h : j.Readable) (hdepth : j.depth ≤ maxLevels) :
    ofBytes? j.toBytes = some j := by
  rw [toBytes, ofBytes?_encode, ofText?_toText h hdepth]

end Json

end FeatureFlags
