/-!
# Splitting at a character

`split sep cs` are the parts of a text between the occurrences of `sep`: always at
least one part, and `sep` in none of them.
-/

namespace FeatureFlags.Text

/-- The parts between the occurrences of `sep`. -/
def split (sep : Char) : List Char → List (List Char)
  | [] => [[]]
  | c :: rest =>
    if c = sep then [] :: split sep rest
    else match split sep rest with
      | [] => [[c]]
      | part :: parts => (c :: part) :: parts

/-- The parts put together again. -/
def join (sep : Char) : List (List Char) → List Char
  | [] => []
  | [part] => part
  | part :: next :: rest => part ++ sep :: join sep (next :: rest)

theorem split_ne_nil (sep : Char) (cs : List Char) : split sep cs ≠ [] := by
  cases cs with
  | nil => simp [split]
  | cons c rest =>
    unfold split
    split
    · simp
    · split <;> simp

theorem join_cons_cons (sep c : Char) (part : List Char) (parts : List (List Char)) :
    join sep ((c :: part) :: parts) = c :: join sep (part :: parts) := by
  cases parts <;> simp [join]

theorem join_nil_cons (sep : Char) {parts : List (List Char)} (h : parts ≠ []) :
    join sep ([] :: parts) = sep :: join sep parts := by
  cases parts with
  | nil => exact absurd rfl h
  | cons part rest => simp [join]

/-- Splitting loses nothing. -/
theorem join_split (sep : Char) (cs : List Char) : join sep (split sep cs) = cs := by
  induction cs with
  | nil => rfl
  | cons c rest ih =>
    unfold split
    split
    · next h => rw [join_nil_cons sep (split_ne_nil sep rest), ih, h]
    · split
      · next h => exact absurd h (split_ne_nil sep rest)
      · next part parts h => rw [join_cons_cons, ← h, ih]

theorem mem_join {sep c : Char} {part : List Char} {parts : List (List Char)}
    (hpart : part ∈ parts) (hc : c ∈ part) : c ∈ join sep parts := by
  fun_induction join sep parts with
  | case1 => cases hpart
  | case2 first =>
    rwa [List.mem_singleton.1 hpart] at hc
  | case3 first next rest ih =>
    rcases List.mem_cons.1 hpart with rfl | hpart
    · exact List.mem_append_left _ hc
    · exact List.mem_append_right _ (List.mem_cons_of_mem _ (ih hpart))

/-- The parts hold characters of the text. -/
theorem mem_of_mem_split {sep c : Char} {part cs : List Char} (hpart : part ∈ split sep cs)
    (hc : c ∈ part) : c ∈ cs := by
  rw [← join_split sep cs]
  exact mem_join hpart hc

end FeatureFlags.Text
