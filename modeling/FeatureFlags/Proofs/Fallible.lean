/-!
# Computations that can fail

- `bind_eq_ok_iff`, `exists_bind_eq_ok_iff`, `exists_both_eq_ok_iff`, `bind_eq_error_iff`: a
  computation in two steps succeeds if both steps do, and fails with the first of them that fails.
- `map_eq_ok_iff`, `exists_map_eq_ok_iff`, `exists_error_iff`: a computation whose result is changed
  succeeds as before, and one that gives no result fails.
- `filterM_congr`: a filter depends on its condition only through the elements.
- `filterM_eq_ok_iff`, `mem_of_filterM_eq_error`: a filter whose condition can fail
  succeeds if the condition can be told for every element, and what it fails with is
  the failure of an element.
-/

namespace FeatureFlags

universe u v

section Steps

variable {α β γ ε : Type u}

theorem bind_eq_ok_iff {x : Except ε α} {next : α → Except ε β} {b : β} :
    (x >>= next) = .ok b ↔ ∃ a, x = .ok a ∧ next a = .ok b := by
  cases x with
  | error cause =>
    constructor
    · intro h
      cases h
    · rintro ⟨a, h, _⟩
      cases h
  | ok a =>
    constructor
    · intro h
      exact ⟨a, rfl, h⟩
    · rintro ⟨_, ⟨⟩, h⟩
      exact h

theorem bind_eq_error_iff {x : Except ε α} {next : α → Except ε β} {cause : ε} :
    (x >>= next) = .error cause ↔ x = .error cause ∨ ∃ a, x = .ok a ∧ next a = .error cause := by
  cases x with
  | error cause' =>
    constructor
    · rintro ⟨⟩
      exact .inl rfl
    · rintro (⟨⟨⟩⟩ | ⟨a, h, _⟩)
      · rfl
      · cases h
  | ok a =>
    constructor
    · intro h
      exact .inr ⟨a, rfl, h⟩
    · rintro (h | ⟨_, ⟨⟩, h⟩)
      · cases h
      · exact h

theorem exists_bind_eq_ok_iff {x : Except ε α} {next : α → Except ε β} :
    (∃ b, (x >>= next) = .ok b) ↔ ∃ a, x = .ok a ∧ ∃ b, next a = .ok b := by
  simp only [bind_eq_ok_iff]
  exact exists_comm.trans (exists_congr fun a => exists_and_left)

theorem exists_both_eq_ok_iff {x : Except ε α} {y : Except ε γ} {f : α → γ → β} :
    (∃ b, (do
      let a ← x
      let c ← y
      return f a c) = .ok b) ↔ (∃ a, x = .ok a) ∧ ∃ c, y = .ok c := by
  rw [exists_bind_eq_ok_iff, ← exists_and_right]
  refine exists_congr fun a => and_congr_right fun _ => ?_
  rw [exists_bind_eq_ok_iff]
  exact exists_congr fun c => and_iff_left ⟨_, rfl⟩

theorem map_eq_ok_iff {x : Except ε α} {f : α → β} {b : β} :
    x.map f = .ok b ↔ ∃ a, x = .ok a ∧ f a = b := by
  cases x <;> simp [Except.map]

theorem exists_map_eq_ok_iff {x : Except ε α} {f : α → β} :
    (∃ b, x.map f = .ok b) ↔ ∃ a, x = .ok a := by
  cases x <;> simp [Except.map]

theorem exists_error_iff {x : Except ε α} : (∃ cause, x = .error cause) ↔ ∀ a, x ≠ .ok a := by
  cases x <;> simp

end Steps

/-! ## Filters -/

section Filters

variable {α : Type} {ε : Type} {f g : α → Except ε Bool} {l names : List α}

private theorem filterAuxM_eq (f : α → Except ε Bool) (l acc : List α) :
    l.filterAuxM f acc = (l.filterAuxM f []).map (· ++ acc) := by
  induction l generalizing acc with
  | nil => rfl
  | cons a rest ih =>
    unfold List.filterAuxM
    cases f a with
    | error cause => rfl
    | ok here =>
      show rest.filterAuxM f _ = (rest.filterAuxM f _).map _
      rw [ih, ih (cond here [a] [])]
      cases rest.filterAuxM f [] with
      | error cause => rfl
      | ok kept => cases here <;> simp [Except.map]

private theorem filterM_eq_map (f : α → Except ε Bool) (l : List α) :
    l.filterM f = (l.filterAuxM f []).map List.reverse := by
  unfold List.filterM
  cases l.filterAuxM f [] <;> rfl

/-- The condition is told for the first element, then the rest is filtered. -/
theorem filterM_cons (f : α → Except ε Bool) (a : α) (rest : List α) :
    (a :: rest).filterM f = do
      let here ← f a
      let names ← rest.filterM f
      return if here then a :: names else names := by
  rw [filterM_eq_map, filterM_eq_map, List.filterAuxM]
  cases f a with
  | error cause => rfl
  | ok here =>
    show (rest.filterAuxM f _).map _ = _
    rw [filterAuxM_eq]
    cases rest.filterAuxM f [] with
    | error cause => rfl
    | ok kept => cases here <;> simp [Except.map, bind, Except.bind, pure, Except.pure]

theorem filterM_congr (h : ∀ a ∈ l, f a = g a) : l.filterM f = l.filterM g := by
  induction l with
  | nil => rfl
  | cons a rest ih =>
    obtain ⟨ha, hrest⟩ := List.forall_mem_cons.mp h
    rw [filterM_cons, filterM_cons, ha, ih hrest]

/-- A filter succeeds exactly if its condition can be told for every element. -/
theorem filterM_eq_ok_iff :
    l.filterM f = .ok names ↔
      (∀ a ∈ l, ∃ here, f a = .ok here) ∧ names = l.filter fun a => (f a).toOption.getD false := by
  induction l generalizing names with
  | nil =>
    constructor
    · rintro ⟨⟩
      exact ⟨List.forall_mem_nil _, rfl⟩
    · rintro ⟨-, rfl⟩
      rfl
  | cons a rest ih =>
    rw [filterM_cons, bind_eq_ok_iff, List.forall_mem_cons]
    constructor
    · rintro ⟨here, ha, h⟩
      obtain ⟨kept, hkept, hnames⟩ := bind_eq_ok_iff.mp h
      obtain ⟨hrest, rfl⟩ := ih.mp hkept
      cases hnames
      refine ⟨⟨⟨here, ha⟩, hrest⟩, ?_⟩
      cases here <;> simp [ha, Except.toOption]
    · rintro ⟨⟨⟨here, ha⟩, hrest⟩, rfl⟩
      refine ⟨here, ha, bind_eq_ok_iff.mpr ⟨_, ih.mpr ⟨hrest, rfl⟩, ?_⟩⟩
      cases here <;> simp [ha, Except.toOption, pure, Except.pure]

/-- A filter goes on succeeding, with the same elements, under a condition that can be told wherever
the first one can. -/
theorem filterM_mono (hle : ∀ a ∈ l, ∀ here, f a = .ok here → g a = .ok here)
    (h : l.filterM f = .ok names) : l.filterM g = .ok names := by
  obtain ⟨hf, rfl⟩ := filterM_eq_ok_iff.mp h
  refine filterM_eq_ok_iff.mpr ⟨fun a ha => ?_, List.filter_congr fun a ha => ?_⟩
  · obtain ⟨here, htold⟩ := hf a ha
    exact ⟨here, hle a ha here htold⟩
  · obtain ⟨here, htold⟩ := hf a ha
    rw [htold, hle a ha here htold]

/-- What a filter fails with is the failure of an element. -/
theorem mem_of_filterM_eq_error {cause : ε} (h : l.filterM f = .error cause) :
    ∃ a ∈ l, f a = .error cause := by
  induction l with
  | nil => cases h
  | cons a rest ih =>
    rw [filterM_cons] at h
    rcases bind_eq_error_iff.mp h with ha | ⟨here, -, h⟩
    · exact ⟨a, List.mem_cons_self, ha⟩
    · rcases bind_eq_error_iff.mp h with hrest | ⟨kept, -, h⟩
      · obtain ⟨b, hb, hcause⟩ := ih hrest
        exact ⟨b, List.mem_cons_of_mem a hb, hcause⟩
      · cases h

end Filters

end FeatureFlags
