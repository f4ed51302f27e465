import FeatureFlags.Scalar.Kinds

/-!
# Values of one kind

`Scalar.OneKind` is what `Scalar.uniformKind` looks for. Everything that asks for one kind succeeds
exactly if it is given values of one kind and the rest of its work succeeds
(`Scalar.withUniformKind_eq_ok_iff`).
-/

namespace FeatureFlags.Scalar

/-- All values are of one kind; there may be none. -/
def OneKind (values : List Scalar) : Prop := ∀ x ∈ values, ∀ y ∈ values, x.kind = y.kind

variable {values others : List Scalar} {a b : Scalar}

theorem OneKind.mono (h : OneKind values) (hsub : others ⊆ values) : OneKind others :=
  fun x hx y hy => h x (hsub hx) y (hsub hy)

theorem oneKind_cons_iff : OneKind (a :: values) ↔ ∀ x ∈ values, x.kind = a.kind := by
  constructor
  · intro h x hx
    exact h x (List.mem_cons_of_mem a hx) a List.mem_cons_self
  · intro h
    -- every value has the kind of the first
    have hfirst : ∀ x ∈ a :: values, x.kind = a.kind := List.forall_mem_cons.mpr ⟨rfl, h⟩
    intro x hx y hy
    rw [hfirst x hx, hfirst y hy]

theorem oneKind_pair_iff : OneKind [a, b] ↔ a.kind = b.kind := by
  rw [oneKind_cons_iff, List.forall_mem_singleton]
  exact eq_comm

theorem oneKind_append_comm : OneKind (values ++ others) ↔ OneKind (others ++ values) := by
  constructor <;> intro h <;> refine h.mono fun x hx => ?_
  · exact List.mem_append.mpr (List.mem_append.mp hx).symm
  · exact List.mem_append.mpr (List.mem_append.mp hx).symm

/-- Values of one kind on both sides are of one kind together unless the kinds differ. -/
theorem oneKind_append_iff (hvalues : OneKind values) (hothers : OneKind others) :
    OneKind (values ++ others) ↔ ∀ x ∈ values, ∀ y ∈ others, x.kind = y.kind := by
  constructor
  · intro h x hx y hy
    exact h x (List.mem_append_left _ hx) y (List.mem_append_right _ hy)
  · intro h x hx y hy
    rcases List.mem_append.mp hx with hx | hx <;> rcases List.mem_append.mp hy with hy | hy
    · exact hvalues x hx y hy
    · exact h x hx y hy
    · exact (h y hy x hx).symm
    · exact hothers x hx y hy

theorem uniformKind_eq_ok_iff {kind : Option ScalarKind} :
    uniformKind values = .ok kind ↔ OneKind values ∧ kind = values.head?.map Scalar.kind := by
  cases values with
  | nil => simp [uniformKind, OneKind, eq_comm]
  | cons first rest =>
    rw [uniformKind, oneKind_cons_iff]
    cases hodd : rest.find? fun s => s.kind ≠ first.kind with
    | some odd =>
      have hmem := List.mem_of_find?_eq_some hodd
      have hne : odd.kind ≠ first.kind := by simpa using List.find?_some hodd
      simp only [reduceCtorEq, false_iff, not_and]
      exact fun h => absurd (h odd hmem) hne
    | none =>
      have hall : ∀ x ∈ rest, x.kind = first.kind := by simpa using hodd
      simp only [Except.ok.injEq, List.head?_cons, Option.map_some]
      exact ⟨fun h => ⟨hall, h.symm⟩, fun h => h.2.symm⟩

/-- A value of the kind that was found fits in. -/
theorem oneKind_cons_of_uniformKind (h : uniformKind values = .ok (some a.kind)) :
    OneKind (a :: values) := by
  obtain ⟨hone, hfirst⟩ := uniformKind_eq_ok_iff.mp h
  obtain ⟨first, hhead, hkind⟩ := Option.map_eq_some_iff.mp hfirst.symm
  rw [oneKind_cons_iff, ← hkind]
  exact fun x hx => hone x hx first (List.mem_of_head? hhead)

theorem exists_uniformKind_iff : (∃ kind, uniformKind values = .ok kind) ↔ OneKind values := by
  simp only [uniformKind_eq_ok_iff, exists_and_left, exists_eq, and_true]

theorem withUniformKind_eq_ok_iff {α : Type} {body : Except KindMismatch α} {result : α} :
    withUniformKind values body = .ok result ↔ OneKind values ∧ body = .ok result := by
  rw [withUniformKind, ← exists_uniformKind_iff]
  cases uniformKind values <;> simp

theorem withUniformKind_of_oneKind {α : Type} (h : OneKind values) (body : Except KindMismatch α) :
    withUniformKind values body = body := by
  obtain ⟨kind, hkind⟩ := exists_uniformKind_iff.mpr h
  rw [withUniformKind, hkind]

/-- Values of two kinds are refused, whatever is to be done with them. -/
theorem exists_withUniformKind_eq_error (h : ¬ OneKind values) :
    ∃ cause, ∀ {α : Type} (body : Except KindMismatch α),
      withUniformKind values body = .error cause := by
  cases hkind : uniformKind values with
  | ok kind => exact absurd (exists_uniformKind_iff.mp ⟨kind, hkind⟩) h
  | error cause =>
    refine ⟨cause, ?_⟩
    intro α body
    rw [withUniformKind, hkind]

end FeatureFlags.Scalar
