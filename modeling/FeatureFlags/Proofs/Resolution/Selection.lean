import FeatureFlags.Dict.Lemmas
import FeatureFlags.Resolution.Batch
import Mathlib.Data.List.Forall2
import Mathlib.Data.List.Sort

/-!
# Selecting the flags of a request

`Snapshot.Selects` says which flags a request is resolved on: those that it names, in its order
and as often as it names them, or all that the client may resolve, by ascending name. Selecting
fails because of the first name of which there is no such flag (`Snapshot.Denies`).

`Snapshot.selectFlags_eq_ok_iff` and `Snapshot.selectFlags_eq_error_iff` say that this is what
selecting does.
-/

namespace FeatureFlags

/-- What stands on the right is there because of something on the left. -/
theorem exists_of_mem_forall₂ {α β : Type} {R : α → β → Prop} {as : List α} {bs : List β}
    (h : List.Forall₂ R as bs) {b : β} (hb : b ∈ bs) : ∃ a ∈ as, R a b := by
  induction h with
  | nil => cases hb
  | cons hhead _ ih =>
    rcases List.mem_cons.mp hb with rfl | hb
    · exact ⟨_, List.mem_cons_self, hhead⟩
    · obtain ⟨a, ha, hab⟩ := ih hb
      exact ⟨a, List.mem_cons_of_mem _ ha, hab⟩

namespace Snapshot

/-- There is a flag under the name, and the client may resolve it. -/
def Offers (s : Snapshot) (client name : String) (f : Flag) : Prop :=
  s.flags.get? name = some f ∧ f.isAvailableTo client = true

/-- Why the client may not resolve a flag. -/
inductive Denies (s : Snapshot) (client name : String) : ResolveError → Prop where
  /-- There is none under the name. -/
  | notFound (h : s.flags.get? name = none) : Denies s client name (.flagNotFound name)
  /-- It is not for the client. -/
  | notEligible {f : Flag} (hfound : s.flags.get? name = some f)
      (h : f.isAvailableTo client = false) : Denies s client name (.flagNotEligible name client)

/-- The flags that a client asks for by names. -/
inductive Selects (s : Snapshot) (client : String) : List String → List Flag → Prop where
  /-- The flag of each name, at the position of the name. -/
  | named {names : List String} {flags : List Flag} (hne : names ≠ [])
      (h : List.Forall₂ (s.Offers client) names flags) : Selects s client names flags
  /-- Where there are no names, all flags that the client may resolve, by ascending name. -/
  | all {flags : List Flag} (horder : flags.Pairwise fun f g => f.name < g.name)
      (hmem : ∀ f, f ∈ flags ↔ ∃ name, s.Offers client name f) : Selects s client [] flags

variable {s : Snapshot} {client name : String} {f : Flag} {names : List String} {flags : List Flag}
  {cause : ResolveError}

/-- What is selected depends on the flags that the client may resolve, and on no others. -/
theorem Selects.of_offers_iff {s' : Snapshot}
    (hoffers : ∀ name f, s'.Offers client name f ↔ s.Offers client name f)
    (h : s.Selects client names flags) : s'.Selects client names flags := by
  cases h with
  | named hne h => exact .named hne (h.imp fun name f => (hoffers name f).mpr)
  | all horder hmem =>
    exact .all horder fun f => (hmem f).trans (exists_congr fun name => (hoffers name f).symm)

theorem Denies.not_offers (h : s.Denies client name cause) : ¬ s.Offers client name f := by
  rintro ⟨hfound, havailable⟩
  cases h with
  | notFound hnone => rw [hnone] at hfound; cases hfound
  | notEligible hfound' hnot =>
    rw [hfound'] at hfound
    cases hfound
    rw [hnot] at havailable
    cases havailable

/-- A flag is offered under a name, or there is a reason why not. -/
theorem offers_or_denies (s : Snapshot) (client name : String) :
    (∃ f, s.Offers client name f) ∨ ∃ cause, s.Denies client name cause := by
  cases hfound : s.flags.get? name with
  | none => exact .inr ⟨_, .notFound hfound⟩
  | some f =>
    cases havailable : f.isAvailableTo client with
    | true => exact .inl ⟨f, hfound, havailable⟩
    | false => exact .inr ⟨_, .notEligible hfound havailable⟩

/-! ## By names -/

theorem namedFlags_cons_of_offers (h : s.Offers client name f) (rest : List String) :
    s.namedFlags client (name :: rest) = (s.namedFlags client rest).map (f :: ·) := by
  rw [namedFlags, h.1]
  exact if_pos h.2

theorem namedFlags_cons_of_denies (h : s.Denies client name cause) (rest : List String) :
    s.namedFlags client (name :: rest) = .error cause := by
  rw [namedFlags]
  cases h with
  | notFound hnone => rw [hnone]
  | notEligible hfound hnot =>
    rw [hfound]
    exact if_neg (Bool.eq_false_iff.mp hnot)

theorem namedFlags_eq_ok_iff :
    s.namedFlags client names = .ok flags ↔ List.Forall₂ (s.Offers client) names flags := by
  induction names generalizing flags with
  | nil =>
    rw [namedFlags, List.forall₂_nil_left_iff, Except.ok.injEq]
    exact eq_comm
  | cons name rest ih =>
    rw [List.forall₂_cons_left_iff]
    rcases s.offers_or_denies client name with ⟨f, hoffers⟩ | ⟨cause, hdenies⟩
    · rw [namedFlags_cons_of_offers hoffers]
      constructor
      · intro h
        cases hrest : s.namedFlags client rest with
        | error cause => rw [hrest] at h; cases h
        | ok others =>
          rw [hrest] at h
          exact ⟨f, others, hoffers, ih.mp hrest, (Except.ok.inj h).symm⟩
      · rintro ⟨f', others, hoffers', hothers, rfl⟩
        have hsame : f = f' := Option.some.inj (hoffers.1.symm.trans hoffers'.1)
        rw [ih.mpr hothers, hsame]
        rfl
    · rw [namedFlags_cons_of_denies hdenies]
      constructor
      · intro h
        cases h
      · rintro ⟨f, others, hoffers, -, -⟩
        exact absurd hoffers hdenies.not_offers

/-- Selecting by names fails because of the first name of which there is no flag for the client. -/
theorem namedFlags_eq_error_iff :
    s.namedFlags client names = .error cause ↔
      ∃ before name after, names = before ++ name :: after ∧
        (∀ other ∈ before, ∃ f, s.Offers client other f) ∧ s.Denies client name cause := by
  induction names with
  | nil =>
    constructor
    · intro h
      cases h
    · rintro ⟨before, name, after, hnames, -⟩
      cases before <;> cases hnames
  | cons name rest ih =>
    rcases s.offers_or_denies client name with ⟨f, hoffers⟩ | ⟨cause', hdenies⟩
    · have hrest : s.namedFlags client (name :: rest) = .error cause ↔
          s.namedFlags client rest = .error cause := by
        rw [namedFlags_cons_of_offers hoffers]
        cases s.namedFlags client rest <;> simp [Except.map]
      rw [hrest, ih]
      constructor
      · rintro ⟨before, other, after, rfl, hbefore, hother⟩
        exact ⟨name :: before, other, after, rfl,
          List.forall_mem_cons.mpr ⟨⟨f, hoffers⟩, hbefore⟩, hother⟩
      · rintro ⟨_ | ⟨first, before⟩, other, after, hnames, hbefore, hother⟩
        · cases hnames
          exact absurd hoffers hother.not_offers
        · cases hnames
          exact ⟨before, other, after, rfl, (List.forall_mem_cons.mp hbefore).2, hother⟩
    · rw [namedFlags_cons_of_denies hdenies]
      constructor
      · rintro ⟨⟩
        exact ⟨[], name, rest, rfl, List.forall_mem_nil _, hdenies⟩
      · rintro ⟨_ | ⟨first, before⟩, other, after, hnames, hbefore, hother⟩
        · cases hnames
          rw [← namedFlags_cons_of_denies hdenies [], namedFlags_cons_of_denies hother]
        · cases hnames
          obtain ⟨f, hoffers⟩ := (List.forall_mem_cons.mp hbefore).1
          exact absurd hoffers hdenies.not_offers

/-! ## By names or all -/

theorem selectFlags_of_ne_nil (h : names ≠ []) :
    s.selectFlags client names = s.namedFlags client names :=
  if_neg fun hempty => h (List.isEmpty_iff.mp hempty)

/-- Where no flag is named, these are selected. -/
theorem mem_selectFlags_nil_iff (h : s.selectFlags client [] = .ok flags) :
    f ∈ flags ↔ ∃ name, s.Offers client name f := by
  cases h
  rw [List.mem_filter, List.mem_map]
  constructor
  · rintro ⟨⟨⟨name, _⟩, hentry, rfl⟩, havailable⟩
    exact ⟨name, (Dict.get?_eq_some_iff _).mpr hentry, havailable⟩
  · rintro ⟨name, hfound, havailable⟩
    exact ⟨⟨(name, f), (Dict.get?_eq_some_iff _).mp hfound, rfl⟩, havailable⟩

/-- Only flags that the client may resolve are selected. -/
theorem exists_offers_of_mem_selectFlags (h : s.selectFlags client names = .ok flags)
    (hf : f ∈ flags) : ∃ name, s.Offers client name f := by
  by_cases hne : names = []
  · subst hne
    exact (mem_selectFlags_nil_iff h).mp hf
  · rw [selectFlags_of_ne_nil hne, namedFlags_eq_ok_iff] at h
    obtain ⟨name, -, hoffers⟩ := exists_of_mem_forall₂ h hf
    exact ⟨name, hoffers⟩

/-- Selecting fails because of a name only. -/
theorem selectFlags_eq_error_iff :
    s.selectFlags client names = .error cause ↔
      ∃ before name after, names = before ++ name :: after ∧
        (∀ other ∈ before, ∃ f, s.Offers client other f) ∧ s.Denies client name cause := by
  rw [← namedFlags_eq_error_iff]
  by_cases hne : names = []
  · subst hne
    constructor <;> intro h <;> cases h
  · rw [selectFlags_of_ne_nil hne]

/-- There is one way to list flags by ascending name. -/
theorem eq_of_ascending_names {flags' : List Flag} (h : flags.Pairwise fun f g => f.name < g.name)
    (h' : flags'.Pairwise fun f g => f.name < g.name) (hmem : ∀ f, f ∈ flags ↔ f ∈ flags') :
    flags = flags' := by
  have hirrefl : Std.Irrefl fun f g : Flag => f.name < g.name := ⟨fun f => String.lt_irrefl f.name⟩
  have hantisymm : Std.Antisymm fun f g : Flag => f.name < g.name :=
    ⟨fun _ _ hlt hgt => absurd hgt (String.lt_asymm hlt)⟩
  exact h.eq_of_mem_iff h' hmem

/-- Where every flag is found under its own name, the flags are selected that are meant to be. -/
theorem selectFlags_eq_ok_iff (hnames : ∀ {name f}, s.flags.get? name = some f → f.name = name) :
    s.selectFlags client names = .ok flags ↔ s.Selects client names flags := by
  have horder : (s.flags.toList.map (·.2)).Pairwise fun f g => f.name < g.name := by
    rw [List.pairwise_map]
    refine s.flags.ascending.imp_of_mem fun {a b} ha hb hlt => ?_
    rwa [hnames ((Dict.get?_eq_some_iff _).mpr ha), hnames ((Dict.get?_eq_some_iff _).mpr hb)]
  by_cases hne : names = []
  · subst hne
    constructor
    · intro h
      refine .all ?_ fun f => mem_selectFlags_nil_iff h
      cases h
      exact horder.filter _
    · intro h
      cases h with
      | named hne => exact absurd rfl hne
      | all horder' hmem =>
        have hall : s.selectFlags client [] = .ok _ := rfl
        rw [hall, eq_of_ascending_names (horder.filter _) horder' fun f =>
          (mem_selectFlags_nil_iff hall).trans (hmem f).symm]
  · rw [selectFlags_of_ne_nil hne, namedFlags_eq_ok_iff]
    constructor
    · exact .named hne
    · intro h
      cases h with
      | named _ h => exact h
      | all => exact absurd rfl hne

/-- No more than one list of flags is selected. -/
theorem Selects.unique (hnames : ∀ {name f}, s.flags.get? name = some f → f.name = name)
    {flags' : List Flag} (h : s.Selects client names flags) (h' : s.Selects client names flags') :
    flags' = flags := by
  have hflags := (selectFlags_eq_ok_iff hnames).mpr h
  have hflags' := (selectFlags_eq_ok_iff hnames).mpr h'
  exact Except.ok.inj (hflags'.symm.trans hflags)

end Snapshot

end FeatureFlags
