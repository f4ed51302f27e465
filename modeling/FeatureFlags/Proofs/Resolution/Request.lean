import FeatureFlags.Dict.Lemmas
import FeatureFlags.Proofs.OrderedSet
import FeatureFlags.Proofs.Resolution.Monotone
import FeatureFlags.Proofs.Resolution.Selection

/-!
# Resolving requests in two parts

A request is first checked, and its flags are selected (`Snapshot.selection`). What
remains is to resolve the flags one by one. The records at hand matter for the second
part only, so a request that is refused is refused whatever is at hand, and two
requests that differ in their records are resolved on the same flags.

- `resolve_eq_error_iff`: a request fails exactly if it is refused (`Snapshot.Refuses`).
- `resolve_eq_resolved_iff`, `resolve_eq_missing_iff`: what an answer says about the
  findings on the selected flags.
-/

namespace FeatureFlags

/-- The client and the flags of a request, if it is not refused. -/
def Snapshot.selection (s : Snapshot) (config : Config) (request : ResolveRequest) :
    Except ResolveError (String × List Flag) :=
  match s.clientFor? request.clientSecret with
  | none => .error .invalidClientSecret
  | some client =>
    if config.maxFlags < request.flags.length then
      .error (.tooManyFlags request.flags.length config.maxFlags)
    else (s.selectFlags client request.flags).map fun flags => (client, flags)

namespace Snapshot

/-- Why a request is refused. -/
inductive Refuses (s : Snapshot) (config : Config) (request : ResolveRequest) :
    ResolveError → Prop where
  /-- Nobody has the secret. -/
  | invalidClientSecret (h : s.clientFor? request.clientSecret = none) :
      Refuses s config request .invalidClientSecret
  /-- It names more flags than are allowed. -/
  | tooManyFlags {client : String} (hclient : s.clientFor? request.clientSecret = some client)
      (h : config.maxFlags < request.flags.length) :
      Refuses s config request (.tooManyFlags request.flags.length config.maxFlags)
  /-- It names a flag that the client may not resolve, and this is the first one. -/
  | denied {client name : String} {before after : List String} {cause : ResolveError}
      (hclient : s.clientFor? request.clientSecret = some client)
      (hcount : request.flags.length ≤ config.maxFlags)
      (hflags : request.flags = before ++ name :: after)
      (hbefore : ∀ other ∈ before, ∃ f, s.Offers client other f)
      (h : s.Denies client name cause) : Refuses s config request cause

section Selection

variable {s : Snapshot} {config : Config} {request : ResolveRequest} {client : String}

/-- Where the client is known and does not ask for too many flags, selecting them is all. -/
theorem selection_eq_map (hclient : s.clientFor? request.clientSecret = some client)
    (hcount : request.flags.length ≤ config.maxFlags) :
    s.selection config request =
      (s.selectFlags client request.flags).map fun flags => (client, flags) := by
  rw [selection, hclient]
  exact if_neg (Nat.not_lt.mpr hcount)

theorem selection_eq_ok_iff {flags : List Flag} :
    s.selection config request = .ok (client, flags) ↔
      s.clientFor? request.clientSecret = some client ∧
        request.flags.length ≤ config.maxFlags ∧
          s.selectFlags client request.flags = .ok flags := by
  constructor
  · intro h
    unfold selection at h
    split at h
    · cases h
    · next client' hclient =>
      split at h
      · cases h
      · next hcount =>
        cases hflags : s.selectFlags client' request.flags with
        | error cause => rw [hflags] at h; cases h
        | ok flags' =>
          rw [hflags] at h
          cases h
          exact ⟨hclient, Nat.not_lt.mp hcount, hflags⟩
  · rintro ⟨hclient, hcount, hflags⟩
    rw [selection_eq_map hclient hcount, hflags]
    rfl

/-- A request is refused exactly for the reasons there are to refuse it. -/
theorem selection_eq_error_iff {cause : ResolveError} :
    s.selection config request = .error cause ↔ s.Refuses config request cause := by
  constructor
  · intro h
    unfold selection at h
    split at h
    · next hnone =>
      cases h
      exact .invalidClientSecret hnone
    · next client hclient =>
      split at h
      · next hcount =>
        cases h
        exact .tooManyFlags hclient hcount
      · next hcount =>
        cases hflags : s.selectFlags client request.flags with
        | ok flags => rw [hflags] at h; cases h
        | error cause' =>
          rw [hflags] at h
          cases h
          obtain ⟨before, name, after, hnames, hbefore, hdenies⟩ :=
            selectFlags_eq_error_iff.mp hflags
          exact .denied hclient (Nat.not_lt.mp hcount) hnames hbefore hdenies
  · intro h
    cases h with
    | invalidClientSecret hnone => rw [selection, hnone]
    | tooManyFlags hclient hcount =>
      rw [selection, hclient]
      exact if_pos hcount
    | denied hclient hcount hflags hbefore hdenies =>
      rw [selection_eq_map hclient hcount,
        selectFlags_eq_error_iff.mpr ⟨_, _, _, hflags, hbefore, hdenies⟩]
      rfl

/-- The flags of a request are flags of the snapshot. -/
theorem exists_get?_of_mem_selection {flags : List Flag}
    (h : s.selection config request = .ok (client, flags)) {f : Flag} (hf : f ∈ flags) :
    ∃ name, s.flags.get? name = some f := by
  obtain ⟨-, -, hflags⟩ := selection_eq_ok_iff.mp h
  obtain ⟨name, hfound, -⟩ := exists_offers_of_mem_selectFlags hflags hf
  exact ⟨name, hfound⟩

end Selection

end Snapshot

namespace ResolveRequest

/-- What the flags of the request are resolved against. -/
def input (request : ResolveRequest) (s : Snapshot) (config : Config) : ResolveInput :=
  { snapshot := s, config, context := request.context
    materializations := request.materializations }

/-- The same with other records at hand. -/
def holding (request : ResolveRequest) (m : Materializations) : ResolveRequest :=
  { request with materializations := m }

variable {request : ResolveRequest} {m : Materializations} {s : Snapshot} {config : Config}

@[simp] theorem selection_holding :
    s.selection config (request.holding m) = s.selection config request := rfl

end ResolveRequest

/-- The answer to a request from what has been found out about its flags. -/
def Findings.toOutcome (found : Findings) (s : Snapshot) (config : Config) (client : String)
    (request : ResolveRequest) (occasion : Occasion) : ResolveOutcome :=
  if found.missing.isEmpty then .resolved (found.toResolution s config client request occasion)
  else .missing (MissingRecord.distinct found.missing)

section Requests

variable {s : Snapshot} {config : Config} {request : ResolveRequest} {occasion : Occasion}

/-- A request is resolved by selecting its flags and resolving each of them. -/
theorem resolve_eq_map_selection (s : Snapshot) (config : Config) (request : ResolveRequest)
    (occasion : Occasion) :
    resolve s config request occasion = (s.selection config request).map fun selected =>
      (Findings.ofFlags (request.input s config) selected.2).toOutcome s config selected.1 request
        occasion := by
  unfold resolve Snapshot.selection
  cases s.clientFor? request.clientSecret with
  | none => rfl
  | some client =>
    dsimp only
    by_cases hcount : config.maxFlags < request.flags.length
    · rw [if_pos hcount, if_pos hcount]
      rfl
    · rw [if_neg hcount, if_neg hcount]
      cases s.selectFlags client request.flags with
      | error cause => rfl
      | ok flags =>
        exact (apply_ite Except.ok _ _ _).symm

theorem resolve_eq_ok_iff {outcome : ResolveOutcome} :
    resolve s config request occasion = .ok outcome ↔
      ∃ client flags, s.selection config request = .ok (client, flags) ∧
        (Findings.ofFlags (request.input s config) flags).toOutcome s config client request
          occasion = outcome := by
  rw [resolve_eq_map_selection]
  cases s.selection config request with
  | error cause => simp [Except.map]
  | ok selected =>
    obtain ⟨client, flags⟩ := selected
    constructor
    · intro h
      exact ⟨client, flags, rfl, Except.ok.inj h⟩
    · rintro ⟨_, _, ⟨rfl⟩, rfl⟩
      rfl

/-- Only a request that is refused fails. -/
theorem resolve_eq_error_iff {cause : ResolveError} :
    resolve s config request occasion = .error cause ↔ s.Refuses config request cause := by
  rw [resolve_eq_map_selection, ← Snapshot.selection_eq_error_iff]
  cases s.selection config request <;> simp [Except.map]

/-- A request is resolved if nothing is missing for its flags. -/
theorem resolve_eq_resolved_iff {resolution : Resolution} :
    resolve s config request occasion = .ok (.resolved resolution) ↔
      ∃ client flags, s.selection config request = .ok (client, flags) ∧
        (Findings.ofFlags (request.input s config) flags).missing = [] ∧
        (Findings.ofFlags (request.input s config) flags).toResolution s config client request
          occasion = resolution := by
  rw [resolve_eq_ok_iff]
  refine exists_congr fun client => exists_congr fun flags => and_congr_right fun _ => ?_
  unfold Findings.toOutcome
  split <;> simp_all

/-- A request lacks records if its flags do, and these are reported. -/
theorem resolve_eq_missing_iff {items : List MissingRecord} :
    resolve s config request occasion = .ok (.missing items) ↔
      ∃ client flags, s.selection config request = .ok (client, flags) ∧
        (Findings.ofFlags (request.input s config) flags).missing ≠ [] ∧
        MissingRecord.distinct (Findings.ofFlags (request.input s config) flags).missing =
          items := by
  rw [resolve_eq_ok_iff]
  refine exists_congr fun client => exists_congr fun flags => and_congr_right fun _ => ?_
  unfold Findings.toOutcome
  split <;> simp_all

end Requests

/-! ## What several flags add up to -/

namespace Findings

variable {input : ResolveInput} {flags : List Flag} {item : MissingRecord}

theorem mem_missing_ofFlag_iff {f : Flag} :
    item ∈ (ofFlag input f).missing ↔
      ∃ items, resolveFlag input f = .ok (.missing items) ∧ item ∈ items := by
  unfold ofFlag
  split <;> simp_all

/-- A record is missing if one of the flags reports it. -/
theorem mem_missing_ofFlags_iff :
    item ∈ (ofFlags input flags).missing ↔
      ∃ f ∈ flags, ∃ items, resolveFlag input f = .ok (.missing items) ∧ item ∈ items := by
  simp only [ofFlags, List.mem_flatMap, List.mem_map]
  constructor
  · rintro ⟨_, ⟨f, hf, rfl⟩, hitem⟩
    exact ⟨f, hf, mem_missing_ofFlag_iff.mp hitem⟩
  · rintro ⟨f, hf, hitem⟩
    exact ⟨_, ⟨f, hf, rfl⟩, mem_missing_ofFlag_iff.mpr hitem⟩

/-- Nothing is missing if no flag reports anything. -/
theorem missing_ofFlags_eq_nil_iff :
    (ofFlags input flags).missing = [] ↔
      ∀ f ∈ flags, ∀ items, resolveFlag input f ≠ .ok (.missing items) := by
  constructor
  · intro h f hf items hitems
    -- a report of a flag is never empty
    obtain ⟨-, -, -, hne⟩ := resolveFlag_eq_missing_iff.mp hitems
    obtain ⟨item, hitem⟩ := List.exists_mem_of_ne_nil items hne
    have : item ∈ (ofFlags input flags).missing :=
      mem_missing_ofFlags_iff.mpr ⟨f, hf, items, hitems, hitem⟩
    rw [h] at this
    cases this
  · intro h
    refine List.eq_nil_iff_forall_not_mem.mpr fun item hitem => ?_
    obtain ⟨f, hf, items, hitems, -⟩ := mem_missing_ofFlags_iff.mp hitem
    exact h f hf items hitems

/-- What is missing is what one of the rules reads, and is not at hand. -/
theorem get?_of_mem_missing (h : item ∈ (ofFlags input flags).missing) :
    input.materializations.get? item.unit item.materialization = none := by
  obtain ⟨f, -, items, hitems, hitem⟩ := mem_missing_ofFlags_iff.mp h
  obtain ⟨-, -, rfl, -⟩ := resolveFlag_eq_missing_iff.mp hitems
  obtain ⟨r, -, habsent⟩ := List.mem_filterMap.mp hitem
  exact (FlagRule.lookUp_eq_absent (FlagRule.absent?_eq_some_iff.mp habsent)).2.2.2

/-- A decision is to be remembered if one of the flags resolves to it. -/
theorem mem_updates_ofFlags_iff {u : StickyUpdate} :
    u ∈ (ofFlags input flags).updates ↔
      ∃ f ∈ flags, ∃ value, resolveFlag input f = .ok (.resolved value (some u)) := by
  have hflag : ∀ f, u ∈ (ofFlag input f).updates ↔
      ∃ value, resolveFlag input f = .ok (.resolved value (some u)) := by
    intro f
    unfold ofFlag
    split <;> simp_all
  simp only [ofFlags, List.mem_flatMap, List.mem_map]
  constructor
  · rintro ⟨_, ⟨f, hf, rfl⟩, hu⟩
    exact ⟨f, hf, (hflag f).mp hu⟩
  · rintro ⟨f, hf, hu⟩
    exact ⟨_, ⟨f, hf, rfl⟩, (hflag f).mpr hu⟩

/-- What is missing with more records at hand is missing with less. -/
theorem missing_mono {more : Materializations} (hle : input.materializations ≤ more) :
    (ofFlags (input.withRecords more) flags).missing ⊆ (ofFlags input flags).missing := by
  intro item hitem
  obtain ⟨f, hf, items, hitems, hmem⟩ := mem_missing_ofFlags_iff.mp hitem
  obtain ⟨items', hitems', hsub⟩ := resolveFlag_missing_mono hle hitems
  exact mem_missing_ofFlags_iff.mpr ⟨f, hf, items', hitems', hsub hmem⟩

end Findings

end FeatureFlags
