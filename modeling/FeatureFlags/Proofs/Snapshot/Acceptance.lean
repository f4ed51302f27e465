import FeatureFlags.Proofs.Flag.Conformance
import FeatureFlags.Proofs.Flag.Partition
import FeatureFlags.Proofs.Resolution.Failures
import FeatureFlags.Proofs.Snapshot.Checked
import FeatureFlags.Proofs.Snapshot.Evaluation
import FeatureFlags.Proofs.Targeting.Conflicts

/-!
# Which configurations are accepted

`SnapshotInput.WellFormed` says what a configuration has to satisfy, part by part and with nothing
of the order in which the parts are checked. `Snapshot.build_accepts_well_formed`: a snapshot is
built exactly from a well-formed configuration, its look-ups find what was delivered
(`Snapshot.Faithful`), and the order in which flags and segments were delivered does not matter.

Each check is told by an iff of its own (`checkSegment_eq_ok_iff_wellFormed`,
`checkPopulation_eq_ok_iff`, `exists_expandFlag_iff`), and gathering fails for nothing but a name
that is not new. Order does not matter because a dictionary is nothing but its look-ups, and these
ask for membership in what was delivered only.
-/

namespace FeatureFlags

/-- What the targeting of a segment has to satisfy, where segments of the given names exist. -/
structure Segment.WellFormed (s : Segment) (names : List String) : Prop where
  /-- Every name in the expression has a criterion. -/
  references : ∀ ref ∈ s.targeting.expression.mentions,
    ∃ criterion, s.targeting.criteria.get? ref = some criterion
  /-- Every rule on an attribute, be it referred to or not, has values of one kind, if it has any,
  and at most one quantifier. -/
  rules : ∀ ref path rule, s.targeting.criteria.get? ref = some (.onAttribute path rule) →
    Scalar.OneKind rule.condition.values ∧ rule.quantifiers ≤ 1
  /-- Every segment that a criterion names exists. -/
  targets : ∀ ref target, s.targeting.criteria.get? ref = some (.inSegment target) →
    target ∈ names

/-- What a flag has to satisfy. -/
structure Flag.WellFormed (f : Flag) : Prop where
  /-- The buckets of every rule are divided. -/
  allocations : ∀ r ∈ f.rules, r.allocation.Sound
  /-- Every variant that is assigned is defined. -/
  variants : ∀ r ∈ f.rules, ∀ a ∈ r.allocation.assignments, ∀ name, a.kind = .variant name →
    name ∈ f.variants.map (·.name)
  /-- The value of every variant is one of the schema. -/
  values : ∀ v ∈ f.variants, f.schema.Conforms v.value

/-- What a configuration has to satisfy. -/
structure SnapshotInput.WellFormed (input : SnapshotInput) : Prop where
  segmentNames : (input.segments.map (·.name)).Nodup
  flagNames : (input.flags.map (·.name)).Nodup
  segments : ∀ s ∈ input.segments, s.WellFormed (input.segments.map (·.name))
  /-- A population that is not full has one bit for each of a million buckets. -/
  populations : ∀ name bytes, input.populations.get? name = some (.sample bytes) →
    bytes.size = 125000
  flags : ∀ f ∈ input.flags, f.WellFormed

/-- The flag as delivered but for the values of its variants, which are filled in by its schema. -/
def Flag.FilledIn (delivered f : Flag) : Prop :=
  ∃ variants, f = { delivered with variants } ∧
    List.Forall₂ (fun given v => v.name = given.name ∧
      delivered.schema.expand given.value = .ok v.value) delivered.variants variants

/-- Look-ups in the snapshot find what was delivered under the name, and nothing else. -/
structure Snapshot.Faithful (s : Snapshot) (input : SnapshotInput) : Prop where
  flags : ∀ delivered ∈ input.flags, ∃ f, s.flags.get? delivered.name = some f ∧
    delivered.FilledIn f
  flagNames : ∀ name f, s.flags.get? name = some f → name ∈ input.flags.map (·.name)
  segments : ∀ name segment, s.segments.get? name = some segment ↔
    segment ∈ input.segments ∧ segment.name = name
  populations : ∀ name, s.populations.get? name = input.populations.get? name

namespace Snapshot

variable {input : SnapshotInput} {s : Snapshot}

/-! ## Segments and populations -/

theorem checkSegment_eq_ok_iff_wellFormed {segments : Dict Segment} {segment : Segment}
    {names : List String} (hnames : ∀ name, segments.contains name = true ↔ name ∈ names) :
    checkSegment segments segment = .ok () ↔ segment.WellFormed names := by
  simp only [checkSegment_eq_ok_iff, Expr.mem_refs_iff, AttributeRule.validate_eq_ok_iff, hnames]
  constructor
  · rintro ⟨hreferences, hrules, htargets⟩
    exact ⟨hreferences, hrules, htargets⟩
  · rintro ⟨hreferences, hrules, htargets⟩
    exact ⟨hreferences, hrules, htargets⟩

theorem checkPopulation_eq_ok_iff {name : String} {population : Population} :
    checkPopulation (name, population) = .ok () ↔
      ∀ bytes, population = .sample bytes → bytes.size = 125000 := by
  cases population with
  | full => simp [checkPopulation]
  | sample bytes =>
    have hcount : Population.byteCount = 125000 := rfl
    by_cases hsize : bytes.size = 125000 <;>
      simp [checkPopulation, Population.isWellFormed, hcount, hsize]

/-! ## Flags -/

theorem exists_expandVariants_iff {f : Flag} {variants : List Variant} :
    (∃ expanded, expandVariants f variants = .ok expanded) ↔
      ∀ v ∈ variants, f.schema.Conforms v.value := by
  induction variants with
  | nil => simp [expandVariants]
  | cons v rest ih =>
    rw [List.forall_mem_cons, ← ih, ← Schema.exists_expand_iff, expandVariants]
    cases f.schema.expand v.value with
    | error cause => simp
    | ok value =>
      rw [exists_bind_eq_ok_iff, and_iff_right ⟨value, rfl⟩]
      exact exists_congr fun others => and_iff_left ⟨_, rfl⟩

theorem mem_variantNames_iff {r : FlagRule} {name : String} :
    name ∈ r.variantNames ↔ ∃ a ∈ r.allocation.assignments, a.kind = .variant name := by
  rw [FlagRule.variantNames, List.mem_filterMap]
  refine exists_congr fun a => and_congr_right fun _ => ?_
  cases a.kind <;> simp

theorem exists_expandFlag_iff {f : Flag} :
    (∃ expanded, expandFlag f = .ok expanded) ↔ f.WellFormed := by
  have hrules : (∀ r ∈ f.rules, checkRule f r = .ok ()) ↔ ∀ r ∈ f.rules, r.allocation.Sound ∧
      ∀ a ∈ r.allocation.assignments, ∀ name, a.kind = .variant name →
        name ∈ f.variants.map (·.name) := by
    refine forall₂_congr fun r _ => ?_
    rw [checkRule_eq_ok_iff, Allocation.error?_eq_none_iff]
    simp only [Flag.isSome_variant?_iff, mem_variantNames_iff]
    grind
  constructor
  · rintro ⟨expanded, h⟩
    obtain ⟨hchecked, variants, hvariants, -⟩ := expandFlag_eq_ok_iff.mp h
    have hchecked := hrules.mp hchecked
    exact ⟨fun r hr => (hchecked r hr).1, fun r hr => (hchecked r hr).2,
      exists_expandVariants_iff.mp ⟨variants, hvariants⟩⟩
  · rintro ⟨hallocations, hvariants, hvalues⟩
    obtain ⟨variants, hexpanded⟩ := exists_expandVariants_iff.mpr hvalues
    exact ⟨_, expandFlag_eq_ok_iff.mpr
      ⟨hrules.mpr fun r hr => ⟨hallocations r hr, hvariants r hr⟩, variants, hexpanded, rfl⟩⟩

theorem filledIn_of_expandFlag {delivered f : Flag} (h : expandFlag delivered = .ok f) :
    delivered.FilledIn f := by
  obtain ⟨-, variants, hvariants, rfl⟩ := expandFlag_eq_ok_iff.mp h
  exact ⟨variants, rfl, forall₂_expandVariants hvariants⟩

/-! ## Configurations -/

/-- A snapshot is built exactly if segments and flags can be gathered and every check passes. -/
theorem exists_build_iff :
    (∃ s, build input = .ok s) ↔
      ∃ segments, GathersTo input segments ∧
        checkAll (checkSegment segments) (segments.toList.map (·.2)) = .ok () ∧
        checkAll checkPopulation input.populations.toList = .ok () ∧
        ∃ flags, gatherFlags .empty input.flags = .ok flags := by
  simp only [build, buildIn, exists_bind_eq_ok_iff, GathersTo]
  refine exists_congr fun segments => and_congr_right fun _ => ?_
  constructor
  · rintro ⟨⟨⟩, hsegments, ⟨⟩, hpopulations, flags, hflags, -⟩
    exact ⟨hsegments, hpopulations, flags, hflags⟩
  · rintro ⟨hsegments, hpopulations, flags, hflags⟩
    exact ⟨(), hsegments, (), hpopulations, flags, hflags, _, rfl⟩

theorem GathersTo.contains_iff {segments : Dict Segment} (h : GathersTo input segments)
    (name : String) :
    segments.contains name = true ↔ name ∈ input.segments.map (·.name) := by
  rw [Dict.contains, Option.isSome_iff_exists, List.mem_map]
  exact exists_congr fun segment => h.get?_iff

theorem exists_build_iff_wellFormed : (∃ s, build input = .ok s) ↔ input.WellFormed := by
  have hpopulations : checkAll checkPopulation input.populations.toList = .ok () ↔
      ∀ name bytes, input.populations.get? name = some (.sample bytes) → bytes.size = 125000 := by
    simp only [checkAll_eq_ok_iff, Prod.forall, ← Dict.get?_eq_some_iff, checkPopulation_eq_ok_iff]
    grind
  have hflags : (∃ flags, gatherFlags .empty input.flags = .ok flags) ↔
      (input.flags.map (·.name)).Nodup ∧ ∀ f ∈ input.flags, f.WellFormed := by
    simp only [exists_gatherFlags_iff, Dict.fresh_empty_iff, exists_expandFlag_iff]
  have hnames : (∃ segments, GathersTo input segments) ↔
      (input.segments.map (·.name)).Nodup :=
    exists_gather_iff.trans Dict.fresh_empty_iff
  -- which segments exist is known once they have been gathered
  have hsegments : ∀ segments, GathersTo input segments →
      (checkAll (checkSegment segments) (segments.toList.map (·.2)) = .ok () ↔
        ∀ s ∈ input.segments, s.WellFormed (input.segments.map (·.name))) := by
    intro segments h
    simp only [checkAll_eq_ok_iff, List.forall_mem_map, Prod.forall, ← Dict.get?_eq_some_iff,
      h.get?_iff, checkSegment_eq_ok_iff_wellFormed h.contains_iff]
    exact ⟨fun hall s hs => hall _ s ⟨hs, rfl⟩, fun hall _ s hs => hall s hs.1⟩
  rw [exists_build_iff]
  constructor
  · rintro ⟨segments, hgather, hchecked, hsizes, hgathered⟩
    obtain ⟨hnodup, hwell⟩ := hflags.mp hgathered
    exact ⟨hnames.mp ⟨segments, hgather⟩, hnodup, (hsegments segments hgather).mp hchecked,
      hpopulations.mp hsizes, hwell⟩
  · rintro ⟨hnodup, hnodup', hwell, hsizes, hwell'⟩
    obtain ⟨segments, hgather⟩ := hnames.mpr hnodup
    exact ⟨segments, hgather, (hsegments segments hgather).mpr hwell, hpopulations.mpr hsizes,
      hflags.mpr ⟨hnodup', hwell'⟩⟩

theorem faithful_of_build (h : build input = .ok s) : s.Faithful input := by
  have hbuilt := builtFrom_of_build h
  have hwell := exists_build_iff_wellFormed.mp ⟨s, h⟩
  refine
    { flags := fun delivered hdelivered => ?_
      flagNames := fun name f hfound => ?_
      segments := fun name segment => GathersTo.get?_iff hbuilt.segments
      populations := fun name => by rw [hbuilt.populations] }
  · obtain ⟨f, hexpand⟩ := exists_expandFlag_iff.mpr (hwell.flags delivered hdelivered)
    exact ⟨f, hbuilt.get?_flags_iff.mpr ⟨delivered, hdelivered, rfl, hexpand⟩,
      filledIn_of_expandFlag hexpand⟩
  · obtain ⟨delivered, hdelivered, hname, -⟩ := hbuilt.get?_flags_iff.mp hfound
    exact List.mem_map.mpr ⟨delivered, hdelivered, hname⟩

/-! ## Order -/

section Order

variable {flags : List Flag} {segments : List Segment}

theorem wellFormed_of_perm (hflags : flags.Perm input.flags)
    (hsegments : segments.Perm input.segments) (h : input.WellFormed) :
    { input with flags, segments }.WellFormed := by
  -- of the names of the segments only membership counts
  have hnames : ∀ {s : Segment}, s.WellFormed (input.segments.map (·.name)) →
      s.WellFormed (segments.map (·.name)) := by
    rintro s ⟨hreferences, hrules, htargets⟩
    refine ⟨hreferences, hrules, fun ref target hcriterion => ?_⟩
    exact (hsegments.map _).mem_iff.mpr (htargets ref target hcriterion)
  exact
    { segmentNames := (hsegments.map _).nodup_iff.mpr h.segmentNames
      flagNames := (hflags.map _).nodup_iff.mpr h.flagNames
      segments := fun s hs => hnames (h.segments s (hsegments.mem_iff.mp hs))
      populations := h.populations
      flags := fun f hf => h.flags f (hflags.mem_iff.mp hf) }

theorem eq_of_perm (hflags : flags.Perm input.flags) (hsegments : segments.Perm input.segments)
    {s' : Snapshot} (h : build input = .ok s) (h' : build { input with flags, segments } = .ok s') :
    s' = { s with fingerprint := s'.fingerprint } := by
  have hs := builtFrom_of_build h
  have hs' := builtFrom_of_build h'
  -- both dictionaries have the look-ups that membership in the lists tells
  have hsegments : s'.segments = s.segments := by
    ext name segment
    rw [GathersTo.get?_iff hs'.segments, GathersTo.get?_iff hs.segments, hsegments.mem_iff]
  have hflags : s'.flags = s.flags := by
    ext name f
    rw [hs'.get?_flags_iff, hs.get?_flags_iff]
    simp only [hflags.mem_iff]
  have haccount : s'.account = s.account := hs'.account.trans hs.account.symm
  have hpopulations : s'.populations = s.populations :=
    hs'.populations.trans hs.populations.symm
  have hexpressions : s'.expressions = s.expressions := by
    rw [hs'.expressions, hs.expressions, hsegments]
  have hclients : s'.clients = s.clients := hs'.clients.trans hs.clients.symm
  rw [← haccount, ← hflags, ← hsegments, ← hpopulations, ← hexpressions, ← hclients]

end Order

/-- **Building accepts well-formed configurations**: a snapshot is built exactly from these; its
look-ups are those of the configuration; and in another order of flags and segments the
configuration gives a snapshot exactly if it did before, the same but for its fingerprint. -/
theorem build_accepts_well_formed (input : SnapshotInput) :
    ((∃ s, build input = .ok s) ↔ input.WellFormed) ∧
      (∀ s, build input = .ok s → s.Faithful input) ∧
      ∀ flags segments, flags.Perm input.flags → segments.Perm input.segments →
        ((∃ s', build { input with flags, segments } = .ok s') ↔ ∃ s, build input = .ok s) ∧
          ∀ s s', build input = .ok s → build { input with flags, segments } = .ok s' →
            s' = { s with fingerprint := s'.fingerprint } := by
  refine ⟨exists_build_iff_wellFormed, fun s => faithful_of_build, ?_⟩
  intro flags segments hflags hsegments
  refine ⟨?_, fun s s' => eq_of_perm hflags hsegments⟩
  rw [exists_build_iff_wellFormed, exists_build_iff_wellFormed]
  exact ⟨wellFormed_of_perm hflags.symm hsegments.symm, wellFormed_of_perm hflags hsegments⟩

end Snapshot

/-- A flag is found as delivered, and segments may be delivered before those that they refer to or
behind them. -/
theorem Rollout.configuration_accepted :
    configuration.WellFormed ∧
      Snapshot.Faithful { snapshot with fingerprint := configuration.fingerprint } configuration ∧
      ∃ s, Snapshot.build { Audience.shared with segments := Audience.shared.segments.reverse } =
        .ok s := by
  obtain ⟨haccepts, hfaithful, -⟩ := Snapshot.build_accepts_well_formed configuration
  obtain ⟨-, -, horder⟩ := Snapshot.build_accepts_well_formed Audience.shared
  refine ⟨haccepts.mp ⟨_, build_configuration⟩, hfaithful _ build_configuration, ?_⟩
  have hreversed := horder [] Audience.shared.segments.reverse (.refl _) (List.reverse_perm _)
  exact hreversed.1.mpr ⟨_, Audience.build_shared⟩

end FeatureFlags
