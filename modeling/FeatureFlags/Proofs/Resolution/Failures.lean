import FeatureFlags.Proofs.Resolution.LongUnits
import FeatureFlags.Proofs.Snapshot.Circles

/-!
# What can go wrong within a flag

Resolving has branches for rules without buckets, for variants that the flag does not define,
for segments that do not exist and for names without criterion. In a snapshot that was built none
of them is ever taken: a flag fails only because a unit is too long or because segments refer to
each other in a circle (`Snapshot.fails_only_on_long_unit_or_circle`).

- `FlagRule.Sound` is what the checks say of a rule, and `FlagRule.BucketDecides` what the bucket
  of a unit then leads to.
-/

namespace FeatureFlags

theorem Allocation.bucketCount_ne_zero {a : Allocation} (h : a.error? = none) :
    a.bucketCount ≠ 0 := by
  intro hzero
  rw [error?, if_pos hzero] at h
  cases h

/-! ## Sound rules -/

namespace FlagRule

/-- The rule has buckets, and gives only variants that the flag defines. -/
structure Sound (f : Flag) (r : FlagRule) : Prop where
  buckets : r.allocation.bucketCount ≠ 0
  variants : ∀ name ∈ r.variantNames, (f.variant? name).isSome = true

variable {input : ResolveInput} {f : Flag} {r : FlagRule} {unit : String}

theorem mem_variantNames {a : Assignment} {name : String} (ha : a ∈ r.allocation.assignments)
    (hkind : a.kind = .variant name) : name ∈ r.variantNames := by
  refine List.mem_filterMap.mpr ⟨a, ha, ?_⟩
  rw [hkind]

/-- What the bucket of a unit leads to. -/
inductive BucketDecides (f : Flag) (r : FlagRule) (unit : String) : Verdict → Prop where
  /-- No assignment has the bucket. -/
  | untreated {bucket : Nat}
      (hbucket : Bucket.of? unit r.segment r.allocation.bucketCount = some bucket)
      (hnone : r.allocation.assignmentFor? bucket = none) : BucketDecides f r unit .untreated
  /-- The decision is left to later rules. -/
  | fallthrough {bucket : Nat} {a : Assignment}
      (hbucket : Bucket.of? unit r.segment r.allocation.bucketCount = some bucket)
      (hassigned : r.allocation.assignmentFor? bucket = some a) (hkind : a.kind = .fallthrough) :
      BucketDecides f r unit (.fallthrough { rule := r.name, assignmentId := a.id, unit })
  /-- The client uses its own default. -/
  | clientDefault {bucket : Nat} {a : Assignment}
      (hbucket : Bucket.of? unit r.segment r.allocation.bucketCount = some bucket)
      (hassigned : r.allocation.assignmentFor? bucket = some a) (hkind : a.kind = .clientDefault) :
      BucketDecides f r unit (.decided (r.assignmentMatch unit a.id none) none)
  /-- The unit gets a variant of the flag. -/
  | variant {bucket : Nat} {a : Assignment} {name : String} {v : Variant}
      (hbucket : Bucket.of? unit r.segment r.allocation.bucketCount = some bucket)
      (hassigned : r.allocation.assignmentFor? bucket = some a) (hkind : a.kind = .variant name)
      (hdefined : f.variant? name = some v) :
      BucketDecides f r unit (.decided (r.assignmentMatch unit a.id (some v))
        (r.writeMaterialization?.map (r.stickyUpdate unit v.name)))

/-- Under a sound rule every unit has a bucket, and the bucket leads to no failure. -/
theorem Sound.bucketDecides (h : r.Sound f) (unit : String) :
    BucketDecides f r unit (r.byBucket f unit) := by
  have hbucket : Bucket.of? unit r.segment r.allocation.bucketCount =
      some (Bucket.digest unit r.segment % r.allocation.bucketCount) := if_neg h.buckets
  rw [byBucket, hbucket]
  dsimp only
  cases hassigned : r.allocation.assignmentFor? _ with
  | none => exact .untreated hbucket hassigned
  | some a =>
    dsimp only
    cases hkind : a.kind with
    | «fallthrough» => exact .fallthrough hbucket hassigned hkind
    | clientDefault => exact .clientDefault hbucket hassigned hkind
    | variant name =>
      have hname := h.variants name (mem_variantNames (List.mem_of_find?_eq_some hassigned) hkind)
      obtain ⟨v, hv⟩ := Option.isSome_iff_exists.mp hname
      dsimp only
      rw [hv]
      exact .variant hbucket hassigned hkind hv

/-- A sound rule cannot be evaluated only where membership cannot be told. -/
theorem Sound.targets_of_decide {sticky : Option (String × UnitRecord)} {cause : ResolveError}
    (h : r.Sound f) (hdecide : r.decide input f unit sticky = .failed cause) :
    r.targets input unit = .error cause := by
  have hdecides := r.decidesBy input f unit sticky
  rw [hdecide] at hdecides
  generalize hverdict : Verdict.failed cause = verdict at hdecides
  cases hdecides with
  | afresh =>
    rw [afresh] at hverdict
    split at hverdict
    · next htargets =>
      cases hverdict
      exact htargets
    · cases hverdict
    · have hbucket := h.bucketDecides unit
      rw [← hverdict] at hbucket
      cases hbucket
  | keep => cases hverdict
  | skipped => cases hverdict
  | failed htargets =>
    cases hverdict
    exact htargets

theorem targets_eq_error (hs : input.snapshot.Checked) {cause : ResolveError}
    (h : r.targets input unit = .error cause) : ∃ walk, cause = .membership (.circular walk) := by
  unfold targets at h
  split at h
  · next hsegment =>
    rw [Snapshot.isMember_eq_byDefinition hs] at h
    rcases hs.ok_or_isLasso input.context unit hsegment with ⟨member, hmember⟩ | ⟨walk, hwalk, -⟩
    · rw [hmember] at h
      cases h
    · rw [hwalk] at h
      cases h
      exact ⟨walk, rfl⟩
  · cases h

end FlagRule

theorem Snapshot.Checked.sound {s : Snapshot} (hs : s.Checked) {name : String} {f : Flag}
    (hflag : s.flags.get? name = some f) {r : FlagRule} (hr : r ∈ f.rules) : r.Sound f where
  buckets := Allocation.bucketCount_ne_zero (hs.allocations hflag r hr)
  variants := hs.variants hflag r hr

/-! ## Flags -/

/-- A flag fails at a rule that it comes to: the unit is too long, or the rule cannot be
evaluated. -/
theorem resolveFlag_eq_error {input : ResolveInput} {f : Flag} {cause : ResolveError}
    (h : resolveFlag input f = .error cause) :
    ∃ r ∈ f.rules,
      (∃ length, r.tooLong? input = some length ∧
          cause = .unitTooLong length input.config.maxUnitLength) ∨
        ∃ unit sticky, r.decide input f unit sticky = .failed cause := by
  have hresolves := resolvesBy input f
  rw [h] at hresolves
  cases hresolves with
  | @rule before after r _ _ _ hrules _ hstep =>
    have hr : r ∈ f.enabledRules := by
      rw [hrules]
      exact List.mem_append_right before List.mem_cons_self
    refine ⟨r, (List.mem_filter.mp hr).1, ?_⟩
    cases RuleWalk.step_eq_ends hstep with
    | tooLong hlong => exact .inl ⟨_, hlong, rfl⟩
    | failed _ _ hdecide => exact .inr ⟨_, _, hdecide⟩

/-- **Checks discharge what resolving assumes**: a flag of a snapshot that was built, whatever its
state and rules, fails only because a unit is too long or because segments refer to each other in a
circle. Its rules have buckets, and every name in the expression of a segment has a criterion. -/
theorem Snapshot.fails_only_on_long_unit_or_circle {delivered : SnapshotInput} {s : Snapshot}
    (hbuild : build delivered = .ok s) {name : String} {f : Flag}
    (hflag : s.flags.get? name = some f) :
    (∀ config context materializations cause,
        resolveFlag { snapshot := s, config, context, materializations } f = .error cause →
          (∃ length, config.maxUnitLength < length ∧
              cause = .unitTooLong length config.maxUnitLength) ∨
            ∃ walk, cause = .membership (.circular walk)) ∧
      (∀ r ∈ f.rules, r.allocation.bucketCount ≠ 0) ∧
      ∀ {segmentName segment}, s.segments.get? segmentName = some segment →
        ∀ ref ∈ segment.targeting.expression.refs,
          ∃ criterion, segment.targeting.criteria.get? ref = some criterion := by
  have hs := checked_of_build hbuild
  have hbuckets : ∀ r ∈ f.rules, r.allocation.bucketCount ≠ 0 := by
    intro r hr
    exact (hs.sound hflag hr).buckets
  refine ⟨fun config context materializations cause h => ?_, hbuckets, hs.criteria⟩
  obtain ⟨r, hr, ⟨length, hlong, rfl⟩ | ⟨unit, sticky, hdecide⟩⟩ := resolveFlag_eq_error h
  · obtain ⟨unit, -, rfl, hlt⟩ := FlagRule.exists_unit_of_tooLong hlong
    exact .inl ⟨unit.length, hlt, rfl⟩
  · exact .inr (FlagRule.targets_eq_error hs ((hs.sound hflag hr).targets_of_decide hdecide))

/-! ## A checked rollout -/

namespace Rollout

def configuration : SnapshotInput where
  account := "acme"
  flags := [banner]
  segments := [{ name := "everyone" }]
  populations := .ofList [("everyone", .full)]
  credentials := [{ client := "web", secret := "secret" }]

theorem error?_whole (id : String) (kind : AssignmentKind) : Allocation.error?
    { bucketCount := 1, assignments := [{ id, kind, ranges := [{ lower := 0, upper := 1 }] }] } =
      none := by
  simp [Allocation.error?, Allocation.ranges, Allocation.fits, Allocation.firstOverlap?]

theorem expandFlag_banner : Snapshot.expandFlag banner = .ok banner := by
  have hrule : Snapshot.checkRule banner rule = .ok () :=
    Snapshot.checkRule_eq_ok_iff.mpr ⟨error?_whole "all" (.variant "on"), by decide⟩
  exact Snapshot.expandFlag_eq_ok_iff.mpr ⟨List.forall_mem_singleton.mpr hrule, _, rfl, rfl⟩

theorem build_configuration : Snapshot.build configuration =
    .ok { snapshot with fingerprint := configuration.fingerprint } := by
  have hflags : Snapshot.gatherFlags .empty configuration.flags = .ok snapshot.flags :=
    Snapshot.gatherFlags_singleton expandFlag_banner
  rw [Snapshot.build_eq_map hflags]
  rfl

theorem banner_fails_only : Snapshot.build configuration =
      .ok { snapshot with fingerprint := configuration.fingerprint } ∧
    snapshot.flags.get? "banner" = some banner ∧
    ∀ config context materializations cause,
      resolveFlag
        { snapshot := { snapshot with fingerprint := configuration.fingerprint }, config, context,
          materializations } banner = .error cause →
        (∃ length, config.maxUnitLength < length ∧
            cause = .unitTooLong length config.maxUnitLength) ∨
          ∃ walk, cause = .membership (.circular walk) := by
  have hbanner : snapshot.flags.get? "banner" = some banner := rfl
  exact ⟨build_configuration, hbanner,
    (Snapshot.fails_only_on_long_unit_or_circle build_configuration hbanner).1⟩

end Rollout

end FeatureFlags
