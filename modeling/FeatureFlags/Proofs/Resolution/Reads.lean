import FeatureFlags.Proofs.Resolution.Failures
import FeatureFlags.Proofs.Snapshot.Reads

/-!
# What resolving a flag reads

A rule reads the unit that its selector names, the unit's record, and what membership in its
segment depends on. `FlagRule.SameReads` says that two inputs have the same of these. Then the
rule looks up the same, decides the same, and makes the same of every walk that comes to it; so
a flag is resolved alike by inputs that have the same for all its enabled rules
(`Flag.SameReads.resolveFlag_eq`).

- `Snapshot.reads_only_what_is_named`: within one snapshot that was built, only the attributes
  and records that the configuration names for the flag matter.
-/

namespace FeatureFlags

open Relation

namespace FlagRule

/-- Two inputs have the same of all that a rule reads. -/
structure SameReads (input input' : ResolveInput) (r : FlagRule) : Prop where
  maxUnitLength : input'.config.maxUnitLength = input.config.maxUnitLength
  selector : input'.context.get r.targetingKey = input.context.get r.targetingKey
  record : ∀ unit materialization, input.context.get r.targetingKey = .string unit →
    r.readMaterialization? = some materialization →
      input'.materializations.get? unit materialization =
        input.materializations.get? unit materialization
  segment : input.snapshot.SameReads input'.snapshot input.context input'.context r.segment

namespace SameReads

variable {input input' : ResolveInput} {r : FlagRule}

theorem lookUp_eq (h : r.SameReads input input') : r.lookUp input' = r.lookUp input := by
  unfold lookUp
  rw [h.selector, h.maxUnitLength]
  split
  · rfl
  · next unit hunit =>
    split
    · rfl
    · split
      · rfl
      · next materialization hread => rw [h.record unit materialization hunit hread]
  · rfl

theorem targets_eq (h : r.SameReads input input') (hs : input.snapshot.Checked)
    (hs' : input'.snapshot.Checked) (unit : String) :
    r.targets input' unit = r.targets input unit := by
  have hexists : input'.snapshot.segments.contains r.segment =
      input.snapshot.segments.contains r.segment := by
    rw [Dict.contains, Dict.contains, h.segment.segments r.segment .refl]
  rw [targets, targets, hexists, h.segment.isMember_eq hs hs']

theorem decide_eq (h : r.SameReads input input') (hs : input.snapshot.Checked)
    (hs' : input'.snapshot.Checked) (f : Flag) (unit : String)
    (sticky : Option (String × UnitRecord)) :
    r.decide input' f unit sticky = r.decide input f unit sticky := by
  have hafresh : r.afresh input' f unit = r.afresh input f unit := by
    rw [afresh, afresh, h.targets_eq hs hs']
  unfold decide
  rw [hafresh, h.targets_eq hs hs']

/-- The rule makes the same of every walk that comes to it. -/
theorem step_eq (h : r.SameReads input input') (hs : input.snapshot.Checked)
    (hs' : input'.snapshot.Checked) (f : Flag) (w : RuleWalk) :
    w.step input' f r = w.step input f r := by
  unfold RuleWalk.step
  rw [h.lookUp_eq, h.maxUnitLength]
  cases r.lookUp input with
  | ready unit sticky => dsimp only; rw [h.decide_eq hs hs']
  | _ => rfl

end SameReads

end FlagRule

/-- Two inputs have the same of all that resolving a flag reads. -/
def Flag.SameReads (input input' : ResolveInput) (f : Flag) : Prop :=
  ∀ r ∈ f.enabledRules, r.SameReads input input'

/-- A flag is resolved alike by inputs that have the same of all that it reads. -/
theorem Flag.SameReads.resolveFlag_eq {input input' : ResolveInput} {f : Flag}
    (h : f.SameReads input input') (hs : input.snapshot.Checked) (hs' : input'.snapshot.Checked) :
    resolveFlag input' f = resolveFlag input f := by
  cases hstate : f.state with
  | archived => rw [resolveFlag_archived hstate, resolveFlag_archived hstate]
  | active =>
    have hsteps : RuleWalk.start.through input' f f.enabledRules =
        RuleWalk.start.through input f f.enabledRules :=
      RuleWalk.through_congr (fun r hr => (h r hr).step_eq hs hs' f) RuleWalk.start
    rw [resolveFlag_active hstate, resolveFlag_active hstate, RuleWalk.run_eq_through,
      RuleWalk.run_eq_through, hsteps]

/-- **Only what is named is read**: a flag is resolved alike in two contexts, with two sets of
records at hand, if the contexts have the same where the enabled rules select their units and at
the attributes that the segments of these rules name, directly or through references; and if the
records are the same that these rules read for their units. -/
theorem Snapshot.reads_only_what_is_named {delivered : SnapshotInput} {s : Snapshot}
    (hbuild : build delivered = .ok s) (config : Config) (f : Flag)
    {context context' : Context} {materializations materializations' : Materializations}
    (hselectors : ∀ r ∈ f.enabledRules, context'.get r.targetingKey = context.get r.targetingKey)
    (hattributes : ∀ r ∈ f.enabledRules, ∀ name, ReflTransGen s.RefersTo r.segment name →
      ∀ field, s.NamesAttribute name field → context'.get field = context.get field)
    (hrecords : ∀ r ∈ f.enabledRules, ∀ unit materialization,
      context.get r.targetingKey = .string unit → r.readMaterialization? = some materialization →
        materializations'.get? unit materialization = materializations.get? unit materialization) :
    resolveFlag
        { snapshot := s, config, context := context', materializations := materializations' } f =
      resolveFlag { snapshot := s, config, context, materializations } f := by
  have hs := checked_of_build hbuild
  refine Flag.SameReads.resolveFlag_eq (fun r hr => ?_) hs hs
  exact
    { maxUnitLength := rfl
      selector := hselectors r hr
      record := hrecords r hr
      segment :=
        { account := rfl
          segments := fun _ _ => rfl
          populations := fun _ _ => rfl
          attributes := hattributes r hr } }

/-! ## A rollout to locals -/

namespace Rollout

/-- The units of one country. -/
def locals : Segment where
  name := "locals"
  targeting :=
    { expression := .ref "home"
      criteria := .ofList [("home", .onAttribute "country" (.plain (.eq (.string "SE"))))] }

/-- The banner is for guests, who are the locals. -/
def localBanner : Flag := { banner with rules := [{ rule with segment := "guests" }] }

def localConfiguration : SnapshotInput :=
  { configuration with
    flags := [localBanner]
    segments := [Audience.common "guests" ["locals"], locals]
    populations := .ofList [("guests", .full), ("locals", .full)] }

def localSnapshot : Snapshot :=
  { Audience.checked localConfiguration with
    flags := .ofList [("banner", localBanner)]
    clients := snapshot.clients }

theorem build_localConfiguration : Snapshot.build localConfiguration = .ok localSnapshot := by
  have hrule : Snapshot.checkRule localBanner { rule with segment := "guests" } = .ok () :=
    Snapshot.checkRule_eq_ok_iff.mpr ⟨error?_whole "all" (.variant "on"), by decide⟩
  have hexpand : Snapshot.expandFlag localBanner = .ok localBanner :=
    Snapshot.expandFlag_eq_ok_iff.mpr ⟨List.forall_mem_singleton.mpr hrule, _, rfl, rfl⟩
  have hflags : Snapshot.gatherFlags .empty localConfiguration.flags = .ok localSnapshot.flags :=
    Snapshot.gatherFlags_singleton hexpand
  rw [Snapshot.build_eq_map hflags]
  rfl

/-- The segments name one attribute among them. -/
theorem eq_country_of_namesAttribute {name field : String}
    (h : localSnapshot.NamesAttribute name field) : field = "country" := by
  obtain ⟨segment, ref, condition, hfound, -, hcriterion⟩ := h
  have hsegment : (name, segment) ∈ localSnapshot.segments.toList :=
    (Dict.get?_eq_some_iff _).mp hfound
  have hentry : (ref, Criterion.onAttribute field condition) ∈ segment.targeting.criteria.toList :=
    (Dict.get?_eq_some_iff _).mp hcriterion
  rcases List.mem_cons.mp hsegment with hguests | hlocals
  · cases hguests
    cases List.mem_singleton.mp hentry
  · cases List.mem_singleton.mp hlocals
    cases List.mem_singleton.mp hentry
    rfl

def localVisit : Context :=
  ⟨[("country", .string "SE"), ("targeting_key", .string "visitor")], rfl⟩

/-- The same visit, with an attribute that no segment names. -/
def moodyVisit : Context :=
  ⟨[("country", .string "SE"), ("mood", .string "good"), ("targeting_key", .string "visitor")], rfl⟩

/-- Neither the mood of the visitor nor the record of someone else is read. -/
theorem mood_not_read : Snapshot.build localConfiguration = .ok localSnapshot ∧
    resolveFlag
        { snapshot := localSnapshot, config := .default, context := moodyVisit
          materializations := earlierVisit.insert "stranger" "seen" (.assigned "rollout" "off") }
        localBanner =
      resolveFlag
        { snapshot := localSnapshot, config := .default, context := localVisit
          materializations := earlierVisit } localBanner := by
  refine ⟨build_localConfiguration, Snapshot.reads_only_what_is_named build_localConfiguration
    .default localBanner ?_ ?_ ?_⟩
  · exact List.forall_mem_singleton.mpr rfl
  · intro _ _ name _ field hnames
    rw [eq_country_of_namesAttribute hnames]
    rfl
  · refine List.forall_mem_singleton.mpr fun unit materialization hunit hread => ?_
    cases (hunit : Json.string "visitor" = .string unit)
    cases (hread : some "seen" = some materialization)
    rfl

end Rollout

end FeatureFlags
