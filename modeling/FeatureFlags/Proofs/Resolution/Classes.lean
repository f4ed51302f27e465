import FeatureFlags.Proofs.Resolution.Failures

/-!
# The classes of rules

The walk through the rules of a flag carries what it has found so far. The result can be told
without the walk: every rule has a class of its own (`FlagRule.HasClass`), by the unit that the
context names, what is remembered of the unit, its segment and its bucket; and the classes of the
enabled rules lead to the result (`RuleClass.LeadTo`).

- `FlagRule.HasClass.step_eq`: a step of the walk is told by the class of the rule.
  `RuleWalk.through_of_classes` is the run up to a final class, `RuleWalk.run_leadTo` all of it.
- `resolveFlag_of_final`, `resolveFlag_filter`: rules behind a final one, disabled rules and
  skipped rules can be replaced or left out.
- `Snapshot.resolves_by_classes` puts these together for the flags of a snapshot that was built.
-/

namespace FeatureFlags

/-- What a rule makes of a flag, on its own. -/
inductive RuleClass where
  /-- The rule is not for the unit. -/
  | skipped
  /-- The rule is for the unit, but its bucket has no assignment. -/
  | untreated
  /-- The rule leaves the decision to later ones. -/
  | fallsThrough (entry : Fallthrough)
  /-- The flag is resolved at the rule. -/
  | ends (reason : ResolveReason) (assignment : Option AssignmentMatch)
      (update : Option StickyUpdate)
  /-- The flag fails at the rule. -/
  | fails (cause : ResolveError)

namespace RuleClass

/-- Nothing behind a rule of the class is looked at. -/
def isFinal : RuleClass → Bool
  | ends .. | fails _ => true
  | _ => false

def isUntreated : RuleClass → Bool
  | untreated => true
  | _ => false

def entry? : RuleClass → Option Fallthrough
  | fallsThrough entry => some entry
  | _ => none

/-- The class of a rule that comes to a verdict. -/
def ofVerdict : Verdict → RuleClass
  | .skipped => skipped
  | .untreated => untreated
  | .fallthrough entry => fallsThrough entry
  | .decided assignment update => ends .matched (some assignment) update
  | .failed cause => fails cause

/-- The result that the classes of the rules lead to, one behind the other. -/
inductive LeadTo (f : Flag) : List RuleClass → Except ResolveError FlagOutcome → Prop where
  /-- The first final class resolves the flag, and the rules that fell through before are noted. -/
  | ends {before after : List RuleClass} {reason : ResolveReason}
      {assignment : Option AssignmentMatch} {update : Option StickyUpdate}
      (hbefore : ∀ c ∈ before, c.isFinal = false) :
      LeadTo f (before ++ .ends reason assignment update :: after)
        (.ok (.resolved
          { flag := f.name, reason, assignment, fallthroughs := before.filterMap entry?
            error := none } update))
  /-- The first final class is a failure. -/
  | fails {before after : List RuleClass} {cause : ResolveError}
      (hbefore : ∀ c ∈ before, c.isFinal = false) :
      LeadTo f (before ++ .fails cause :: after) (.error cause)
  /-- No class is final, some unit was left untreated, and no rule fell through. -/
  | noTreatment {classes : List RuleClass} (hnone : ∀ c ∈ classes, c.isFinal = false)
      (huntreated : .untreated ∈ classes) (hentries : ∀ entry, .fallsThrough entry ∉ classes) :
      LeadTo f classes (.ok (.resolved (.ofReason f.name .noTreatmentMatch) none))
  /-- No class is final, and no unit was left untreated or some rule fell through. -/
  | noSegment {classes : List RuleClass} (hnone : ∀ c ∈ classes, c.isFinal = false)
      (hentries : .untreated ∈ classes → ∃ entry, .fallsThrough entry ∈ classes) :
      LeadTo f classes
        (.ok (.resolved
          { flag := f.name, reason := .noSegmentMatch, assignment := none
            fallthroughs := classes.filterMap entry?, error := none } none))

variable {classes : List RuleClass}

theorem any_isUntreated_iff : classes.any isUntreated = true ↔ .untreated ∈ classes := by
  rw [List.any_eq_true]
  constructor
  · rintro ⟨c, hc, huntreated⟩
    cases c <;> first | exact hc | cases huntreated
  · intro h
    exact ⟨.untreated, h, rfl⟩

theorem mem_entries_iff {entry : Fallthrough} :
    entry ∈ classes.filterMap entry? ↔ .fallsThrough entry ∈ classes := by
  rw [List.mem_filterMap]
  constructor
  · rintro ⟨c, hc, hentry⟩
    cases c <;> cases hentry
    exact hc
  · intro h
    exact ⟨.fallsThrough entry, h, rfl⟩

end RuleClass

/-! ## The class of a rule -/

/-- What is remembered of a unit under a rule. -/
inductive Earlier where
  /-- Nothing that the rule would keep. -/
  | nothing
  /-- The unit was not enrolled, and the rule is for enrolled units only. -/
  | notEnrolled
  /-- The unit was given a variant, which the flag still defines. -/
  | variant (read : String) (v : Variant)

namespace Earlier

variable {input : ResolveInput} {f : Flag} {r : FlagRule} {unit : String}

/-- Whether the rule has to know whether the unit is in its segment. -/
def asksSegment (r : FlagRule) : Earlier → Prop
  | nothing => True
  | notEnrolled => False
  | variant _ _ => r.readMode.ignoresTargeting = false

/-- The verdict of a rule by what is remembered of the unit. -/
def verdict (input : ResolveInput) (f : Flag) (r : FlagRule) (unit : String) : Earlier → Verdict
  | nothing => r.afresh input f unit
  | notEnrolled => .skipped
  | variant read v =>
    if r.readMode.ignoresTargeting then r.keep unit read v
    else match r.targets input unit with
      | .error cause => .failed cause
      | .ok true => r.keep unit read v
      | .ok false => r.afresh input f unit

/-- A variant is not kept for a unit that has left the segment, and not where this cannot be
told. -/
theorem verdict_eq_afresh {earlier : Earlier} (hasks : earlier.asksSegment r)
    (htargets : r.targets input unit ≠ .ok true) :
    earlier.verdict input f r unit = r.afresh input f unit := by
  cases earlier with
  | nothing => rfl
  | notEnrolled => exact hasks.elim
  | variant read v =>
    have hminds : r.readMode.ignoresTargeting = false := hasks
    simp only [verdict, hminds, Bool.false_eq_true, ↓reduceIte]
    cases hmember : r.targets input unit with
    | error cause => rw [FlagRule.afresh, hmember]
    | ok targeted =>
      cases targeted with
      | false => rfl
      | true => exact absurd hmember htargets

theorem verdict_variant {read : String} {v : Variant}
    (htargeted : r.readMode.ignoresTargeting = true ∨ r.targets input unit = .ok true) :
    (variant read v).verdict input f r unit = r.keep unit read v := by
  rw [verdict]
  rcases htargeted with hignores | htargets
  · rw [if_pos hignores]
  · rw [htargets]
    exact ite_self _

end Earlier

namespace FlagRule

/-- The context names the unit, and its name is not too long. -/
def HasUnit (input : ResolveInput) (r : FlagRule) (unit : String) : Prop :=
  input.context.get r.targetingKey = .string unit ∧ unit.length ≤ input.config.maxUnitLength

/-- The record that the rule reads for the unit is at hand. -/
def Reads (input : ResolveInput) (r : FlagRule) (unit read : String) (record : UnitRecord) : Prop :=
  r.readMaterialization? = some read ∧ input.materializations.get? unit read = some record

/-- What the records at hand say about a unit. -/
inductive Recalls (input : ResolveInput) (f : Flag) (r : FlagRule) (unit : String) :
    Earlier → Prop where
  | readsNothing (hread : r.readMaterialization? = none) : Recalls input f r unit .nothing
  | newcomer {read : String} {record : UnitRecord} (hreads : r.Reads input unit read record)
      (henrolled : record.enrolled = false) (hmust : r.readMode.mustMatch = false) :
      Recalls input f r unit .nothing
  | noVariant {read : String} {record : UnitRecord} (hreads : r.Reads input unit read record)
      (henrolled : record.enrolled = true) (hrecorded : r.recordedVariant? f record = none) :
      Recalls input f r unit .nothing
  | notEnrolled {read : String} {record : UnitRecord} (hreads : r.Reads input unit read record)
      (henrolled : record.enrolled = false) (hmust : r.readMode.mustMatch = true) :
      Recalls input f r unit .notEnrolled
  | variant {read : String} {record : UnitRecord} {v : Variant}
      (hreads : r.Reads input unit read record) (henrolled : record.enrolled = true)
      (hrecorded : r.recordedVariant? f record = some v) :
      Recalls input f r unit (.variant read v)

/-- The class of a rule. -/
inductive HasClass (input : ResolveInput) (f : Flag) (r : FlagRule) : RuleClass → Prop where
  /-- The context names no unit. -/
  | noUnit (hget : input.context.get r.targetingKey = .null) : HasClass input f r .skipped
  /-- What the context names is no text. -/
  | notText (hnull : input.context.get r.targetingKey ≠ .null)
      (htext : ∀ unit, input.context.get r.targetingKey ≠ .string unit) :
      HasClass input f r (.ends .targetingKeyError none none)
  /-- The unit's name is too long. -/
  | tooLong {unit : String} (hget : input.context.get r.targetingKey = .string unit)
      (hlong : input.config.maxUnitLength < unit.length) :
      HasClass input f r (.fails (.unitTooLong unit.length input.config.maxUnitLength))
  /-- The unit was not enrolled, as it would have to be. -/
  | notEnrolled {unit : String} (hunit : r.HasUnit input unit)
      (hrecalls : r.Recalls input f unit .notEnrolled) : HasClass input f r .skipped
  /-- The unit keeps its variant, which is remembered wherever else the rule writes. -/
  | kept {unit read : String} {v : Variant} (hunit : r.HasUnit input unit)
      (hrecalls : r.Recalls input f unit (.variant read v))
      (htargeted : r.readMode.ignoresTargeting = true ∨ r.targets input unit = .ok true) :
      HasClass input f r
        (.ends .matched (some (r.assignmentMatch unit (r.assignmentIdOf v.name) (some v)))
          ((r.writeMaterialization?.filter (· ≠ read)).map (r.stickyUpdate unit v.name)))
  /-- The unit is not in the segment. -/
  | outside {unit : String} {earlier : Earlier} (hunit : r.HasUnit input unit)
      (hrecalls : r.Recalls input f unit earlier) (hasks : earlier.asksSegment r)
      (htargets : r.targets input unit = .ok false) : HasClass input f r .skipped
  /-- Whether the unit is in the segment cannot be told. -/
  | unknown {unit : String} {earlier : Earlier} {cause : ResolveError}
      (hunit : r.HasUnit input unit) (hrecalls : r.Recalls input f unit earlier)
      (hasks : earlier.asksSegment r) (htargets : r.targets input unit = .error cause) :
      HasClass input f r (.fails cause)
  /-- The unit is in the segment, and there is nothing to keep: its bucket counts. -/
  | bucket {unit : String} {verdict : Verdict} (hunit : r.HasUnit input unit)
      (hrecalls : r.Recalls input f unit .nothing) (htargets : r.targets input unit = .ok true)
      (hbucket : BucketDecides f r unit verdict) : HasClass input f r (.ofVerdict verdict)

variable {input : ResolveInput} {f : Flag} {r : FlagRule} {unit : String}

theorem exists_recalls {read : String} {record : UnitRecord}
    (hreads : r.Reads input unit read record) : ∃ earlier, r.Recalls input f unit earlier := by
  cases henrolled : record.enrolled with
  | false =>
    cases hmust : r.readMode.mustMatch with
    | false => exact ⟨.nothing, .newcomer hreads henrolled hmust⟩
    | true => exact ⟨.notEnrolled, .notEnrolled hreads henrolled hmust⟩
  | true =>
    cases hrecorded : r.recordedVariant? f record with
    | none => exact ⟨.nothing, .noVariant hreads henrolled hrecorded⟩
    | some v => exact ⟨.variant read v, .variant hreads henrolled hrecorded⟩

/-- What is remembered of the unit, its segment and its bucket tell the class. -/
theorem Sound.exists_hasClass_of_recalls (hsound : r.Sound f) {earlier : Earlier}
    (hunit : r.HasUnit input unit) (hrecalls : r.Recalls input f unit earlier) :
    ∃ c, r.HasClass input f c := by
  by_cases hasks : earlier.asksSegment r
  · cases htargets : r.targets input unit with
    | error cause => exact ⟨_, .unknown hunit hrecalls hasks htargets⟩
    | ok targeted =>
      cases targeted with
      | false => exact ⟨_, .outside hunit hrecalls hasks htargets⟩
      | true =>
        cases earlier with
        | nothing => exact ⟨_, .bucket hunit hrecalls htargets (hsound.bucketDecides unit)⟩
        | notEnrolled => exact hasks.elim
        | variant read v => exact ⟨_, .kept hunit hrecalls (.inr htargets)⟩
  · cases earlier with
    | nothing => exact absurd trivial hasks
    | notEnrolled => exact ⟨_, .notEnrolled hunit hrecalls⟩
    | variant read v =>
      have hignores : r.readMode.ignoresTargeting = true := Bool.not_eq_false _ |>.mp hasks
      exact ⟨_, .kept hunit hrecalls (.inl hignores)⟩

/-- With the records at hand, every sound rule has a class. -/
theorem Sound.exists_hasClass (hsound : r.Sound f) (hheld : r.absent? input = none) :
    ∃ c, r.HasClass input f c := by
  have hlooksUp := r.looksUp input
  generalize hfound : r.lookUp input = found at hlooksUp
  cases hlooksUp with
  | noUnit hget => exact ⟨_, .noUnit hget⟩
  | notText hnull htext => exact ⟨_, .notText hnull htext⟩
  | tooLong hget hlong => exact ⟨_, .tooLong hget hlong⟩
  | absent =>
    rw [absent?_eq_some_iff.mpr hfound] at hheld
    cases hheld
  | readsNothing hget hfits hread =>
    exact hsound.exists_hasClass_of_recalls ⟨hget, hfits⟩ (.readsNothing hread)
  | reads hget hfits hread hrecord =>
    obtain ⟨earlier, hrecalls⟩ := exists_recalls (f := f) ⟨hread, hrecord⟩
    exact hsound.exists_hasClass_of_recalls ⟨hget, hfits⟩ hrecalls

/-- A rule whose unit has been looked up decides by what is remembered of it. -/
theorem Recalls.lookUp_decide {earlier : Earlier} (h : r.Recalls input f unit earlier)
    (hunit : r.HasUnit input unit) :
    ∃ sticky, r.lookUp input = .ready unit sticky ∧
      r.decide input f unit sticky = earlier.verdict input f r unit := by
  have hfits : ¬ input.config.maxUnitLength < unit.length := Nat.not_lt.mpr hunit.2
  have hready : ∀ {read record}, r.Reads input unit read record →
      r.lookUp input = .ready unit (some (read, record)) := by
    intro read record hreads
    simp only [lookUp, hunit.1, hfits, hreads.1, hreads.2, ↓reduceIte]
  cases h with
  | readsNothing hread =>
    refine ⟨none, ?_, rfl⟩
    simp only [lookUp, hunit.1, hfits, hread, ↓reduceIte]
  | newcomer hreads henrolled hmust =>
    refine ⟨_, hready hreads, ?_⟩
    simp only [decide, henrolled, hmust, Earlier.verdict, Bool.false_eq_true, ↓reduceIte]
  | noVariant hreads henrolled hrecorded =>
    refine ⟨_, hready hreads, ?_⟩
    simp only [decide, henrolled, hrecorded, Earlier.verdict, ↓reduceIte]
  | notEnrolled hreads henrolled hmust =>
    refine ⟨_, hready hreads, ?_⟩
    simp only [decide, henrolled, hmust, Earlier.verdict, Bool.false_eq_true, ↓reduceIte]
  | variant hreads henrolled hrecorded =>
    refine ⟨_, hready hreads, ?_⟩
    simp only [decide, henrolled, hrecorded, ↓reduceIte]
    rfl

theorem lookUp_eq_notText (hnull : input.context.get r.targetingKey ≠ .null)
    (htext : ∀ unit, input.context.get r.targetingKey ≠ .string unit) :
    r.lookUp input = .notText := by
  unfold lookUp
  split
  · next hget => exact absurd hget hnull
  · next unit hget => exact absurd hget (htext unit)
  · rfl

theorem BucketDecides.byBucket_eq {verdict : Verdict} (h : BucketDecides f r unit verdict) :
    r.byBucket f unit = verdict := by
  cases h with
  | untreated hbucket hnone => simp only [byBucket, hbucket, hnone]
  | «fallthrough» hbucket hassigned hkind => simp only [byBucket, hbucket, hassigned, hkind]
  | clientDefault hbucket hassigned hkind => simp only [byBucket, hbucket, hassigned, hkind]
  | variant hbucket hassigned hkind hdefined =>
    simp only [byBucket, hbucket, hassigned, hkind, hdefined]

end FlagRule

/-! ## The walk by classes -/

namespace RuleWalk

variable {input : ResolveInput} {f : Flag} {w : RuleWalk} {r : FlagRule}

/-- What the walk makes of a rule of the class. -/
def take (f : Flag) (w : RuleWalk) : RuleClass → RuleStep
  | .skipped => .goesOn w
  | .untreated => .goesOn { w with untreated := true }
  | .fallsThrough entry => .goesOn { w with fallthroughs := w.fallthroughs ++ [entry] }
  | .ends reason assignment update => .ends (.ok (w.outcome f reason assignment update))
  | .fails cause => .ends (.error cause)

theorem take_ofVerdict (verdict : Verdict) :
    w.take f (.ofVerdict verdict) = w.follow f verdict := by
  cases verdict <;> rfl

/-- Rules of two classes are not the same to a walk that has found nothing. -/
theorem take_start_injective : Function.Injective (start.take f) := by
  intro c c' h
  cases c <;> cases c' <;> simp_all [take, start, outcome]

end RuleWalk

namespace FlagRule

variable {input : ResolveInput} {f : Flag} {r : FlagRule}

theorem HasClass.step_eq {c : RuleClass} (h : r.HasClass input f c) {w : RuleWalk}
    (hw : w.missing = []) : w.step input f r = w.take f c := by
  have hempty : w.missing.isEmpty = true := List.isEmpty_iff.mpr hw
  -- with a unit the class is that of the verdict
  have hstep : ∀ {unit earlier}, r.HasUnit input unit → r.Recalls input f unit earlier →
      w.step input f r = w.follow f (earlier.verdict input f r unit) := by
    intro unit earlier hunit hrecalls
    obtain ⟨sticky, hlookUp, hdecide⟩ := hrecalls.lookUp_decide hunit
    simp only [RuleWalk.step, hlookUp, hempty, hdecide, ↓reduceIte]
  cases h with
  | noUnit hget => simp only [RuleWalk.step, lookUp, hget, RuleWalk.take]
  | notText hnull htext =>
    simp only [RuleWalk.step, lookUp_eq_notText hnull htext, hempty, RuleWalk.take, ↓reduceIte]
  | tooLong hget hlong => simp only [RuleWalk.step, lookUp, hget, hlong, RuleWalk.take, ↓reduceIte]
  | notEnrolled hunit hrecalls => exact hstep hunit hrecalls
  | kept hunit hrecalls htargeted =>
    rw [hstep hunit hrecalls, Earlier.verdict_variant htargeted]
    rfl
  | @outside unit _ hunit hrecalls hasks htargets =>
    have hnot : r.targets input unit ≠ .ok true := by simp [htargets]
    rw [hstep hunit hrecalls, Earlier.verdict_eq_afresh hasks hnot, afresh, htargets]
    rfl
  | @unknown unit _ _ hunit hrecalls hasks htargets =>
    have hnot : r.targets input unit ≠ .ok true := by simp [htargets]
    rw [hstep hunit hrecalls, Earlier.verdict_eq_afresh hasks hnot, afresh, htargets]
    rfl
  | bucket hunit hrecalls htargets hbucket =>
    rw [hstep hunit hrecalls, RuleWalk.take_ofVerdict, Earlier.verdict, afresh, htargets]
    exact congrArg (w.follow f) hbucket.byBucket_eq

/-- A rule has one class only. -/
theorem HasClass.unique {c c' : RuleClass} (h : r.HasClass input f c) (h' : r.HasClass input f c') :
    c = c' := by
  have hstep : RuleWalk.start.take f c = RuleWalk.start.take f c' := by
    rw [← h.step_eq rfl, ← h'.step_eq rfl]
  exact RuleWalk.take_start_injective hstep

end FlagRule

namespace RuleWalk

variable {input : ResolveInput} {f : Flag} {w : RuleWalk} {rules : List FlagRule}
  {classOf : FlagRule → RuleClass}

/-- The walk behind rules of the classes, where none of them is final. -/
def behind (w : RuleWalk) (classes : List RuleClass) : RuleWalk :=
  { w with
    fallthroughs := w.fallthroughs ++ classes.filterMap RuleClass.entry?
    untreated := w.untreated || classes.any RuleClass.isUntreated }

theorem behind_nil : w.behind [] = w := by
  rw [behind, List.filterMap_nil, List.append_nil, List.any_nil, Bool.or_false]

theorem behind_append (before after : List RuleClass) :
    (w.behind before).behind after = w.behind (before ++ after) := by
  simp only [behind, List.filterMap_append, List.any_append, List.append_assoc, Bool.or_assoc]

theorem take_eq_goesOn {c : RuleClass} (hc : c.isFinal = false) :
    w.take f c = .goesOn (w.behind [c]) := by
  cases c with
  | skipped => simp [take, behind, List.filterMap_cons, RuleClass.entry?, RuleClass.isUntreated]
  | untreated => simp [take, behind, List.filterMap_cons, RuleClass.entry?, RuleClass.isUntreated]
  | fallsThrough entry => simp [take, behind, RuleClass.entry?, RuleClass.isUntreated]
  | ends => cases hc
  | fails => cases hc

/-- The walk goes on as long as the classes are not final, and has found what they say. -/
theorem through_of_classes (hw : w.missing = [])
    (hclass : ∀ r ∈ rules, r.HasClass input f (classOf r))
    (hgoesOn : ∀ r ∈ rules, (classOf r).isFinal = false) :
    w.through input f rules = .goesOn (w.behind (rules.map classOf)) := by
  induction rules generalizing w with
  | nil => rw [List.map_nil, behind_nil, through]
  | cons r rest ih =>
    obtain ⟨hr, hrest⟩ := List.forall_mem_cons.mp hclass
    obtain ⟨hrgoesOn, hrestgoesOn⟩ := List.forall_mem_cons.mp hgoesOn
    have hstep : w.step input f r = .goesOn (w.behind [classOf r]) := by
      rw [hr.step_eq hw, take_eq_goesOn hrgoesOn]
    calc w.through input f (r :: rest)
        = (w.behind [classOf r]).through input f rest := by rw [through_cons, hstep]
      _ = .goesOn ((w.behind [classOf r]).behind (rest.map classOf)) := ih hw hrest hrestgoesOn
      _ = .goesOn (w.behind ((r :: rest).map classOf)) := by rw [behind_append]; rfl

theorem finish_leadTo {classes : List RuleClass} (hnone : ∀ c ∈ classes, c.isFinal = false) :
    RuleClass.LeadTo f classes (.ok ((start.behind classes).finish f)) := by
  have huntreated : (start.behind classes).untreated = true ↔ .untreated ∈ classes := by
    rw [← RuleClass.any_isUntreated_iff]
    rfl
  have hentries : (start.behind classes).fallthroughs = classes.filterMap RuleClass.entry? := rfl
  have hmissing : (start.behind classes).missing.isEmpty = true := rfl
  rw [finish, if_pos hmissing]
  split
  · next h =>
    obtain ⟨hmarked, hempty⟩ := Bool.and_eq_true_iff.mp h
    have hnil : classes.filterMap RuleClass.entry? = [] := List.isEmpty_iff.mp hempty
    have hnoEntry : ∀ entry, .fallsThrough entry ∉ classes := by
      intro entry hentry
      rw [← RuleClass.mem_entries_iff, hnil] at hentry
      cases hentry
    rw [outcome, hentries, hnil]
    exact .noTreatment hnone (huntreated.mp hmarked) hnoEntry
  · next h =>
    refine .noSegment hnone fun hmem => ?_
    have hne : classes.filterMap RuleClass.entry? ≠ [] := by
      intro hnil
      exact h (Bool.and_eq_true_iff.mpr ⟨huntreated.mpr hmem, List.isEmpty_iff.mpr hnil⟩)
    obtain ⟨entry, hentry⟩ := List.exists_mem_of_ne_nil _ hne
    exact ⟨entry, RuleClass.mem_entries_iff.mp hentry⟩

/-- **The classes of rules lead to the result of the walk.** -/
theorem run_leadTo (hclass : ∀ r ∈ rules, r.HasClass input f (classOf r)) :
    RuleClass.LeadTo f (rules.map classOf) (start.run input f rules) := by
  cases hfind : rules.find? fun r => (classOf r).isFinal with
  | none =>
    have hnone : ∀ r ∈ rules, (classOf r).isFinal = false := by
      intro r hr
      exact Bool.eq_false_iff.mpr (List.find?_eq_none.mp hfind r hr)
    rw [run_eq_through, through_of_classes rfl hclass hnone, RuleStep.result_goesOn]
    exact finish_leadTo (List.forall_mem_map.mpr hnone)
  | some r =>
    obtain ⟨hfinal, before, after, rfl, hbefore⟩ := List.find?_eq_some_iff_append.mp hfind
    have hgoesOn : ∀ r ∈ before, (classOf r).isFinal = false := by
      intro r hr
      exact Bool.not_eq_true' _ |>.mp (hbefore r hr)
    have hthrough := through_of_classes (w := start) rfl
      (fun r hr => hclass r (List.mem_append_left _ hr)) hgoesOn
    have hr : r.HasClass input f (classOf r) :=
      hclass r (List.mem_append_right before List.mem_cons_self)
    rw [run_append, hthrough, RuleStep.result_goesOn, run_cons, hr.step_eq rfl, List.map_append,
      List.map_cons]
    cases hc : classOf r with
    | ends reason assignment update => exact .ends (List.forall_mem_map.mpr hgoesOn)
    | fails cause => exact .fails (List.forall_mem_map.mpr hgoesOn)
    | _ =>
      rw [hc] at hfinal
      cases hfinal

end RuleWalk

/-! ## Flags -/

section Flags

variable {input : ResolveInput} {f : Flag} {r : FlagRule}

/-- The walk looks at the rules that it is given only, whatever rules the flag has. -/
theorem RuleWalk.run_withRules (others : List FlagRule) (w : RuleWalk) (rules : List FlagRule) :
    w.run input { f with rules := others } rules = w.run input f rules := by
  have hstep : ∀ r ∈ rules, ∀ w : RuleWalk,
      w.step input { f with rules := others } r = w.step input f r := fun _ _ _ => rfl
  rw [run_eq_through, run_eq_through, through_congr hstep]
  rfl

theorem resolveFlag_withRules (hactive : f.state = .active) (others : List FlagRule) :
    resolveFlag input { f with rules := others } =
      RuleWalk.start.run input f (others.filter (·.enabled)) := by
  have hactive' : ({ f with rules := others } : Flag).state = .active := hactive
  rw [resolveFlag_active hactive', RuleWalk.run_withRules, Flag.enabledRules]

/-- Rules behind a final one can be replaced by any others. -/
theorem resolveFlag_of_final (hactive : f.state = .active)
    (hheld : ∀ r ∈ f.enabledRules, r.absent? input = none) {before after : List FlagRule}
    (hrules : f.rules = before ++ r :: after) (henabled : r.enabled = true) {c : RuleClass}
    (hclass : r.HasClass input f c) (hfinal : c.isFinal = true) (after' : List FlagRule) :
    resolveFlag input { f with rules := before ++ r :: after' } = resolveFlag input f := by
  have hsplit : ∀ rest, (before ++ r :: rest).filter (·.enabled) =
      before.filter (·.enabled) ++ r :: rest.filter (·.enabled) := by
    intro rest
    rw [List.filter_append, List.filter_cons_of_pos henabled]
  have hbefore : ∀ r ∈ before.filter (·.enabled), r.absent? input = none := by
    intro other hother
    refine hheld other ?_
    rw [Flag.enabledRules, hrules, hsplit]
    exact List.mem_append_left _ hother
  rw [resolveFlag_withRules hactive, resolveFlag_active hactive, Flag.enabledRules, hrules, hsplit,
    hsplit, RuleWalk.run_append, RuleWalk.run_append]
  cases hthrough : RuleWalk.start.through input f (before.filter (·.enabled)) with
  | ends result => rfl
  | goesOn w =>
    have hw : w.missing = [] := by
      rw [(RuleWalk.through_eq_goesOn hthrough).2, List.filterMap_eq_nil_iff.mpr hbefore]
      rfl
    rw [RuleStep.result_goesOn, RuleStep.result_goesOn, RuleWalk.run_cons, RuleWalk.run_cons,
      hclass.step_eq hw]
    cases c <;> first | rfl | cases hfinal

/-- Skipped rules can be left out of a walk that misses nothing. -/
theorem RuleWalk.run_filter {w : RuleWalk} (hw : w.missing = []) {rules : List FlagRule}
    (hheld : ∀ r ∈ rules, r.absent? input = none) {keep : FlagRule → Bool}
    (hkeep : ∀ r ∈ rules, keep r = false → r.HasClass input f .skipped) :
    w.run input f (rules.filter keep) = w.run input f rules := by
  induction rules generalizing w with
  | nil => rfl
  | cons r rest ih =>
    obtain ⟨hrheld, hrestheld⟩ := List.forall_mem_cons.mp hheld
    obtain ⟨hr, hrest⟩ := List.forall_mem_cons.mp hkeep
    cases hk : keep r with
    | false =>
      have hskipped : w.step input f r = .goesOn w := (hr hk).step_eq hw
      rw [List.filter_cons_of_neg (by simp [hk]), run_cons, hskipped, RuleStep.result_goesOn]
      exact ih hw hrestheld hrest
    | true =>
      rw [List.filter_cons_of_pos hk, run_cons, run_cons]
      cases hstep : w.step input f r with
      | ends result => rfl
      | goesOn w' =>
        have hw' : w'.missing = [] := by
          rw [(step_eq_goesOn hstep).2, hw, hrheld]
          rfl
        exact ih hw' hrestheld hrest

/-- Disabled rules and skipped rules can be left out. -/
theorem resolveFlag_filter (hactive : f.state = .active)
    (hheld : ∀ r ∈ f.enabledRules, r.absent? input = none) {keep : FlagRule → Bool}
    (hkeep : ∀ r ∈ f.rules, keep r = false →
      r.enabled = false ∨ r.HasClass input f .skipped) :
    resolveFlag input { f with rules := f.rules.filter keep } = resolveFlag input f := by
  have hcomm : (f.rules.filter keep).filter (·.enabled) = f.enabledRules.filter keep := by
    rw [Flag.enabledRules, List.filter_filter, List.filter_filter]
    exact List.filter_congr fun r _ => Bool.and_comm _ _
  have hskipped : ∀ r ∈ f.enabledRules, keep r = false → r.HasClass input f .skipped := by
    intro r hr hk
    obtain ⟨hmem, henabled⟩ := List.mem_filter.mp hr
    rcases hkeep r hmem hk with hdisabled | hskipped
    · rw [hdisabled] at henabled
      cases henabled
    · exact hskipped
  rw [resolveFlag_withRules hactive, resolveFlag_active hactive, hcomm]
  exact RuleWalk.run_filter rfl hheld hskipped

/-- **A flag is resolved by the classes of its rules.** With the records at hand that the rules of an
active flag read, every enabled rule has one class, the classes lead to the result, and it makes no
difference which rules stand behind a final one, or whether disabled and skipped ones are there. -/
theorem Snapshot.resolves_by_classes {delivered : SnapshotInput} {input : ResolveInput}
    (hbuild : build delivered = .ok input.snapshot) {name : String} {f : Flag}
    (hflag : input.snapshot.flags.get? name = some f) (hactive : f.state = .active)
    (hheld : ∀ r ∈ f.enabledRules, r.absent? input = none) :
    ∃ classOf : FlagRule → RuleClass,
      (∀ r ∈ f.enabledRules, ∀ c, r.HasClass input f c ↔ c = classOf r) ∧
        RuleClass.LeadTo f (f.enabledRules.map classOf) (resolveFlag input f) ∧
        (∀ before r after after', f.rules = before ++ r :: after → r.enabled = true →
          (classOf r).isFinal = true →
            resolveFlag input { f with rules := before ++ r :: after' } = resolveFlag input f) ∧
        ∀ keep : FlagRule → Bool,
          (∀ r ∈ f.rules, keep r = false → r.enabled = false ∨ classOf r = .skipped) →
            resolveFlag input { f with rules := f.rules.filter keep } = resolveFlag input f := by
  have hs := checked_of_build hbuild
  have hexists : ∀ r, ∃ c, r ∈ f.enabledRules → r.HasClass input f c := by
    intro r
    by_cases hr : r ∈ f.enabledRules
    · have hsound : r.Sound f := hs.sound hflag (List.mem_filter.mp hr).1
      obtain ⟨c, hc⟩ := hsound.exists_hasClass (hheld r hr)
      exact ⟨c, fun _ => hc⟩
    · exact ⟨.skipped, fun h => absurd h hr⟩
  choose classOf hclass using hexists
  have hclassOf : ∀ r ∈ f.enabledRules, ∀ c, r.HasClass input f c ↔ c = classOf r := by
    intro r hr c
    constructor
    · intro h
      exact h.unique (hclass r hr)
    · rintro rfl
      exact hclass r hr
  refine ⟨classOf, hclassOf, ?_, ?_, ?_⟩
  · rw [resolveFlag_active hactive]
    exact RuleWalk.run_leadTo hclass
  · intro before r after after' hrules henabled hfinal
    have hr : r ∈ f.enabledRules := by
      refine List.mem_filter.mpr ⟨?_, henabled⟩
      rw [hrules]
      exact List.mem_append_right before List.mem_cons_self
    exact resolveFlag_of_final hactive hheld hrules henabled (hclass r hr) hfinal after'
  · intro keep hkeep
    refine resolveFlag_filter hactive hheld fun r hr hleft => ?_
    cases henabled : r.enabled with
    | false => exact .inl rfl
    | true =>
      refine .inr ((hclassOf r (List.mem_filter.mpr ⟨hr, henabled⟩) _).mpr ?_)
      rcases hkeep r hr hleft with hdisabled | hskipped
      · rw [hdisabled] at henabled
        cases henabled
      · exact hskipped.symm

end Flags

/-! ## A flag with several rules -/

namespace Rollout

/-- A rule that leaves all units to the rules behind it. -/
def holdout : FlagRule where
  name := "holdout"
  segment := "everyone"
  allocation :=
    { bucketCount := 1
      assignments :=
        [{ id := "none", kind := .fallthrough, ranges := [{ lower := 0, upper := 1 }] }] }

theorem error?_holdout : holdout.allocation.error? = none := error?_whole "none" .fallthrough

theorem holdout_fallsThrough (m : Materializations) (flags : Dict Flag) (fingerprint : String)
    (f : Flag) :
    holdout.HasClass { visit m with snapshot := { snapshot with flags, fingerprint } } f
      (.fallsThrough { rule := "holdout", assignmentId := "none", unit := "visitor" }) := by
  have hbucket : Bucket.of? "visitor" holdout.segment holdout.allocation.bucketCount = some 0 :=
    Bucket.of?_one "visitor" "everyone"
  have hfits : "visitor".length ≤ Config.default.maxUnitLength := by decide
  exact .bucket ⟨rfl, hfits⟩ (.readsNothing rfl) (targets_everyone rfl)
    (.fallthrough hbucket rfl rfl)

/-- A rule for whole companies. -/
def companies : FlagRule := { rule with name := "companies", selector := some "company" }

/-- The banner, with a rule before the rollout, one that is not enabled, and one behind it. -/
def layeredBanner : Flag :=
  { banner with rules := [holdout, { rule with enabled := false }, rule, companies] }

def layeredConfiguration : SnapshotInput := { configuration with flags := [layeredBanner] }

/-- A visit of a unit of which nothing is remembered. -/
def preparedVisit : ResolveInput :=
  { visit (Materializations.empty.insert "visitor" "seen" .empty) with
    snapshot :=
      { snapshot with
        flags := .ofList [("banner", layeredBanner)]
        fingerprint := layeredConfiguration.fingerprint } }

theorem build_layeredConfiguration :
    Snapshot.build layeredConfiguration = .ok preparedVisit.snapshot := by
  have hallocation : ∀ r ∈ layeredBanner.rules, r.allocation.error? = none := by
    simp [layeredBanner, companies, error?_holdout, rule, allocation, error?_whole]
  have hvariants : ∀ r ∈ layeredBanner.rules, ∀ name ∈ r.variantNames,
      (layeredBanner.variant? name).isSome = true := by decide
  have hexpand : Snapshot.expandFlag layeredBanner = .ok layeredBanner :=
    Snapshot.expandFlag_eq_ok_iff.mpr ⟨fun r hr =>
      Snapshot.checkRule_eq_ok_iff.mpr ⟨hallocation r hr, hvariants r hr⟩, _, rfl, rfl⟩
  have hflags : Snapshot.gatherFlags .empty layeredConfiguration.flags =
      .ok preparedVisit.snapshot.flags := Snapshot.gatherFlags_singleton hexpand
  rw [Snapshot.build_eq_map hflags]
  rfl

/-- What the rollout decides. -/
def rolledOut : RuleClass :=
  .ends .matched (some (rule.assignmentMatch "visitor" "all" (some on)))
    (some (rule.stickyUpdate "visitor" "on" "seen"))

theorem rule_ends : rule.HasClass preparedVisit layeredBanner rolledOut := by
  have hbucket : Bucket.of? "visitor" rule.segment rule.allocation.bucketCount = some 0 :=
    Bucket.of?_one "visitor" "everyone"
  have hreads : rule.Reads preparedVisit "visitor" "seen" .empty := ⟨rfl, rfl⟩
  have hrecalls : rule.Recalls preparedVisit layeredBanner "visitor" .nothing :=
    .newcomer hreads rfl rfl
  exact .bucket ⟨rfl, by decide⟩ hrecalls (targets_everyone rfl)
    (.variant hbucket rfl rfl rfl)

/-- The banner is decided by the rollout, behind the rule that falls through. The rule for companies
makes no difference, because the context names none and because it stands behind the rollout, and
neither does the rule that is not enabled. -/
theorem banner_by_classes : Snapshot.build layeredConfiguration = .ok preparedVisit.snapshot ∧
    preparedVisit.snapshot.flags.get? "banner" = some layeredBanner ∧
    layeredBanner.state = .active ∧
    (∀ r ∈ layeredBanner.enabledRules, r.absent? preparedVisit = none) ∧
    RuleClass.LeadTo layeredBanner
      [.fallsThrough { rule := "holdout", assignmentId := "none", unit := "visitor" }, rolledOut,
        .skipped]
      (resolveFlag preparedVisit layeredBanner) ∧
    (∀ rules, resolveFlag preparedVisit
        { layeredBanner with rules := holdout :: { rule with enabled := false } :: rule :: rules } =
      resolveFlag preparedVisit layeredBanner) ∧
    resolveFlag preparedVisit { layeredBanner with rules := [holdout, rule] } =
      resolveFlag preparedVisit layeredBanner := by
  have hbanner : preparedVisit.snapshot.flags.get? "banner" = some layeredBanner := rfl
  have hheld : ∀ r ∈ layeredBanner.enabledRules, r.absent? preparedVisit = none := by decide
  obtain ⟨classOf, hclass, hlead, hbehind, hleft⟩ :=
    Snapshot.resolves_by_classes build_layeredConfiguration hbanner rfl hheld
  have hholdout := (hclass holdout (by decide) _).mp (holdout_fallsThrough _ _ _ layeredBanner)
  have hrule := (hclass rule (by decide) _).mp rule_ends
  have hcompanies := (hclass companies (by decide) _).mp (.noUnit rfl)
  refine ⟨build_layeredConfiguration, hbanner, rfl, hheld, ?_, ?_, ?_⟩
  · have hclasses : layeredBanner.enabledRules.map classOf =
        [classOf holdout, classOf rule, classOf companies] := rfl
    rw [hclasses, ← hholdout, ← hrule, ← hcompanies] at hlead
    exact hlead
  · intro rules
    refine hbehind [holdout, { rule with enabled := false }] rule [companies] rules rfl rfl ?_
    rw [← hrule]
    rfl
  · refine hleft (fun r => r.enabled && r.name ≠ "companies") ?_
    intro r hr hout
    simp only [layeredBanner, List.mem_cons, List.not_mem_nil, or_false] at hr
    rcases hr with rfl | rfl | rfl | rfl
    · cases hout
    · exact .inl rfl
    · cases hout
    · exact .inr hcompanies.symm

end Rollout

end FeatureFlags
