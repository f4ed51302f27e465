import FeatureFlags.Config
import FeatureFlags.Materialization
import FeatureFlags.Resolution.Error

/-!
# Resolving one flag

`resolveFlag` goes through the enabled rules of a flag in order. For each rule it
first looks up what the rule needs (`Lookup`): the unit, and the unit's record if
the rule reads a materialization. Then the rule decides on its own (`Verdict`).

- The first rule that decides ends the walk, and so does the first that fails.
- A rule that falls through is noted, and the walk goes on.
- Once a record is missing, the flag cannot be decided any more, and the rules
  that follow are only asked which records they need.
-/

namespace FeatureFlags

/-- The outcome of resolving a flag. -/
inductive FlagOutcome where
  /-- The flag was decided; the decision may have to be remembered. -/
  | resolved (value : ResolvedValue) (update : Option StickyUpdate)
  /-- The flag cannot be decided without these records. -/
  | missing (items : List MissingRecord)
  deriving Repr

/-- What a flag is resolved against. -/
structure ResolveInput where
  /-- The configuration of the account. -/
  snapshot : Snapshot
  config : Config
  context : Context
  /-- The records at hand. -/
  materializations : Materializations

/-- What a rule needs before it can decide. -/
inductive Lookup where
  /-- The context names no unit for the rule. -/
  | noUnit
  /-- The attribute that should name the unit is not a text. -/
  | notText
  /-- The name of the unit is too long. -/
  | tooLong (length : Nat)
  /-- A record that the rule reads is not at hand. -/
  | absent (item : MissingRecord)
  /-- The rule can decide for the unit, with the materialization it reads and the unit's record. -/
  | ready (unit : String) (sticky : Option (String × UnitRecord))
  deriving DecidableEq

/-- What a rule makes of a unit. -/
inductive Verdict where
  /-- The rule is not for this unit. -/
  | skipped
  /-- The rule is for this unit, but its bucket has no assignment. -/
  | untreated
  /-- The rule leaves the decision to later ones. -/
  | fallthrough (entry : Fallthrough)
  /-- The rule decides. -/
  | decided (assignment : AssignmentMatch) (update : Option StickyUpdate)
  /-- The rule cannot be evaluated. -/
  | failed (cause : ResolveError)
  deriving Repr

namespace FlagRule

/-- What the rule needs. -/
def lookUp (input : ResolveInput) (r : FlagRule) : Lookup :=
  match input.context.get r.targetingKey with
  | .null => .noUnit
  | .string unit =>
    if input.config.maxUnitLength < unit.length then .tooLong unit.length
    else match r.readMaterialization? with
      | none => .ready unit none
      | some materialization =>
        match input.materializations.get? unit materialization with
        | some record => .ready unit (some (materialization, record))
        | none => .absent { unit, rule := r.name, materialization }
  | _ => .notText

/-- The decision of the rule for a unit. -/
def assignmentMatch (r : FlagRule) (unit assignmentId : String) (variant : Option Variant) :
    AssignmentMatch :=
  { rule := r.name
    segment := r.segment
    assignmentId
    unit
    selector := r.targetingKey
    variant := variant.map (·.name)
    value := variant.map (·.value) }

/-- The decision as it is to be remembered in a materialization. -/
def stickyUpdate (r : FlagRule) (unit variant materialization : String) : StickyUpdate :=
  { unit, rule := r.name, materialization, variant }

/-- The first assignment that gives a variant. -/
def assignmentIdOf (r : FlagRule) (variant : String) : String :=
  ((r.allocation.assignments.find? (·.kind = .variant variant)).map (·.id)).getD ""

/-- The variant that a record has for the rule, if the flag still defines it. -/
def recordedVariant? (f : Flag) (r : FlagRule) (record : UnitRecord) : Option Variant :=
  (record.variantFor? r.name).bind f.variant?

/-- Whether the unit is in the segment of the rule. A segment that does not exist has no units. -/
def targets (input : ResolveInput) (r : FlagRule) (unit : String) : Except ResolveError Bool :=
  if input.snapshot.segments.contains r.segment then
    (input.snapshot.isMember input.context r.segment unit).mapError .membership
  else .ok false

/-- The verdict from the unit's bucket. -/
def byBucket (f : Flag) (r : FlagRule) (unit : String) : Verdict :=
  match Bucket.of? unit r.segment r.allocation.bucketCount with
  | none => .failed (.emptyBucketSpace f.name r.name)
  | some bucket =>
    match r.allocation.assignmentFor? bucket with
    | none => .untreated
    | some a =>
      match a.kind with
      | .fallthrough => .fallthrough { rule := r.name, assignmentId := a.id, unit }
      | .clientDefault => .decided (r.assignmentMatch unit a.id none) none
      | .variant name =>
        match f.variant? name with
        | none => .failed (.unknownVariant f.name name)
        | some v =>
          .decided (r.assignmentMatch unit a.id (some v))
            (r.writeMaterialization?.map (r.stickyUpdate unit v.name))

/-- The verdict without regard to earlier decisions. -/
def afresh (input : ResolveInput) (f : Flag) (r : FlagRule) (unit : String) : Verdict :=
  match r.targets input unit with
  | .error cause => .failed cause
  | .ok false => .skipped
  | .ok true => r.byBucket f unit

/-- The verdict that keeps a variant given earlier. It is remembered where the rule writes, unless
that is where it was read. -/
def keep (r : FlagRule) (unit read : String) (v : Variant) : Verdict :=
  .decided (r.assignmentMatch unit (r.assignmentIdOf v.name) (some v))
    ((r.writeMaterialization?.filter (· ≠ read)).map (r.stickyUpdate unit v.name))

/-- The verdict of the rule on a unit. An earlier decision is kept as long as the flag defines the
variant and the unit is in the segment, or the segment may be ignored. -/
def decide (input : ResolveInput) (f : Flag) (r : FlagRule) (unit : String) :
    Option (String × UnitRecord) → Verdict
  | none => r.afresh input f unit
  | some (read, record) =>
    if record.enrolled then
      match r.recordedVariant? f record with
      | none => r.afresh input f unit
      | some v =>
        if r.readMode.ignoresTargeting then r.keep unit read v
        else match r.targets input unit with
          | .error cause => .failed cause
          | .ok true => r.keep unit read v
          | .ok false => r.afresh input f unit
    else if r.readMode.mustMatch then .skipped
    else r.afresh input f unit

end FlagRule

/-- How far the rules of a flag have been gone through. -/
structure RuleWalk where
  /-- The rules that left the decision to later ones, in order. -/
  fallthroughs : List Fallthrough
  /-- The records that are missing, in order. -/
  missing : List MissingRecord
  /-- A rule was for the unit, but its bucket had no assignment. -/
  untreated : Bool
  deriving DecidableEq, Repr

namespace RuleWalk

/-- Before the first rule. -/
def start : RuleWalk := { fallthroughs := [], missing := [], untreated := false }

/-- The outcome with a reason and the rules that fell through. -/
def outcome (w : RuleWalk) (f : Flag) (reason : ResolveReason) (assignment : Option AssignmentMatch)
    (update : Option StickyUpdate) : FlagOutcome :=
  .resolved
    { flag := f.name, reason, assignment, fallthroughs := w.fallthroughs, error := none } update

/-- The outcome behind the last rule. -/
def finish (w : RuleWalk) (f : Flag) : FlagOutcome :=
  if w.missing.isEmpty then
    w.outcome f
      (if w.untreated && w.fallthroughs.isEmpty then .noTreatmentMatch else .noSegmentMatch)
      none none
  else .missing w.missing

/-- Go through the rules that are left. -/
def run (input : ResolveInput) (f : Flag) (w : RuleWalk) :
    List FlagRule → Except ResolveError FlagOutcome
  | [] => .ok (w.finish f)
  | r :: rest =>
    match r.lookUp input with
    | .noUnit => run input f w rest
    | .notText =>
      if w.missing.isEmpty then .ok (w.outcome f .targetingKeyError none none)
      else run input f w rest
    | .tooLong length => .error (.unitTooLong length input.config.maxUnitLength)
    | .absent item => run input f { w with missing := w.missing ++ [item] } rest
    | .ready unit sticky =>
      if w.missing.isEmpty then
        match r.decide input f unit sticky with
        | .skipped => run input f w rest
        | .untreated => run input f { w with untreated := true } rest
        | .fallthrough entry =>
          run input f { w with fallthroughs := w.fallthroughs ++ [entry] } rest
        | .decided assignment update => .ok (w.outcome f .matched (some assignment) update)
        | .failed cause => .error cause
      else run input f w rest

end RuleWalk

/-- Resolve a flag. An archived flag is not looked into. -/
def resolveFlag (input : ResolveInput) (f : Flag) : Except ResolveError FlagOutcome :=
  match f.state with
  | .archived => .ok (.resolved (.ofReason f.name .flagArchived) none)
  | .active => RuleWalk.start.run input f (f.rules.filter (·.enabled))

end FeatureFlags
