import FeatureFlags.Json.Record

/-!
# Outcomes of resolving a flag

- `ResolvedValue`: all that is known after a flag was resolved.
- `ResolvedFlag`: what of it the client is told.
-/

namespace FeatureFlags

/-- Why a flag resolved as it did. -/
inductive ResolveReason where
  /-- A rule decided. -/
  | matched
  /-- No rule applied to the unit. -/
  | noSegmentMatch
  /-- A rule applied, but the unit's bucket has no assignment. -/
  | noTreatmentMatch
  /-- The flag is archived. -/
  | flagArchived
  /-- The attribute that should name the unit is not a text. -/
  | targetingKeyError
  /-- The flag could not be resolved. -/
  | error
  deriving DecidableEq, Repr

namespace ResolveReason

def name : ResolveReason → String
  | matched => "RESOLVE_REASON_MATCH"
  | noSegmentMatch => "RESOLVE_REASON_NO_SEGMENT_MATCH"
  | noTreatmentMatch => "RESOLVE_REASON_NO_TREATMENT_MATCH"
  | flagArchived => "RESOLVE_REASON_FLAG_ARCHIVED"
  | targetingKeyError => "RESOLVE_REASON_TARGETING_KEY_ERROR"
  | error => "RESOLVE_REASON_ERROR"

def ofName? : String → Option ResolveReason
  | "RESOLVE_REASON_MATCH" => some matched
  | "RESOLVE_REASON_NO_SEGMENT_MATCH" => some noSegmentMatch
  | "RESOLVE_REASON_NO_TREATMENT_MATCH" => some noTreatmentMatch
  | "RESOLVE_REASON_FLAG_ARCHIVED" => some flagArchived
  | "RESOLVE_REASON_TARGETING_KEY_ERROR" => some targetingKeyError
  | "RESOLVE_REASON_ERROR" => some error
  | _ => none

def ofJson? (j : Json) : Option ResolveReason := j.unitVariant?.bind ofName?

end ResolveReason

/-- The decision of a rule. -/
structure AssignmentMatch where
  rule : String
  /-- The segment of the rule. -/
  segment : String
  /-- The assignment of the unit's bucket. -/
  assignmentId : String
  unit : String
  /-- The attribute that names the unit. -/
  selector : String
  /-- The variant; none where the client uses its own default. -/
  variant : Option String
  /-- The value of the variant. -/
  value : Option Fields
  deriving Repr

namespace AssignmentMatch

def toJson (m : AssignmentMatch) : Json :=
  .object [("rule", .string m.rule), ("segment", .string m.segment),
    ("assignment_id", .string m.assignmentId), ("targeting_key", .string m.unit),
    ("targeting_key_selector", .string m.selector),
    ("variant", Json.ofOption .string m.variant), ("value", Json.ofOption .object m.value)]

def ofJson? (j : Json) : Option AssignmentMatch := do
  let r ← Record.ofJson?
    ["rule", "segment", "assignment_id", "targeting_key", "targeting_key_selector", "variant",
      "value"] j
  let rule ← r.required "rule" Json.asString?
  let segment ← r.required "segment" Json.asString?
  let assignmentId ← r.required "assignment_id" Json.asString?
  let unit ← r.required "targeting_key" Json.asString?
  let selector ← r.required "targeting_key_selector" Json.asString?
  let variant ← r.optional "variant" Json.asString?
  let value ← r.optional "value" Json.asFields?
  return { rule, segment, assignmentId, unit, selector, variant, value }

end AssignmentMatch

/-- A rule that applied and left the decision to later ones. -/
structure Fallthrough where
  rule : String
  /-- The assignment of the unit's bucket. -/
  assignmentId : String
  unit : String
  deriving DecidableEq, Repr

namespace Fallthrough

def toJson (f : Fallthrough) : Json :=
  .object [("rule", .string f.rule), ("assignment_id", .string f.assignmentId),
    ("targeting_key", .string f.unit)]

def ofJson? (j : Json) : Option Fallthrough := do
  let r ← Record.ofJson? ["rule", "assignment_id", "targeting_key"] j
  let rule ← r.required "rule" Json.asString?
  let assignmentId ← r.required "assignment_id" Json.asString?
  let unit ← r.required "targeting_key" Json.asString?
  return { rule, assignmentId, unit }

end Fallthrough

/-- All that is known after a flag was resolved. -/
structure ResolvedValue where
  flag : String
  /-- Why it resolved so. -/
  reason : ResolveReason
  /-- The decision, if a rule made one. -/
  assignment : Option AssignmentMatch
  /-- The rules that applied before and left the decision to later ones. -/
  fallthroughs : List Fallthrough
  /-- What went wrong, if anything. -/
  error : Option String
  deriving Repr

namespace ResolvedValue

/-- A value with nothing but a reason. -/
def ofReason (flag : String) (reason : ResolveReason) : ResolvedValue :=
  { flag, reason, assignment := none, fallthroughs := [], error := none }

/-- The value of a flag that could not be resolved. -/
def ofError (flag message : String) : ResolvedValue :=
  { ofReason flag .error with error := some message }

/-- Whether the client has something to report when it uses the flag: a decision, or a rule that
applied and left the decision to others. -/
def shouldApply (v : ResolvedValue) : Bool := v.assignment.isSome || !v.fallthroughs.isEmpty

/-- The variant decided on. -/
def variant? (v : ResolvedValue) : Option String := v.assignment.bind (·.variant)

def toJson (v : ResolvedValue) : Json :=
  .object ([("flag", .string v.flag), ("reason", .string v.reason.name),
      ("assignment_match", Json.ofOption AssignmentMatch.toJson v.assignment),
      ("fallthrough_rules", Json.ofList Fallthrough.toJson v.fallthroughs)] ++
    Json.optionalField "error" .string v.error)

def ofJson? (j : Json) : Option ResolvedValue := do
  let r ← Record.ofJson? ["flag", "reason", "assignment_match", "fallthrough_rules", "error"] j
  let flag ← r.required "flag" Json.asString?
  let reason ← r.required "reason" ResolveReason.ofJson?
  let assignment ← r.optional "assignment_match" AssignmentMatch.ofJson?
  let fallthroughs ← r.required "fallthrough_rules" (Json.asList? Fallthrough.ofJson?)
  let error ← r.optionalDefaulted "error" Json.asString?
  return { flag, reason, assignment, fallthroughs, error }

end ResolvedValue

/-- What a client is told about a flag. -/
structure ResolvedFlag where
  flag : String
  /-- Why it resolved so. -/
  reason : ResolveReason
  /-- The variant decided on. -/
  variant : Option String
  /-- The value of the variant. -/
  value : Option Fields
  /-- Whether the client has something to report when it uses the flag. -/
  shouldApply : Bool
  /-- The rules that applied before and left the decision to later ones. -/
  fallthroughs : List Fallthrough
  /-- What went wrong, if anything. -/
  error : Option String
  deriving Repr

namespace ResolvedFlag

/-- What of a resolved value a client is told. -/
def ofValue (v : ResolvedValue) : ResolvedFlag :=
  { flag := v.flag
    reason := v.reason
    variant := v.variant?
    value := v.assignment.bind (·.value)
    shouldApply := v.shouldApply
    fallthroughs := v.fallthroughs
    error := v.error }

def toJson (f : ResolvedFlag) : Json :=
  .object ([("flag", .string f.flag), ("reason", .string f.reason.name),
      ("variant", Json.ofOption .string f.variant), ("value", Json.ofOption .object f.value),
      ("should_apply", .bool f.shouldApply)] ++
    (if f.fallthroughs.isEmpty then []
      else [("fallthrough_rules", Json.ofList Fallthrough.toJson f.fallthroughs)]) ++
    Json.optionalField "error" .string f.error)

def ofJson? (j : Json) : Option ResolvedFlag := do
  let r ← Record.ofJson?
    ["flag", "reason", "variant", "value", "should_apply", "fallthrough_rules", "error"] j
  let flag ← r.required "flag" Json.asString?
  let reason ← r.required "reason" ResolveReason.ofJson?
  let variant ← r.optional "variant" Json.asString?
  let value ← r.optional "value" Json.asFields?
  let shouldApply ← r.required "should_apply" Json.asBool?
  let fallthroughs ← r.defaulted "fallthrough_rules" [] (Json.asList? Fallthrough.ofJson?)
  let error ← r.optionalDefaulted "error" Json.asString?
  return { flag, reason, variant, value, shouldApply, fallthroughs, error }

end ResolvedFlag

end FeatureFlags
