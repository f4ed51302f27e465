import FeatureFlags.Context
import FeatureFlags.Digest.Sha256
import FeatureFlags.Fingerprint
import FeatureFlags.Json.Reader
import FeatureFlags.Resolution.Outcome

/-!
# Resolve tokens

A resolve that is not applied at once hands the client a token of what it decided.
The client returns the token when it uses a flag, and the decision is taken from
the token instead of being made again.

- `ResolveToken.toText`: the text of a token: a version, the token in hexadecimal,
  and a tag that needs the secret to be made.
- `ResolveToken.ofText`: the token in a text whose tag is right.
-/

namespace FeatureFlags

/-- What was decided for one flag. -/
structure AssignedFlag where
  flag : String
  /-- Why it resolved so. -/
  reason : ResolveReason
  /-- The rule that decided. -/
  rule : Option String
  /-- The segment of that rule. -/
  segment : Option String
  /-- The assignment of the unit's bucket. -/
  assignmentId : Option String
  variant : Option String
  unit : Option String
  /-- The attribute that names the unit. -/
  selector : Option String
  /-- The rules that applied before and left the decision to later ones. -/
  fallthroughs : List Fallthrough
  deriving DecidableEq, Repr

namespace AssignedFlag

/-- What was decided, from all that is known after resolving. -/
def ofValue (v : ResolvedValue) : AssignedFlag :=
  { flag := v.flag
    reason := v.reason
    rule := v.assignment.map (·.rule)
    segment := v.assignment.map (·.segment)
    assignmentId := v.assignment.map (·.assignmentId)
    variant := v.assignment.bind (·.variant)
    unit := v.assignment.map (·.unit)
    selector := v.assignment.map (·.selector)
    fallthroughs := v.fallthroughs }

/-- Whether there is something to report when the flag is used. -/
def shouldApply (a : AssignedFlag) : Bool := a.assignmentId.isSome || !a.fallthroughs.isEmpty

def toJson (a : AssignedFlag) : Json :=
  .object [("flag", .string a.flag), ("reason", .string a.reason.name),
    ("rule", Json.ofOption .string a.rule), ("segment", Json.ofOption .string a.segment),
    ("assignment_id", Json.ofOption .string a.assignmentId),
    ("variant", Json.ofOption .string a.variant),
    ("targeting_key", Json.ofOption .string a.unit),
    ("targeting_key_selector", Json.ofOption .string a.selector),
    ("fallthrough_rules", Json.ofList Fallthrough.toJson a.fallthroughs)]

/-- What was decided for a flag, from a token. -/
def ofJson? (j : Json) : Option AssignedFlag := do
  let r ← Record.ofJson?
    ["flag", "reason", "rule", "segment", "assignment_id", "variant", "targeting_key",
      "targeting_key_selector", "fallthrough_rules"] j
  let flag ← r.required "flag" Json.asString?
  let reason ← r.required "reason" ResolveReason.ofJson?
  let rule ← r.optional "rule" Json.asString?
  let segment ← r.optional "segment" Json.asString?
  let assignmentId ← r.optional "assignment_id" Json.asString?
  let variant ← r.optional "variant" Json.asString?
  let unit ← r.optional "targeting_key" Json.asString?
  let selector ← r.optional "targeting_key_selector" Json.asString?
  let fallthroughs ← r.required "fallthrough_rules" (Json.asList? Fallthrough.ofJson?)
  return { flag, reason, rule, segment, assignmentId, variant, unit, selector, fallthroughs }

end AssignedFlag

/-- Why a sealed token is not accepted. -/
inductive TokenError where
  /-- The text has not three parts, or a part is not hexadecimal. -/
  | malformed
  /-- The text begins with the wrong version. -/
  | unsupportedVersion (version : String)
  /-- The tag is not the one the secret gives. -/
  | signatureMismatch
  /-- The tag is right, but the payload is no token. -/
  | invalidPayload
  deriving DecidableEq, Repr

namespace TokenError

/-- The text of the error; what is wrong with a payload is left to the reader of JSON. -/
def message : TokenError → String
  | malformed => "Malformed resolve token"
  | unsupportedVersion version => "Unsupported resolve token version: " ++ version
  | signatureMismatch => "Resolve token signature mismatch"
  | invalidPayload => "Resolve token payload invalid"

end TokenError

/-- The decisions of a resolve. -/
structure ResolveToken where
  /-- The account of the snapshot. -/
  account : String
  /-- The name of the resolve. -/
  resolveId : String
  /-- The fingerprint of the snapshot. -/
  stateFingerprint : String
  /-- The context that the flags were resolved against. -/
  context : Context
  assignedFlags : List AssignedFlag
  deriving Repr

namespace ResolveToken

/-- The version of the texts that are written and read. -/
def version : String := "rt1"

/-- The number of bytes of the digest that make the tag. -/
def tagLength : Nat := 16

/-- The decision for a flag. -/
def assigned? (t : ResolveToken) (flag : String) : Option AssignedFlag :=
  t.assignedFlags.find? (·.flag = flag)

def toJson (t : ResolveToken) : Json :=
  .object [("account", .string t.account), ("resolve_id", .string t.resolveId),
    ("state_fingerprint", .string t.stateFingerprint), ("evaluation_context", t.context.toJson),
    ("assigned_flags", Json.ofList AssignedFlag.toJson t.assignedFlags)]

/-- A token from its form inside the sealed text. -/
def ofJson? (j : Json) : Option ResolveToken := do
  let r ← Record.ofJson?
    ["account", "resolve_id", "state_fingerprint", "evaluation_context", "assigned_flags"] j
  let account ← r.required "account" Json.asString?
  let resolveId ← r.required "resolve_id" Json.asString?
  let stateFingerprint ← r.required "state_fingerprint" Json.asString?
  let context ← r.required "evaluation_context" Context.ofJson?
  let assignedFlags ← r.required "assigned_flags" (Json.asList? AssignedFlag.ofJson?)
  return { account, resolveId, stateFingerprint, context, assignedFlags }

/-- The digest of version and payload under a secret; a tag is a part of its front. -/
def mac (secret : List UInt8) (payload : String) : List UInt8 :=
  Digest.Sha256.hmac secret (Text.Utf8.encode (version ++ "|" ++ payload))

/-- The text of a token. -/
def toText (t : ResolveToken) (secret : List UInt8) : String :=
  let payload := String.ofList (Text.Hex.encode t.toJson.toBytes)
  let tag := String.ofList (Text.Hex.encode ((mac secret payload).take tagLength))
  version ++ "." ++ payload ++ "." ++ tag

/-- The parts of a text before its first point, between its first two points, and behind the
second. -/
def threeParts? (text : String) : Option (String × String × String) :=
  let rest (cs : List Char) : Option (List Char) :=
    match cs.dropWhile (· ≠ '.') with
    | _ :: rest => some rest
    | [] => none
  let cs := text.toList
  match rest cs with
  | none => none
  | some cs₁ =>
    match rest cs₁ with
    | none => none
    | some cs₂ =>
      some (String.ofList (cs.takeWhile (· ≠ '.')), String.ofList (cs₁.takeWhile (· ≠ '.')),
        String.ofList cs₂)

/-- Whether a tag is right: any part of the front of the digest that is not empty. -/
def isTag (tag digest : List UInt8) : Bool := !tag.isEmpty && tag.isPrefixOf digest

/-- The token in the bytes of a payload. -/
def ofBytes? (bytes : List UInt8) : Option ResolveToken := (Json.ofBytes? bytes).bind ofJson?

/-- The token in a text, if its tag is right. -/
def ofText (secret : List UInt8) (text : String) : Except TokenError ResolveToken :=
  match threeParts? text with
  | none => .error .malformed
  | some (found, payload, tag) =>
    if found ≠ version then .error (.unsupportedVersion found)
    else match Text.Hex.decode? tag.toList with
      | none => .error .malformed
      | some tag =>
        if !isTag tag (mac secret payload) then .error .signatureMismatch
        else match Text.Hex.decode? payload.toList with
          | none => .error .malformed
          | some bytes =>
            match ofBytes? bytes with
            | some t => .ok t
            | none => .error .invalidPayload

end ResolveToken

end FeatureFlags
