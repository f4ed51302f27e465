import FeatureFlags.Resolution.FlagOutcome

/-!
# Resolving requests

- `resolve`: resolve the flags that a request names, or all that its client may
  resolve. A fault of the request refuses all of it; an error within a flag stays
  with that flag. If a record is missing anywhere, all missing records are
  reported and nothing is decided.
- `apply`: report the use of flags that were resolved earlier.

The name of a resolve and the time of day are arguments: neither has any influence
on what is decided.
-/

namespace FeatureFlags

/-- A request to resolve flags. -/
structure ResolveRequest where
  /-- The secret of the client. -/
  clientSecret : String
  /-- The flags; none means all that the client may resolve. -/
  flags : List String := []
  context : Context := .empty
  /-- Whether the flags are used at once. -/
  apply : Bool := false
  /-- The records at hand. -/
  materializations : Materializations := .empty

namespace ResolveRequest

def toJson (r : ResolveRequest) : Json :=
  .object [("client_secret", .string r.clientSecret), ("flags", Json.ofList .string r.flags),
    ("evaluation_context", r.context.toJson), ("apply", .bool r.apply),
    ("materializations", r.materializations.toJson)]

def ofJson? (j : Json) : Option ResolveRequest := do
  let r ← Record.ofJson?
    ["client_secret", "flags", "evaluation_context", "apply", "materializations"] j
  let clientSecret ← r.required "client_secret" Json.asString?
  let flags ← r.defaulted "flags" [] (Json.asList? Json.asString?)
  let context ← r.defaulted "evaluation_context" .empty Context.ofJson?
  let apply ← r.defaulted "apply" false Json.asBool?
  let materializations ← r.defaulted "materializations" .empty Materializations.ofJson?
  return { clientSecret, flags, context, apply, materializations }

end ResolveRequest

/-- The answer to a request. -/
structure ResolveResponse where
  /-- The name of the resolve. -/
  resolveId : String
  /-- The flags, in the order of the request. -/
  flags : List ResolvedFlag
  /-- The token for a later report, unless the flags are used at once. -/
  token : Option String
  /-- The fingerprint of the snapshot. -/
  stateFingerprint : String
  deriving Repr

namespace ResolveResponse

/-- What the answer says about a flag. -/
def flag? (r : ResolveResponse) (name : String) : Option ResolvedFlag :=
  r.flags.find? (·.flag = name)

def toJson (r : ResolveResponse) : Json :=
  .object ([("resolve_id", .string r.resolveId),
      ("resolved_flags", Json.ofList ResolvedFlag.toJson r.flags)] ++
    Json.optionalField "resolve_token" .string r.token ++
    [("state_fingerprint", .string r.stateFingerprint)])

def ofJson? (j : Json) : Option ResolveResponse := do
  let r ← Record.ofJson? ["resolve_id", "resolved_flags", "resolve_token", "state_fingerprint"] j
  let resolveId ← r.required "resolve_id" Json.asString?
  let flags ← r.required "resolved_flags" (Json.asList? ResolvedFlag.ofJson?)
  let token ← r.optionalDefaulted "resolve_token" Json.asString?
  let stateFingerprint ← r.required "state_fingerprint" Json.asString?
  return { resolveId, flags, token, stateFingerprint }

end ResolveResponse

/-- The use of a flag. -/
structure AppliedFlag where
  flag : String
  /-- When it was used. -/
  appliedAt : Instant
  deriving DecidableEq, Repr

namespace AppliedFlag

/-- The use of a flag from its written form; where no time is given, it is used `now`. -/
def ofJson? (now : Instant) (j : Json) : Option AppliedFlag := do
  let r ← Record.ofJson? ["flag", "applied_at"] j
  let flag ← r.required "flag" Json.asString?
  let appliedAt ← r.defaulted "applied_at" now fun j => j.asString?.bind Instant.ofLooseText?
  return { flag, appliedAt }

end AppliedFlag

/-- A report of the use of flags that were resolved earlier. -/
structure ApplyRequest where
  /-- The secret of the client. -/
  clientSecret : String
  /-- The token of the resolve. -/
  token : String
  /-- The flags that were used. -/
  flags : List AppliedFlag
  deriving DecidableEq, Repr

namespace ApplyRequest

def ofJson? (now : Instant) (j : Json) : Option ApplyRequest := do
  let r ← Record.ofJson? ["client_secret", "resolve_token", "flags"] j
  let clientSecret ← r.required "client_secret" Json.asString?
  let token ← r.required "resolve_token" Json.asString?
  let flags ← r.required "flags" (Json.asList? (AppliedFlag.ofJson? now))
  return { clientSecret, token, flags }

end ApplyRequest

/-- The exposure of a client to a decision. -/
structure AssignmentEvent where
  /-- The name of the resolve. -/
  resolveId : String
  client : String
  assignment : AssignedFlag
  /-- When the flag was used. -/
  appliedAt : Instant
  deriving DecidableEq, Repr

namespace AssignmentEvent

def toJson (e : AssignmentEvent) : Json :=
  .object [("resolve_id", .string e.resolveId), ("client", .string e.client),
    ("assignment", e.assignment.toJson), ("applied_at", .string e.appliedAt.toText)]

def ofJson? (j : Json) : Option AssignmentEvent := do
  let r ← Record.ofJson? ["resolve_id", "client", "assignment", "applied_at"] j
  let resolveId ← r.required "resolve_id" Json.asString?
  let client ← r.required "client" Json.asString?
  let assignment ← r.required "assignment" AssignedFlag.ofJson?
  let appliedAt ← r.required "applied_at" fun j => j.asString?.bind Instant.ofLooseText?
  return { resolveId, client, assignment, appliedAt }

end AssignmentEvent

/-- A request that was resolved. -/
structure Resolution where
  client : String
  response : ResolveResponse
  /-- All that is known about the flags. -/
  values : List ResolvedValue
  /-- The decisions that are to be remembered. -/
  updates : List StickyUpdate
  /-- The exposures, if the flags are used at once. -/
  events : List AssignmentEvent
  deriving Repr

/-- The outcome of a request. -/
inductive ResolveOutcome where
  /-- All flags were decided. -/
  | resolved (resolution : Resolution)
  /-- These records are missing. -/
  | missing (items : List MissingRecord)
  deriving Repr

/-- What gives a resolve its name and its time; neither matters for what is decided. -/
structure Occasion where
  /-- The name of the resolve. -/
  resolveId : String
  /-- The time of day. -/
  now : Instant
  deriving DecidableEq, Repr

/-- The flags that a request names, each of which the client may resolve. The first name for which
this fails counts. -/
def Snapshot.namedFlags (s : Snapshot) (client : String) :
    List String → Except ResolveError (List Flag)
  | [] => .ok []
  | name :: rest =>
    match s.flags.get? name with
    | none => .error (.flagNotFound name)
    | some f =>
      if f.isAvailableTo client then (namedFlags s client rest).map (f :: ·)
      else .error (.flagNotEligible name client)

/-- The flags of a request: those it names or, where it names none, all that the client may
resolve by ascending name. -/
def Snapshot.selectFlags (s : Snapshot) (client : String) (names : List String) :
    Except ResolveError (List Flag) :=
  if names.isEmpty then .ok ((s.flags.toList.map (·.2)).filter (·.isAvailableTo client))
  else s.namedFlags client names

/-- What has been found out about the flags of a request. -/
structure Findings where
  /-- The flags that were decided or failed, in order. -/
  values : List ResolvedValue
  /-- The decisions that are to be remembered, in order. -/
  updates : List StickyUpdate
  /-- The records that are missing. -/
  missing : List MissingRecord

namespace Findings

/-- What one flag adds. An error within the flag becomes its value. -/
def ofFlag (input : ResolveInput) (f : Flag) : Findings :=
  match resolveFlag input f with
  | .ok (.resolved value update) => { values := [value], updates := update.toList, missing := [] }
  | .ok (.missing items) => { values := [], updates := [], missing := items }
  | .error cause => { values := [.ofError f.name cause.message], updates := [], missing := [] }

/-- What the flags add up to. -/
def ofFlags (input : ResolveInput) (flags : List Flag) : Findings :=
  let each := flags.map (ofFlag input)
  { values := each.flatMap (·.values)
    updates := each.flatMap (·.updates)
    missing := each.flatMap (·.missing) }

end Findings

/-- The resolution of a request from what has been found out. The decisions go into a token, or
into exposures if the flags are used at once. -/
def Findings.toResolution (found : Findings) (snapshot : Snapshot) (config : Config)
    (client : String) (request : ResolveRequest) (occasion : Occasion) : Resolution :=
  let assigned := found.values.map AssignedFlag.ofValue
  let token : ResolveToken :=
    { account := snapshot.account
      resolveId := occasion.resolveId
      stateFingerprint := snapshot.fingerprint
      context := request.context
      assignedFlags := assigned }
  let events := (assigned.filter (·.shouldApply)).map fun assignment =>
    { resolveId := occasion.resolveId, client, assignment
      appliedAt := occasion.now : AssignmentEvent }
  { client
    response :=
      { resolveId := occasion.resolveId
        flags := found.values.map ResolvedFlag.ofValue
        token := if request.apply then none else some (token.toText config.secret)
        stateFingerprint := snapshot.fingerprint }
    values := found.values
    updates := found.updates
    events := if request.apply then events else [] }

/-- Resolve a request. -/
def resolve (snapshot : Snapshot) (config : Config) (request : ResolveRequest)
    (occasion : Occasion) : Except ResolveError ResolveOutcome :=
  match snapshot.clientFor? request.clientSecret with
  | none => .error .invalidClientSecret
  | some client =>
    if config.maxFlags < request.flags.length then
      .error (.tooManyFlags request.flags.length config.maxFlags)
    else do
      let flags ← snapshot.selectFlags client request.flags
      let input : ResolveInput :=
        { snapshot, config, context := request.context
          materializations := request.materializations }
      let found := Findings.ofFlags input flags
      if found.missing.isEmpty then
        return .resolved (found.toResolution snapshot config client request occasion)
      else return .missing (MissingRecord.distinct found.missing)

/-- The exposures of the flags that were used. The first flag that the token does not have
counts. -/
def ResolveToken.exposures (t : ResolveToken) (client : String) :
    List AppliedFlag → Except ResolveError (List AssignmentEvent)
  | [] => .ok []
  | used :: rest =>
    match t.assigned? used.flag with
    | none => .error (.flagNotInToken used.flag)
    | some assignment =>
      (exposures t client rest).map fun events =>
        if assignment.shouldApply then
          { resolveId := t.resolveId, client, assignment, appliedAt := used.appliedAt } :: events
        else events

/-- Report the use of flags that were resolved earlier. -/
def apply (snapshot : Snapshot) (config : Config) (request : ApplyRequest) :
    Except ResolveError (List AssignmentEvent) :=
  match snapshot.clientFor? request.clientSecret with
  | none => .error .invalidClientSecret
  | some client =>
    match ResolveToken.ofText config.secret request.token with
    | .error cause => .error (.token cause)
    | .ok token =>
      if token.account = snapshot.account then token.exposures client request.flags
      else .error (.accountMismatch snapshot.account token.account)

end FeatureFlags
