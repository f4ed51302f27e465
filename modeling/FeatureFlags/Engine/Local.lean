import FeatureFlags.Engine.Basic

/-!
# The local engine

The engine that resolves by itself. A call that fails changes nothing; a request
that was resolved is logged together with its exposures, and so are the exposures
that are reported later.
-/

namespace FeatureFlags

/-- The state of a local engine. -/
structure LocalEngine where
  /-- The limits and the secret. -/
  config : Config
  /-- The snapshot, once one is loaded. -/
  snapshot : Option Snapshot
  /-- What has been done since the log was last handed over. -/
  log : Log

namespace LocalEngine

/-- An engine without a snapshot. -/
def start (config : Config) : LocalEngine := { config, snapshot := none, log := ∅ }

/-- An engine with a snapshot. -/
def ofSnapshot (config : Config) (snapshot : Snapshot) : LocalEngine :=
  { config, snapshot := some snapshot, log := ∅ }

/-- Why an engine without a snapshot cannot serve requests. -/
def notLoaded : EngineError := .unavailable "no state loaded"

/-- Answer from the snapshot that is delivered from now on. -/
def load (delivery : Delivery) (e : LocalEngine) : Except EngineError Unit × LocalEngine :=
  match Snapshot.ofDelivery delivery with
  | .ok snapshot => (.ok (), { e with snapshot := some snapshot })
  | .error cause => (.error (.snapshot cause), e)

/-- The engine after more has been done. -/
def record (e : LocalEngine) (done : Log) : LocalEngine := { e with log := e.log ++ done }

/-- Resolve the flags of a request. -/
def resolve (request : ResolveRequest) (occasion : Occasion) (e : LocalEngine) :
    Except EngineError EngineAnswer × LocalEngine :=
  match e.snapshot with
  | none => (.error notLoaded, e)
  | some snapshot =>
    match FeatureFlags.resolve snapshot e.config request occasion with
    | .error cause => (.error (.resolve cause), e)
    | .ok (.missing items) => (.ok (.missing items), e)
    | .ok (.resolved resolution) =>
      (.ok (.resolved resolution.response resolution.updates), e.record (.ofResolution resolution))

/-- Report the use of flags. -/
def apply (request : ApplyRequest) (e : LocalEngine) : Except EngineError Unit × LocalEngine :=
  match e.snapshot with
  | none => (.error notLoaded, e)
  | some snapshot =>
    match FeatureFlags.apply snapshot e.config request with
    | .error cause => (.error (.resolve cause), e)
    | .ok events => (.ok (), e.record (.ofEvents events))

/-- Hand over the log. -/
def flush (e : LocalEngine) : Except EngineError Log × LocalEngine :=
  (.ok e.log, { e with log := ∅ })

/-- The calls of the local engine. -/
def engine : Engine LocalEngine := { load, resolve, apply, flush }

/-- The fingerprint of the snapshot. -/
def fingerprint? (e : LocalEngine) : Option String := e.snapshot.map (·.fingerprint)

end LocalEngine

end FeatureFlags
