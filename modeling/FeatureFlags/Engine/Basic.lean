import FeatureFlags.Engine.Log

/-!
# Engines

An engine holds a snapshot and answers requests from it. Here is what an engine is
from outside: four calls, each of which may fail and may change the state of the
engine. What an engine draws at random comes in with the call: ids, the time of day,
and the order in which the segments of a configuration are looked at.
-/

namespace FeatureFlags

/-- Why a call of an engine fails. -/
inductive EngineError where
  /-- The request is refused. -/
  | resolve (cause : ResolveError)
  /-- The snapshot is refused. -/
  | snapshot (cause : SnapshotError)
  /-- The engine cannot serve requests. -/
  | unavailable (reason : String)
  deriving DecidableEq, Repr

namespace EngineError

/-- The text of the error. -/
def message : EngineError → String
  | resolve cause => cause.message
  | snapshot cause => cause.message
  | unavailable reason => "Runtime unavailable: " ++ reason

end EngineError

/-- The answer of an engine to a request. -/
inductive EngineAnswer where
  /-- All flags were decided; the updates are to be remembered. -/
  | resolved (response : ResolveResponse) (updates : List StickyUpdate)
  /-- These records are missing. -/
  | missing (items : List MissingRecord)
  deriving Repr

/-- The calls of an engine whose states are of type `σ`. -/
structure Engine (σ : Type) where
  /-- Answer from the snapshot that is delivered from now on. -/
  load : Delivery → σ → Except EngineError Unit × σ
  /-- Resolve the flags of a request. -/
  resolve : ResolveRequest → Occasion → σ → Except EngineError EngineAnswer × σ
  /-- Report the use of flags. -/
  apply : ApplyRequest → σ → Except EngineError Unit × σ
  /-- Hand over the log. -/
  flush : σ → Except EngineError Log × σ

end FeatureFlags
