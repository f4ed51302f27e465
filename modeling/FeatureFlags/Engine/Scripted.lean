import FeatureFlags.Engine.Basic

/-!
# The scripted engine

An engine that gives prepared answers and keeps the requests it was asked, to try out
what sits on an engine.
-/

namespace FeatureFlags

/-- The state of a scripted engine. -/
structure ScriptedEngine where
  /-- The answers in order; the last one is given again and again. -/
  script : List (Except EngineError EngineAnswer)
  /-- The requests so far. -/
  requests : List ResolveRequest

namespace ScriptedEngine

/-- An engine that has not been asked yet. -/
def start (script : List (Except EngineError EngineAnswer)) : ScriptedEngine :=
  { script, requests := [] }

/-- The next answer. -/
def next (e : ScriptedEngine) : Except EngineError EngineAnswer :=
  ((e.script[e.requests.length]?).or e.script.getLast?).getD (.error (.unavailable "no script"))

/-- The calls of the scripted engine: it takes any snapshot, and its log stays empty. -/
def engine : Engine ScriptedEngine :=
  { load := fun _ e => (.ok (), e)
    resolve := fun request _ e => (e.next, { e with requests := e.requests ++ [request] })
    apply := fun _ e => (.ok (), e)
    flush := fun e => (.ok ∅, e) }

end ScriptedEngine

end FeatureFlags
