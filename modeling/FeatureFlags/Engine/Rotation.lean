import FeatureFlags.Engine.Basic

/-!
# Rotation

A rotator answers from a current engine. A new snapshot is loaded into a fresh
engine, which then takes the place of the current one; the log of the retired engine
is handed over or kept for the next time it is asked for. If the fresh engine refuses
the snapshot, the current one stays.

A rotator is itself an engine.
-/

namespace FeatureFlags

/-- The state of a rotator over engines with states of type `σ`. -/
structure Rotator (σ : Type) where
  /-- The engine that answers. -/
  current : σ
  /-- How many engines answered before. -/
  generation : Nat
  /-- Logs of retired engines that have not been handed over. -/
  retired : Log

namespace Rotator

variable {σ : Type} (engine : Engine σ)

/-- A rotator whose first engine is a fresh one with the given snapshot. -/
def start (fresh : σ) (delivery : Delivery) : Except EngineError (Rotator σ) :=
  match engine.load delivery fresh with
  | (.error cause, _) => .error cause
  | (.ok (), current) => .ok { current, generation := 0, retired := ∅ }

/-- Put a fresh engine with the given snapshot in place of the current one, and hand over the log
of the retired engine. -/
def rotate (fresh : σ) (delivery : Delivery) (r : Rotator σ) :
    Except EngineError Log × Rotator σ :=
  match engine.load delivery fresh with
  | (.error cause, _) => (.error cause, r)
  | (.ok (), next) =>
    ((engine.flush r.current).1, { r with current := next, generation := r.generation + 1 })

/-- Put a fresh engine with the given snapshot in place of the current one, and keep the log of the
retired engine. -/
def load (fresh : σ) (delivery : Delivery) (r : Rotator σ) :
    Except EngineError Unit × Rotator σ :=
  match rotate engine fresh delivery r with
  | (.error cause, r) => (.error cause, r)
  | (.ok log, r) => (.ok (), { r with retired := r.retired ++ log })

/-- Resolve the flags of a request by the current engine. -/
def resolve (request : ResolveRequest) (occasion : Occasion) (r : Rotator σ) :
    Except EngineError EngineAnswer × Rotator σ :=
  let (answer, current) := engine.resolve request occasion r.current
  (answer, { r with current })

/-- Report the use of flags to the current engine. -/
def apply (request : ApplyRequest) (r : Rotator σ) : Except EngineError Unit × Rotator σ :=
  let (answer, current) := engine.apply request r.current
  (answer, { r with current })

/-- Hand over the logs of retired engines and of the current one. -/
def flush (r : Rotator σ) : Except EngineError Log × Rotator σ :=
  let (answer, current) := engine.flush r.current
  (answer.map (r.retired ++ ·), { r with current, retired := ∅ })

/-- The calls of a rotator that starts each engine from the same fresh state. -/
def toEngine (fresh : σ) : Engine (Rotator σ) :=
  { load := load engine fresh
    resolve := resolve engine
    apply := apply engine
    flush := flush engine }

end Rotator

end FeatureFlags
