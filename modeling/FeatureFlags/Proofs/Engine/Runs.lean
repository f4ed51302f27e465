import FeatureFlags.Engine.Local
import FeatureFlags.Engine.Rotation

/-!
# Runs of engines and of rotators

All that is seen of an engine are its replies to the commands that it is given, one after the
other (`Engine.run`). The names of resolves and the time of day come in with the commands, so that
two engines that are given the same commands draw the same ones.

A rotator is an engine that can also be told to rotate (`RotatorCommand`). A fresh engine stands
ready for every command, in case that it loads a snapshot. The fresh engines of a run may differ,
so each of them may refuse or accept its snapshot as it likes. A run is told by its turns
(`Rotator.turns`): each command with the fresh engine for it and the state that it found.
-/

namespace FeatureFlags

/-- What an engine is told to do. -/
inductive EngineCommand where
  | load (delivery : Delivery)
  | resolve (request : ResolveRequest) (occasion : Occasion)
  | apply (request : ApplyRequest)
  | flush

/-- What an engine replies. -/
inductive EngineReply where
  | loaded (answer : Except EngineError Unit)
  | resolved (answer : Except EngineError EngineAnswer)
  | applied (answer : Except EngineError Unit)
  | flushed (answer : Except EngineError Log)

/-- What a response tells of the resolve. -/
def ResolveResponse.told (response : ResolveResponse) : String × String × List ResolvedFlag :=
  (response.resolveId, response.stateFingerprint, response.flags)

/-- What an entry tells of the resolve. -/
def ResolveEntry.told (entry : ResolveEntry) : String × String × List ResolvedFlag :=
  (entry.resolveId, entry.stateFingerprint, entry.flags)

namespace EngineReply

/-- The log that is handed over with the reply. -/
def handedOver : EngineReply → Log
  | flushed (.ok log) => log
  | _ => ∅

/-- The response to a request whose flags are resolved. -/
def response? : EngineReply → Option ResolveResponse
  | resolved (.ok (.resolved response _)) => some response
  | _ => none

/-- Whether the command failed. -/
def tellsFailure : EngineReply → Bool
  | loaded (.error _) | resolved (.error _) | applied (.error _) | flushed (.error _) => true
  | _ => false

/-- Whether the reply is a report of missing records. -/
def tellsMissing : EngineReply → Bool
  | resolved (.ok (.missing _)) => true
  | _ => false

/-- Whether the reply is a response, or says that a report of used flags was accepted. -/
def tellsUse : EngineReply → Bool
  | resolved (.ok (.resolved _ _)) => true
  | applied (.ok ()) => true
  | _ => false

end EngineReply

namespace Engine

variable {σ : Type} (engine : Engine σ)

/-- Do what the command says. -/
def perform : EngineCommand → σ → EngineReply × σ
  | .load delivery, e => Prod.map .loaded id (engine.load delivery e)
  | .resolve request occasion, e => Prod.map .resolved id (engine.resolve request occasion e)
  | .apply request, e => Prod.map .applied id (engine.apply request e)
  | .flush, e => Prod.map .flushed id (engine.flush e)

/-- Do what the commands say in turn. -/
def run : List EngineCommand → σ → List EngineReply × σ
  | [], e => ([], e)
  | command :: rest, e =>
    Prod.map ((engine.perform command e).1 :: ·) id (run rest (engine.perform command e).2)

/-- A command of a run, with the state that it finds. -/
structure Turn (σ : Type) where
  command : EngineCommand
  before : σ

/-- The reply to the command. -/
def Turn.reply (t : Turn σ) : EngineReply := (engine.perform t.command t.before).1

/-- The state that the command leaves behind. -/
def Turn.after (t : Turn σ) : σ := (engine.perform t.command t.before).2

/-- The turns of the commands. -/
def turns : List EngineCommand → σ → List (Turn σ)
  | [], _ => []
  | command :: rest, e =>
    { command, before := e } :: turns rest (engine.perform command e).2

end Engine

/-- What a rotator is told to do. -/
inductive RotatorCommand where
  | rotate (delivery : Delivery)
  | asEngine (command : EngineCommand)

/-- What a rotator replies. -/
inductive RotatorReply where
  | rotated (answer : Except EngineError Log)
  | asEngine (reply : EngineReply)

namespace RotatorReply

/-- The log that is handed over with the reply. -/
def handedOver : RotatorReply → Log
  | rotated (.ok log) => log
  | asEngine (.flushed (.ok log)) => log
  | _ => ∅

/-- The response to a request whose flags are resolved. -/
def response? : RotatorReply → Option ResolveResponse
  | asEngine reply => reply.response?
  | _ => none

/-- Whether a fresh engine has taken the place of the current one, by what is told. -/
def tellsSwap : RotatorReply → Bool
  | rotated (.ok _) => true
  | asEngine (.loaded (.ok _)) => true
  | _ => false

/-- Whether the rotator fails to load, to rotate or to hand over its log. -/
def tellsFailure : RotatorReply → Bool
  | rotated (.error _) => true
  | asEngine (.loaded (.error _)) => true
  | asEngine (.flushed (.error _)) => true
  | _ => false

end RotatorReply

namespace Rotator

variable {σ : Type} (engine : Engine σ)

/-- Do what the command says, where the fresh engine takes over if one is asked for. -/
def perform (fresh : σ) : RotatorCommand → Rotator σ → RotatorReply × Rotator σ
  | .rotate delivery, r => Prod.map .rotated id (rotate engine fresh delivery r)
  | .asEngine command, r => Prod.map .asEngine id ((toEngine engine fresh).perform command r)

/-- A command of a run, with the fresh engine that stands ready for it and the state that it
finds. -/
structure Turn (σ : Type) where
  fresh : σ
  command : RotatorCommand
  before : Rotator σ

namespace Turn

/-- The reply to the command. -/
def reply (t : Turn σ) : RotatorReply := (perform engine t.fresh t.command t.before).1

/-- The state that the command leaves behind. -/
def after (t : Turn σ) : Rotator σ := (perform engine t.fresh t.command t.before).2

end Turn

/-- The turns of the commands; the engine `fresh n` stands ready for the one at position `n`. -/
def turns : (fresh : Nat → σ) → List RotatorCommand → Rotator σ → List (Turn σ)
  | _, [], _ => []
  | fresh, command :: rest, r =>
    { fresh := fresh 0, command, before := r } ::
      turns (fun n => fresh (n + 1)) rest (perform engine (fresh 0) command r).2

/-- The replies to the commands. -/
def replies (fresh : Nat → σ) (commands : List RotatorCommand) (r : Rotator σ) :
    List RotatorReply :=
  (turns engine fresh commands r).map (·.reply engine)

theorem replies_cons (fresh : Nat → σ) (command : RotatorCommand) (rest : List RotatorCommand)
    (r : Rotator σ) : replies engine fresh (command :: rest) r =
      (perform engine (fresh 0) command r).1 ::
        replies engine (fun n => fresh (n + 1)) rest (perform engine (fresh 0) command r).2 :=
  rfl

/-- The state after the commands. -/
def run : (fresh : Nat → σ) → List RotatorCommand → Rotator σ → Rotator σ
  | _, [], r => r
  | fresh, command :: rest, r =>
    run (fun n => fresh (n + 1)) rest (perform engine (fresh 0) command r).2

end Rotator

end FeatureFlags
