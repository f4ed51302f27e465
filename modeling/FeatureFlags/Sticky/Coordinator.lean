import FeatureFlags.Sticky.Error

/-!
# Sticky resolves

An engine cannot decide a flag that reads records which are not at hand: it reports
them as missing. A coordinator sits on an engine and answers such requests all the
same, in one of two ways:

- it hands the request over to another resolver, or
- it loads the missing records from a store and asks the engine again. A record that
  the store does not have counts as empty, so that it is at hand the next time.

The number of rounds of loading is bounded. Once all flags are decided, the decisions
that are to be remembered are saved in the store; a save that fails does not change
the answer.

A run is one schedule of these calls. The loads of a round are made one after the
other, by ascending unit, and the first one that fails ends the round. All saves are
made by the time the answer is given. So a service that has the loads of a round under
way together is covered as far as its store answers a load for one unit alike whether
or not loads for other units are under way, and no more than one of them fails: which
of several failures counts, and whether the rest is still asked, depends on the
schedule. A service that saves in the background is covered as far as it waits for
these saves before the next request or the next call of the store. Saves that race
loads are dealt with for the cached store alone (`SharedStore`).
-/

namespace FeatureFlags

/-- How a coordinator deals with missing records; its helpers have states of type `τ`. -/
inductive StickyStrategy (τ : Type) where
  /-- Hand the request over to another resolver. -/
  | fallback (resolver : ResolveRequest → τ → Except StickyError ResolveResponse × τ)
  /-- Load the records from a store. -/
  | repository (store : RecordStore τ)

/-- A coordinator over an engine. -/
structure Coordinator (σ τ : Type) where
  engine : Engine σ
  /-- How missing records are dealt with. -/
  strategy : StickyStrategy τ
  /-- How often records are loaded for a request before it is given up. -/
  maxRounds : Nat

namespace MissingRecord

/-- Note that a rule has to read a materialization of a unit. -/
def addTo (grouped : Dict Reads) (m : MissingRecord) : Dict Reads :=
  grouped.insert m.unit ((grouped.getD m.unit ∅).insert m.rule m.materialization)

/-- What is to be read for each unit. Where a unit misses two records for rules of one name, the
last one counts. -/
def readsByUnit (items : List MissingRecord) : Dict Reads := items.foldl addTo ∅

end MissingRecord

namespace Reads

/-- Empty records for all that is to be read. -/
def blank (r : Reads) : UnitRecords := .ofList (r.materializations.map (·, .empty))

end Reads

namespace ResolveRequest

/-- The request with more records of a unit at hand. -/
def withRecords (r : ResolveRequest) (unit : String) (records : UnitRecords) : ResolveRequest :=
  { r with materializations := r.materializations.extend unit records }

end ResolveRequest

namespace RecordStore

variable {τ : Type} (store : RecordStore τ)

/-- Load what is to be read for each unit, one call per unit, and add it to the request. The first
call that fails counts. -/
def loadAll (request : ResolveRequest) :
    List (String × Reads) → τ → Except StoreError ResolveRequest × τ
  | [], t => (.ok request, t)
  | (unit, reads) :: rest, t =>
    match store.load unit reads t with
    | (.error cause, t) => (.error cause, t)
    | (.ok loaded, t) => loadAll (request.withRecords unit (reads.blank.union loaded)) rest t

/-- Load the missing records and add them to the request. -/
def loadMissing (request : ResolveRequest) (items : List MissingRecord) (t : τ) :
    Except StoreError ResolveRequest × τ :=
  store.loadAll request (MissingRecord.readsByUnit items).toList t

/-- Save the decisions that are to be remembered, one call per unit. Calls that fail are passed
over. -/
def saveUpdates (updates : List StickyUpdate) (t : τ) : τ :=
  (StickyUpdate.grouped updates).toList.foldl
    (fun t entry => (store.save entry.1 entry.2 t).2) t

end RecordStore

namespace Coordinator

variable {σ τ : Type} (c : Coordinator σ τ)

/-- Save the decisions that are to be remembered, if there is a store. -/
def remember (updates : List StickyUpdate) (t : τ) : τ :=
  match c.strategy with
  | .fallback _ => t
  | .repository store => store.saveUpdates updates t

/-- Resolve a request with at most `left` more rounds of loading. -/
def resolveWithin (occasion : Nat → Occasion) :
    (left : Nat) → ResolveRequest → σ → τ → Except StickyError ResolveResponse × σ × τ
  | left, request, s, t =>
    match c.engine.resolve request (occasion left) s with
    | (.error cause, s) => (.error (.engine cause), s, t)
    | (.ok (.resolved response updates), s) => (.ok response, s, c.remember updates t)
    | (.ok (.missing items), s) =>
      match c.strategy with
      | .fallback resolver =>
        let (answer, t) := resolver request t
        (answer, s, t)
      | .repository store =>
        match left with
        | 0 => (.error (.notConverged c.maxRounds), s, t)
        | left + 1 =>
          match store.loadMissing request items t with
          | (.error cause, t) => (.error (.store cause), s, t)
          | (.ok request, t) => resolveWithin occasion left request s t
  termination_by structural left => left

/-- Resolve a request. Each call of the engine has an occasion of its own, counted by the rounds of
loading that are left. -/
def resolve (request : ResolveRequest) (occasion : Nat → Occasion) (s : σ) (t : τ) :
    Except StickyError ResolveResponse × σ × τ :=
  c.resolveWithin occasion c.maxRounds request s t

end Coordinator

end FeatureFlags
