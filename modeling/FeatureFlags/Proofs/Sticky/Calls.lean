import FeatureFlags.Sticky.Coordinator

/-!
# Calls of a coordinator

What a coordinator does is told by the calls that it makes to its engine and to its
helper, a store or another resolver. Both may answer anything.

Here an engine and a helper note their calls along with their states
(`Engine.recorded`, `StickyStrategy.recorded`). They answer as before, so a coordinator
over them does what it does without (`Coordinator.forget_resolve`), and the notes are
the calls that it makes.

- `RecordStore.exists_calls_loadAll`: loading makes one call for each unit, up to the
  first that fails.
- `RecordStore.exists_calls_saveUpdates`: saving makes one call for each unit, whether
  they fail or not.
-/

namespace FeatureFlags

/-- A state with the calls made so far, the last one at the end. -/
structure Recorded (σ κ : Type) where
  state : σ
  calls : List κ

namespace Recorded

variable {σ κ α : Type}

/-- Before the first call. -/
def start (state : σ) : Recorded σ κ := { state, calls := [] }

/-- Note a call with its answer. -/
def note (r : Recorded σ κ) (call : α → κ) (outcome : α × σ) : α × Recorded σ κ :=
  (outcome.1, { state := outcome.2, calls := r.calls ++ [call outcome.1] })

end Recorded

/-! ## Calls and their answers -/

/-- A call of an engine. -/
inductive EngineCall where
  | load (delivery : Delivery) (answer : Except EngineError Unit)
  | resolve (request : ResolveRequest) (answer : Except EngineError EngineAnswer)
  | apply (request : ApplyRequest) (answer : Except EngineError Unit)
  | flush (answer : Except EngineError Log)

namespace EngineCall

/-- The records that the engine reports as missing. -/
def report? : EngineCall → Option (List MissingRecord)
  | resolve _ (.ok (.missing items)) => some items
  | _ => none

/-- The response with what is to be remembered, if the engine decides all flags. -/
def decision? : EngineCall → Option (ResolveResponse × List StickyUpdate)
  | resolve _ (.ok (.resolved response updates)) => some (response, updates)
  | _ => none

/-- Why the engine does not resolve the request. -/
def refusal? : EngineCall → Option EngineError
  | resolve _ (.error cause) => some cause
  | _ => none

/-- A report is neither a decision nor a refusal. -/
theorem of_report? {call : EngineCall} {items : List MissingRecord}
    (h : call.report? = some items) : call.decision? = none ∧ call.refusal? = none := by
  unfold report? at h
  split at h
  · exact ⟨rfl, rfl⟩
  · cases h

end EngineCall

/-- A call of a store or of another resolver. -/
inductive HelperCall where
  | load (unit : String) (reads : Reads) (answer : Except StoreError UnitRecords)
  | save (unit : String) (records : UnitRecords) (answer : Except StoreError Unit)
  | handOver (request : ResolveRequest) (answer : Except StickyError ResolveResponse)

namespace HelperCall

/-- Why loading fails. -/
def failure? : HelperCall → Option StoreError
  | load _ _ (.error cause) => some cause
  | _ => none

/-- What is to be saved, whether it fails or not. -/
def saved? : HelperCall → Option (String × UnitRecords)
  | save unit records _ => some (unit, records)
  | _ => none

/-- A call that saves records does not count if it fails. -/
theorem failure?_of_saved? {call : HelperCall} {entry : String × UnitRecords}
    (h : call.saved? = some entry) : call.failure? = none := by
  unfold saved? at h
  split at h
  · rfl
  · cases h

end HelperCall

/-- A load that succeeds. -/
structure UnitLoad where
  unit : String
  /-- What the store is asked for. -/
  reads : Reads
  /-- What it has of that. -/
  records : UnitRecords

namespace UnitLoad

/-- The load as a call of the store. -/
def call (load : UnitLoad) : HelperCall := .load load.unit load.reads (.ok load.records)

/-- What is asked for, without the answer. -/
def asked (load : UnitLoad) : String × Reads := (load.unit, load.reads)

/-- Add what is loaded to the request, with empty records for all else that is asked for. -/
def supply (request : ResolveRequest) (load : UnitLoad) : ResolveRequest :=
  request.withRecords load.unit (load.reads.blank.union load.records)

end UnitLoad

/-- Loads that succeed save nothing and do not fail. -/
theorem HelperCall.of_mem_calls {loads : List UnitLoad} {op : HelperCall}
    (h : op ∈ loads.map UnitLoad.call) : op.saved? = none ∧ op.failure? = none := by
  obtain ⟨load, -, rfl⟩ := List.mem_map.mp h
  exact ⟨rfl, rfl⟩

/-! ## Noting calls -/

variable {σ τ : Type}

/-- The engine with notes of its calls. -/
def Engine.recorded (e : Engine σ) : Engine (Recorded σ EngineCall) where
  load delivery r := r.note (.load delivery) (e.load delivery r.state)
  resolve request occasion r := r.note (.resolve request) (e.resolve request occasion r.state)
  apply request r := r.note (.apply request) (e.apply request r.state)
  flush r := r.note .flush (e.flush r.state)

theorem Engine.calls_of_resolve_eq {e : Engine σ} {request : ResolveRequest} {occasion : Occasion}
    {r r' : Recorded σ EngineCall} {answer : Except EngineError EngineAnswer}
    (h : e.recorded.resolve request occasion r = (answer, r')) :
    r'.calls = r.calls ++ [.resolve request answer] := by
  have hcalls : (e.recorded.resolve request occasion r).2.calls =
      r.calls ++ [.resolve request (e.recorded.resolve request occasion r).1] := rfl
  rw [h] at hcalls
  exact hcalls

/-- The store with notes of its calls. -/
def RecordStore.recorded (store : RecordStore τ) : RecordStore (Recorded τ HelperCall) where
  load unit reads r := r.note (.load unit reads) (store.load unit reads r.state)
  save unit records r := r.note (.save unit records) (store.save unit records r.state)

/-- The helper with notes of its calls. -/
def StickyStrategy.recorded : StickyStrategy τ → StickyStrategy (Recorded τ HelperCall)
  | fallback resolver => .fallback fun request r =>
      r.note (.handOver request) (resolver request r.state)
  | repository store => .repository store.recorded

/-- The coordinator over an engine and a helper that note their calls. -/
def Coordinator.recorded (c : Coordinator σ τ) :
    Coordinator (Recorded σ EngineCall) (Recorded τ HelperCall) where
  engine := c.engine.recorded
  strategy := c.strategy.recorded
  maxRounds := c.maxRounds

/-! ## What is noted -/

namespace RecordStore

variable (store : RecordStore τ)

/-- The calls that load what is to be read: one for each unit, up to the first that fails. The
request goes on with what was loaded. -/
inductive Loading : ResolveRequest → List (String × Reads) → List HelperCall →
    Except StoreError ResolveRequest → Prop where
  | done {request : ResolveRequest} : Loading request [] [] (.ok request)
  | failed {request : ResolveRequest} {unit : String} {reads : Reads}
    {rest : List (String × Reads)} {cause : StoreError} :
    Loading request ((unit, reads) :: rest) [.load unit reads (.error cause)] (.error cause)
  | loaded {request : ResolveRequest} {load : UnitLoad} {rest : List (String × Reads)}
    {ops : List HelperCall} {result : Except StoreError ResolveRequest}
    (h : Loading (load.supply request) rest ops result) :
    Loading request (load.asked :: rest) (load.call :: ops) result

section Loads

variable {request request' : ResolveRequest} {entries : List (String × Reads)}
  {ops : List HelperCall} {cause : StoreError}

/-- If loading succeeds, all calls do, and what they load is added to the request. -/
theorem Loading.exists_loads (h : Loading request entries ops (.ok request')) :
    ∃ loads : List UnitLoad, ops = loads.map UnitLoad.call ∧ loads.map UnitLoad.asked = entries ∧
      request' = loads.foldl UnitLoad.supply request := by
  generalize hresult : (Except.ok request' : Except StoreError ResolveRequest) = result at h
  induction h with
  | done =>
    cases hresult
    exact ⟨[], rfl, rfl, rfl⟩
  | failed => cases hresult
  | @loaded _ load _ _ _ _ ih =>
    obtain ⟨loads, rfl, rfl, hrequest⟩ := ih hresult
    exact ⟨load :: loads, rfl, rfl, hrequest⟩

/-- If loading fails, it is with the first call that does. -/
theorem Loading.exists_failure (h : Loading request entries ops (.error cause)) :
    ∃ (loads : List UnitLoad) (unit : String) (reads : Reads) (rest : List (String × Reads)),
      ops = loads.map UnitLoad.call ++ [.load unit reads (.error cause)] ∧
      loads.map UnitLoad.asked ++ (unit, reads) :: rest = entries := by
  generalize hresult : (Except.error cause : Except StoreError ResolveRequest) = result at h
  induction h with
  | done => cases hresult
  | @failed _ unit reads rest _ =>
    cases hresult
    exact ⟨[], unit, reads, rest, rfl, rfl⟩
  | @loaded _ load _ _ _ _ ih =>
    obtain ⟨loads, unit, reads, rest, rfl, rfl⟩ := ih hresult
    exact ⟨load :: loads, unit, reads, rest, rfl, rfl⟩

end Loads

/-- Loading is the same without the notes. -/
theorem forget_loadAll (request : ResolveRequest) (entries : List (String × Reads))
    (r : Recorded τ HelperCall) :
    Prod.map id Recorded.state (store.recorded.loadAll request entries r) =
      store.loadAll request entries r.state := by
  induction entries generalizing request r with
  | nil => rfl
  | cons entry rest ih =>
    obtain ⟨unit, reads⟩ := entry
    rw [loadAll, loadAll]
    cases hload : store.load unit reads r.state with
    | mk answer t =>
      have hnote : store.recorded.load unit reads r =
          (answer, ⟨t, r.calls ++ [.load unit reads answer]⟩) :=
        congrArg (r.note (.load unit reads)) hload
      rw [hnote]
      cases answer with
      | error cause => rfl
      | ok loaded => exact ih _ _

theorem exists_calls_loadAll (request : ResolveRequest) (entries : List (String × Reads))
    (r : Recorded τ HelperCall) :
    ∃ ops, (store.recorded.loadAll request entries r).2.calls = r.calls ++ ops ∧
      Loading request entries ops (store.recorded.loadAll request entries r).1 := by
  induction entries generalizing request r with
  | nil => exact ⟨[], (List.append_nil _).symm, .done⟩
  | cons entry rest ih =>
    obtain ⟨unit, reads⟩ := entry
    rw [loadAll]
    cases hload : store.load unit reads r.state with
    | mk answer t =>
      have hnote : store.recorded.load unit reads r =
          (answer, ⟨t, r.calls ++ [.load unit reads answer]⟩) :=
        congrArg (r.note (.load unit reads)) hload
      rw [hnote]
      cases answer with
      | error cause => exact ⟨_, rfl, .failed⟩
      | ok loaded =>
        obtain ⟨ops, hops, hloading⟩ := ih (request.withRecords unit (reads.blank.union loaded))
          ⟨t, r.calls ++ [.load unit reads (.ok loaded)]⟩
        let load : UnitLoad := ⟨unit, reads, loaded⟩
        have hloaded : Loading request (load.asked :: rest) (load.call :: ops) _ :=
          .loaded hloading
        refine ⟨.load unit reads (.ok loaded) :: ops, ?_, hloaded⟩
        dsimp only
        rw [hops, List.append_assoc, List.singleton_append]

theorem exists_calls_of_loadMissing_eq {request : ResolveRequest} {items : List MissingRecord}
    {r r' : Recorded τ HelperCall} {result : Except StoreError ResolveRequest}
    (h : store.recorded.loadMissing request items r = (result, r')) :
    ∃ ops, r'.calls = r.calls ++ ops ∧
      Loading request (MissingRecord.readsByUnit items).toList ops result := by
  have hnotes := store.exists_calls_loadAll request (MissingRecord.readsByUnit items).toList r
  have hload : store.recorded.loadAll request (MissingRecord.readsByUnit items).toList r =
      (result, r') := h
  rw [hload] at hnotes
  exact hnotes

private theorem foldl_save_recorded (entries : List (String × UnitRecords))
    (r : Recorded τ HelperCall) :
    ∃ ops, ops.map HelperCall.saved? = entries.map some ∧
      entries.foldl (fun r entry => (store.recorded.save entry.1 entry.2 r).2) r =
        { state := entries.foldl (fun t entry => (store.save entry.1 entry.2 t).2) r.state
          calls := r.calls ++ ops } := by
  induction entries generalizing r with
  | nil => exact ⟨[], rfl, by rw [List.append_nil]; rfl⟩
  | cons entry rest ih =>
    obtain ⟨unit, records⟩ := entry
    obtain ⟨ops, hsaved, hops⟩ := ih (store.recorded.save unit records r).2
    refine ⟨.save unit records (store.save unit records r.state).1 :: ops, ?_, ?_⟩
    · rw [List.map_cons, hsaved]
      rfl
    · rw [List.foldl_cons, hops]
      show Recorded.mk _ ((r.calls ++ [_]) ++ ops) = _
      rw [List.append_assoc]
      rfl

/-- Saving is the same without the notes, which have one call for each unit. -/
theorem exists_calls_saveUpdates (updates : List StickyUpdate) (r : Recorded τ HelperCall) :
    ∃ ops, ops.map HelperCall.saved? = (StickyUpdate.grouped updates).toList.map some ∧
      store.recorded.saveUpdates updates r =
        { state := store.saveUpdates updates r.state, calls := r.calls ++ ops } :=
  store.foldl_save_recorded (StickyUpdate.grouped updates).toList r

end RecordStore

namespace Coordinator

variable (c : Coordinator σ τ) (occasion : Nat → Occasion)

theorem forget_remember (updates : List StickyUpdate) (r : Recorded τ HelperCall) :
    (c.recorded.remember updates r).state = c.remember updates r.state := by
  unfold remember recorded
  cases c.strategy with
  | «fallback» resolver => rfl
  | repository store =>
    obtain ⟨ops, -, hops⟩ := store.exists_calls_saveUpdates updates r
    exact congrArg Recorded.state hops

/-- **Notes do not matter**: a coordinator over an engine and a helper that note their calls does
what it does without. -/
theorem forget_resolveWithin (left : Nat) (request : ResolveRequest)
    (r : Recorded σ EngineCall) (r' : Recorded τ HelperCall) :
    Prod.map id (Prod.map Recorded.state Recorded.state)
      (c.recorded.resolveWithin occasion left request r r') =
        c.resolveWithin occasion left request r.state r'.state := by
  rw [resolveWithin, resolveWithin]
  cases hanswer : c.engine.resolve request (occasion left) r.state with
  | mk answer s =>
    have hnote : c.recorded.engine.resolve request (occasion left) r =
        (answer, ⟨s, r.calls ++ [.resolve request answer]⟩) :=
      congrArg (r.note (.resolve request)) hanswer
    rw [hnote]
    cases answer with
    | error cause => rfl
    | ok answer =>
      cases answer with
      | resolved response updates =>
        exact Prod.ext rfl (Prod.ext rfl (c.forget_remember updates r'))
      | missing items =>
        have hrecorded : c.recorded.strategy = c.strategy.recorded := rfl
        rw [hrecorded]
        cases c.strategy with
        | «fallback» resolver => rfl
        | repository store =>
          cases left with
          | zero => rfl
          | succ left =>
            -- the same is loaded, so the rounds that are left start from the same request
            have hload : Prod.map id Recorded.state (store.recorded.loadMissing request items r') =
                store.loadMissing request items r'.state := store.forget_loadAll request _ r'
            dsimp only [StickyStrategy.recorded]
            rw [← hload]
            cases store.recorded.loadMissing request items r' with
            | mk loaded t =>
              cases loaded with
              | error cause => rfl
              | ok request' => exact forget_resolveWithin left request' _ t

theorem forget_resolve (request : ResolveRequest) (s : σ) (t : τ) :
    Prod.map id (Prod.map Recorded.state Recorded.state)
      (c.recorded.resolve request occasion (.start s) (.start t)) =
        c.resolve request occasion s t :=
  c.forget_resolveWithin occasion c.maxRounds request (.start s) (.start t)

end Coordinator

end FeatureFlags
