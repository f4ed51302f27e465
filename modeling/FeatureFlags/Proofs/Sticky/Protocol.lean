import FeatureFlags.Proofs.Sticky.Exchange
import FeatureFlags.Proofs.Sticky.Rounds

/-!
# The protocol of a sticky resolve

Which calls a coordinator makes, in which order, and what it makes of the answers, for
every engine and every helper, whatever they answer (`Coordinator.follows_protocol`).

Over a store, each call of the engine but the last reports missing records, and a round
of loading follows it (`Coordinator.Rounds`). The last call and what follows it tell
the answer (`Coordinator.LastCalls`). What the whole run does is put together from the
two in `Coordinator.FollowsStore`.
-/

namespace FeatureFlags

open Relation (ReflTransGen)

theorem findSome?_append_of_forall {α β : Type} {f : α → Option β} {l : List α}
    (h : ∀ a ∈ l, f a = none) (l' : List α) : (l ++ l').findSome? f = l'.findSome? f := by
  rw [List.findSome?_append, List.findSome?_eq_none_iff.mpr h, Option.none_or]

namespace Coordinator

variable {σ τ : Type} {c : Coordinator σ τ} {store : RecordStore τ} {occasion : Nat → Occasion}
  {a b : Attempt (Recorded σ EngineCall) (Recorded τ HelperCall)}

/-! ## Rounds -/

/-- Rounds of loading: the engine reports missing records for the request, and they are loaded. The
request goes on with them, in the end to the last call of the engine. -/
inductive Rounds : ResolveRequest → List EngineCall → List (List UnitLoad) → ResolveRequest →
    Prop where
  | done {request : ResolveRequest} : Rounds request [] [] request
  | round {request request' last : ResolveRequest} {items : List MissingRecord}
    {loads : List UnitLoad} {reports : List EngineCall} {rounds : List (List UnitLoad)}
    (hloads : MissingRecord.LoadsAll items loads request request')
    (hrest : Rounds request' reports rounds last) :
    Rounds request (.resolve request (.ok (.missing items)) :: reports) (loads :: rounds) last

/-- A round is noted as such. -/
theorem Round.exists_calls (hstrategy : c.strategy = .repository store)
    (h : c.recorded.Round occasion a b) :
    ∃ items loads, b.engine.calls = a.engine.calls ++ [.resolve a.request (.ok (.missing items))] ∧
      b.store.calls = a.store.calls ++ loads.map UnitLoad.call ∧
      MissingRecord.LoadsAll items loads a.request b.request := by
  cases h with
  | @intro store' items left request request' r₁ r₂ t₁ t₂ hrecorded hmissing hload =>
    have hsame : c.recorded.strategy = .repository store.recorded :=
      congrArg StickyStrategy.recorded hstrategy
    rw [hsame] at hrecorded
    cases hrecorded
    obtain ⟨ops, hops, hloading⟩ := store.exists_calls_of_loadMissing_eq hload
    obtain ⟨loads, rfl, hloads⟩ := MissingRecord.exists_loadsAll hloading
    exact ⟨items, loads, Engine.calls_of_resolve_eq hmissing, hops, hloads⟩

/-- The notes of all rounds. -/
theorem exists_calls_of_rounds (hstrategy : c.strategy = .repository store)
    (h : ReflTransGen (c.recorded.Round occasion) a b) :
    ∃ reports rounds, b.engine.calls = a.engine.calls ++ reports ∧
      b.store.calls = a.store.calls ++ rounds.flatten.map UnitLoad.call ∧
      Rounds a.request reports rounds b.request ∧ reports.length + b.left = a.left := by
  -- from the first round on, in the order of the notes
  induction h using ReflTransGen.head_induction_on with
  | refl =>
    exact ⟨[], [], (List.append_nil _).symm, (List.append_nil _).symm, .done, Nat.zero_add _⟩
  | head hround _ ih =>
    obtain ⟨items, loads, hcall, hops, hloads⟩ := hround.exists_calls hstrategy
    obtain ⟨reports, rounds, hreports, hrounds, hall, hleft⟩ := ih
    have hbudget := hround.left_eq
    refine ⟨_ :: reports, loads :: rounds, ?_, ?_, .round hloads hall, ?_⟩
    · rw [hreports, hcall, List.append_assoc, List.singleton_append]
    · rw [hrounds, hops, List.append_assoc, List.flatten_cons, List.map_append]
    · rw [List.length_cons]
      omega

/-! ## The last calls -/

/-- The answer to the last call of the engine, the calls of the store that follow it, and what is
answered. -/
inductive LastCalls (maxRounds left : Nat) : Except EngineError EngineAnswer → List HelperCall →
    Except StickyError ResolveResponse → Prop where
  | refused {cause : EngineError} :
    LastCalls maxRounds left (.error cause) [] (.error (.engine cause))
  | resolved {response : ResolveResponse} {updates : List StickyUpdate} {saves : List HelperCall}
    (hsaves : saves.map HelperCall.saved? = (StickyUpdate.grouped updates).toList.map some) :
    LastCalls maxRounds left (.ok (.resolved response updates)) saves (.ok response)
  | exhausted {items : List MissingRecord} (hleft : left = 0) :
    LastCalls maxRounds left (.ok (.missing items)) [] (.error (.notConverged maxRounds))
  | notLoaded {items : List MissingRecord} {cause : StoreError} {loads : List HelperCall}
    (hleft : 0 < left) (hloads : MissingRecord.StopsLoading items loads cause) :
    LastCalls maxRounds left (.ok (.missing items)) loads (.error (.store cause))

/-- The notes of the end of a resolve. -/
theorem EndsWith.exists_calls {answer : Except StickyError ResolveResponse ×
      Recorded σ EngineCall × Recorded τ HelperCall}
    (h : c.recorded.EndsWith store.recorded occasion b answer) :
    ∃ result rest, answer.2.1.calls = b.engine.calls ++ [.resolve b.request result] ∧
      answer.2.2.calls = b.store.calls ++ rest ∧
      LastCalls c.maxRounds b.left result rest answer.1 := by
  cases h with
  | refused h =>
    exact ⟨_, [], Engine.calls_of_resolve_eq h, (List.append_nil _).symm, .refused⟩
  | @resolved response updates s h =>
    obtain ⟨saves, hsaves, hcalls⟩ := store.exists_calls_saveUpdates updates b.store
    exact ⟨_, saves, Engine.calls_of_resolve_eq h, congrArg Recorded.calls hcalls,
      .resolved hsaves⟩
  | exhausted h hleft =>
    exact ⟨_, [], Engine.calls_of_resolve_eq h, (List.append_nil _).symm, .exhausted hleft⟩
  | notLoaded h hleft hload =>
    obtain ⟨loads, hloads, hloading⟩ := store.exists_calls_of_loadMissing_eq hload
    exact ⟨_, loads, Engine.calls_of_resolve_eq h, hloads,
      .notLoaded hleft (MissingRecord.stopsLoading hloading)⟩

/-! ## The whole resolve -/

/-- What a resolve over a store does, told by its calls. -/
structure FollowsStore (maxRounds : Nat) (request : ResolveRequest) (calls : List EngineCall)
    (ops : List HelperCall) (answer : Except StickyError ResolveResponse) : Prop where
  /-- The engine is called at most once more than there may be rounds. -/
  bounded : calls.length ≤ maxRounds + 1
  /-- The first response of the engine is the answer. -/
  responds : ∀ response, answer = .ok response ↔
    (calls.findSome? EngineCall.decision?).map (·.1) = some response
  /-- So is the first error of the engine. -/
  refuses : ∀ cause, answer = .error (.engine cause) ↔
    calls.findSome? EngineCall.refusal? = some cause
  /-- So is the first error of loading. -/
  failsToLoad : ∀ cause, answer = .error (.store cause) ↔
    ops.findSome? HelperCall.failure? = some cause
  /-- The resolve is given up after that many calls, if all of them report and all loads
  succeed. -/
  givesUp : ∀ rounds, answer = .error (.notConverged rounds) ↔
    rounds = maxRounds ∧ calls.length = maxRounds + 1 ∧
      (∀ call ∈ calls, call.report?.isSome) ∧ ops.findSome? HelperCall.failure? = none
  /-- There is no other error. -/
  handsNothingOver : ∀ reason, answer ≠ .error (.fallback reason)
  /-- What comes with the response is saved, and nothing else. -/
  saves : StickyUpdate.SavedAs (((calls.findSome? EngineCall.decision?).map (·.2)).getD [])
    (ops.filterMap HelperCall.saved?)
  /-- Nothing is saved if there is no response. -/
  savesNothing : ∀ cause, answer = .error cause → ops.filterMap HelperCall.saved? = []
  /-- All calls of the engine but the last are reports, and each is followed by a round of loading.
  The first call carries the request as it came, and each later one what was loaded before it.
  Behind these rounds nothing is loaded, unless the last call is a report as well and a load of what
  it lacks fails. -/
  rounds : ∃ reports rounds last result rest, calls = reports ++ [.resolve last result] ∧
    ops = rounds.flatten.map UnitLoad.call ++ rest ∧ Rounds request reports rounds last ∧
    ((∀ op ∈ rest, op.saved?.isSome) ∨
      ∃ items cause, result = .ok (.missing items) ∧ answer = .error (.store cause) ∧
        MissingRecord.StopsLoading items rest cause)

/-- What a resolve does that hands requests over, told by its calls. -/
inductive HandsOver (request : ResolveRequest) :
    List EngineCall → List HelperCall → Except StickyError ResolveResponse → Prop where
  /-- The engine fails. -/
  | refused {cause : EngineError} :
    HandsOver request [.resolve request (.error cause)] [] (.error (.engine cause))
  /-- All flags are decided. -/
  | resolved {response : ResolveResponse} {updates : List StickyUpdate} :
    HandsOver request [.resolve request (.ok (.resolved response updates))] [] (.ok response)
  /-- Records are missing, and the request is handed over as it is. -/
  | handedOver {items : List MissingRecord} {answer : Except StickyError ResolveResponse} :
    HandsOver request [.resolve request (.ok (.missing items))] [.handOver request answer] answer

section Reports

variable {request last : ResolveRequest} {reports : List EngineCall}
  {rounds : List (List UnitLoad)}

theorem Rounds.exists_report (h : Rounds request reports rounds last) {call : EngineCall}
    (hcall : call ∈ reports) : ∃ items, call.report? = some items := by
  induction h with
  | done => cases hcall
  | round _ _ ih =>
    rcases List.mem_cons.mp hcall with rfl | hcall
    · exact ⟨_, rfl⟩
    · exact ih hcall

/-- Reports decide nothing and refuse nothing, so the last call does if any does. -/
theorem Rounds.findSome?_calls (h : Rounds request reports rounds last) (call : EngineCall) :
    (reports ++ [call]).findSome? EngineCall.decision? = call.decision? ∧
      (reports ++ [call]).findSome? EngineCall.refusal? = call.refusal? := by
  have hnone : ∀ report ∈ reports, report.decision? = none ∧ report.refusal? = none := by
    intro report hreport
    obtain ⟨items, hitems⟩ := h.exists_report hreport
    exact EngineCall.of_report? hitems
  rw [findSome?_append_of_forall fun report hreport => (hnone report hreport).1,
    findSome?_append_of_forall fun report hreport => (hnone report hreport).2]
  exact ⟨List.findSome?_singleton, List.findSome?_singleton⟩

/-- No load that succeeds fails or saves anything, so the rest does if any does. -/
theorem findSome?_ops (loads : List UnitLoad) (rest : List HelperCall) :
    (loads.map UnitLoad.call ++ rest).findSome? HelperCall.failure? =
        rest.findSome? HelperCall.failure? ∧
      (loads.map UnitLoad.call ++ rest).filterMap HelperCall.saved? =
        rest.filterMap HelperCall.saved? := by
  have hnone : ∀ op ∈ loads.map UnitLoad.call, op.saved? = none ∧ op.failure? = none :=
    fun op => HelperCall.of_mem_calls
  rw [findSome?_append_of_forall fun op hop => (hnone op hop).2, List.filterMap_append,
    List.filterMap_eq_nil_iff.mpr fun op hop => (hnone op hop).1, List.nil_append]
  exact ⟨rfl, rfl⟩

end Reports

/-- The decisions that are to be remembered, if any come with the answer of the engine. -/
def updatesOf : Except EngineError EngineAnswer → List StickyUpdate
  | .ok (.resolved _ updates) => updates
  | _ => []

/-- What follows the last call of the engine saves what comes with a response, and fails to load
only if this is the answer. -/
theorem LastCalls.rest {maxRounds left : Nat} {result : Except EngineError EngineAnswer}
    {rest : List HelperCall} {answer : Except StickyError ResolveResponse}
    (h : LastCalls maxRounds left result rest answer) :
    rest.filterMap HelperCall.saved? = (StickyUpdate.grouped (updatesOf result)).toList ∧
      (∀ cause, rest.findSome? HelperCall.failure? = some cause ↔
        answer = .error (.store cause)) ∧
      ((∀ op ∈ rest, op.saved?.isSome) ∨
        ∃ items cause, result = .ok (.missing items) ∧ answer = .error (.store cause) ∧
          MissingRecord.StopsLoading items rest cause) := by
  cases h with
  | refused => exact ⟨rfl, by simp, .inl (List.forall_mem_nil _)⟩
  | exhausted => exact ⟨rfl, by simp, .inl (List.forall_mem_nil _)⟩
  | @notLoaded items cause _ hleft hloads =>
    refine ⟨?_, ?_, .inr ⟨items, cause, rfl, rfl, hloads⟩⟩
    all_goals obtain ⟨loads, unit, reads, rfl, -⟩ := hloads
    · exact (findSome?_ops loads _).2
    · rw [(findSome?_ops loads _).1]
      simp [HelperCall.failure?]
  | resolved hsaves =>
    have hsaved : ∀ op ∈ rest, ∃ entry, op.saved? = some entry := by
      intro op hop
      have hmem : op.saved? ∈ (StickyUpdate.grouped _).toList.map some :=
        hsaves ▸ List.mem_map_of_mem hop
      obtain ⟨entry, -, hentry⟩ := List.mem_map.mp hmem
      exact ⟨entry, hentry.symm⟩
    have hfailure : rest.findSome? HelperCall.failure? = none := by
      refine List.findSome?_eq_none_iff.mpr fun op hop => ?_
      obtain ⟨entry, hentry⟩ := hsaved op hop
      exact HelperCall.failure?_of_saved? hentry
    have hall : rest.filterMap HelperCall.saved? = (rest.map HelperCall.saved?).filterMap id := by
      rw [List.filterMap_map]
      rfl
    refine ⟨?_, by simp [hfailure], .inl fun op hop => Option.isSome_iff_exists.mpr (hsaved op hop)⟩
    rw [hall, hsaves, List.filterMap_map]
    exact List.filterMap_some

/-- The rounds and the last calls make up what a resolve does. -/
theorem followsStore_of_calls {maxRounds left : Nat} {request last : ResolveRequest}
    {reports : List EngineCall} {rounds : List (List UnitLoad)}
    {result : Except EngineError EngineAnswer} {rest : List HelperCall}
    {answer : Except StickyError ResolveResponse}
    (hrounds : Rounds request reports rounds last) (hleft : reports.length + left = maxRounds)
    (hlast : LastCalls maxRounds left result rest answer) :
    FollowsStore maxRounds request (reports ++ [.resolve last result])
      (rounds.flatten.map UnitLoad.call ++ rest) answer := by
  have hlength : (reports ++ [EngineCall.resolve last result]).length = reports.length + 1 :=
    List.length_append
  have hreports : (∀ call ∈ reports ++ [.resolve last result], call.report?.isSome) ↔
      (EngineCall.resolve last result).report?.isSome := by
    constructor
    · intro h
      exact h _ (List.mem_append_right _ List.mem_cons_self)
    · intro h call hcall
      rcases List.mem_append.mp hcall with hcall | hcall
      · obtain ⟨items, hitems⟩ := hrounds.exists_report hcall
        exact Option.isSome_iff_exists.mpr ⟨items, hitems⟩
      · rw [List.mem_singleton.mp hcall]
        exact h
  -- nothing but the last calls matters for the answer
  obtain ⟨hdecision, hrefusal⟩ := hrounds.findSome?_calls (.resolve last result)
  obtain ⟨hfailure, hsaved⟩ := findSome?_ops rounds.flatten rest
  obtain ⟨hsaves, hfails, hloads⟩ := hlast.rest
  have hupdates : ((EngineCall.resolve last result).decision?.map (·.2)).getD [] =
      updatesOf result := by
    cases hlast <;> rfl
  exact {
    bounded := by omega
    responds := by
      intro response
      rw [hdecision]
      cases hlast <;> simp [EngineCall.decision?]
    refuses := by
      intro cause
      rw [hrefusal]
      cases hlast <;> simp [EngineCall.refusal?]
    failsToLoad := by
      intro cause
      rw [hfailure]
      exact (hfails cause).symm
    givesUp := by
      intro n
      rw [hreports, hlength, hfailure]
      cases hlast with
      | refused => simp [EngineCall.report?]
      | resolved => simp [EngineCall.report?]
      | exhausted hnone =>
        have hall : reports.length = maxRounds := by omega
        simp [EngineCall.report?, hall, eq_comm]
      | notLoaded => simp [(hfails _).mpr rfl]
    handsNothingOver := by
      rintro reason rfl
      cases hlast
    saves := by
      rw [hdecision, hsaved, hupdates, hsaves]
      exact StickyUpdate.savedAs_grouped _
    savesNothing := by
      rintro cause rfl
      rw [hsaved, hsaves]
      cases hlast <;> rfl
    rounds := ⟨reports, rounds, last, result, rest, rfl, rfl, hrounds, hloads⟩ }

/-- What is noted of a resolve over a store. -/
theorem followsStore (hstrategy : c.strategy = .repository store)
    (request : ResolveRequest) (occasion : Nat → Occasion) (s : σ) (t : τ) :
    FollowsStore c.maxRounds request
      (c.recorded.resolve request occasion (.start s) (.start t)).2.1.calls
      (c.recorded.resolve request occasion (.start s) (.start t)).2.2.calls
      (c.recorded.resolve request occasion (.start s) (.start t)).1 := by
  have hrecorded : c.recorded.strategy = .repository store.recorded :=
    congrArg StickyStrategy.recorded hstrategy
  obtain ⟨b, hrounds, hfinal⟩ :=
    exists_final c.recorded occasion ⟨c.maxRounds, request, .start s, .start t⟩
  have hends := (round_or_endsWith hrecorded occasion b).resolve_left hfinal
  rw [← run_of_rounds hrounds] at hends
  obtain ⟨reports, rounds, hreports, hloads, hall, hleft⟩ :=
    exists_calls_of_rounds hstrategy hrounds
  obtain ⟨last, rest, hlast, hrest, hcalls⟩ := hends.exists_calls
  have hresolve : c.recorded.resolve request occasion (.start s) (.start t) =
      c.recorded.run occasion ⟨c.maxRounds, request, .start s, .start t⟩ := rfl
  rw [hresolve, hlast, hrest, hreports, hloads]
  exact followsStore_of_calls hall hleft hcalls

/-- What is noted of a resolve that may hand the request over. -/
theorem handsOver {resolver : ResolveRequest → τ → Except StickyError ResolveResponse × τ}
    (hstrategy : c.strategy = .fallback resolver) (request : ResolveRequest)
    (occasion : Nat → Occasion) (s : σ) (t : τ) :
    HandsOver request
      (c.recorded.resolve request occasion (.start s) (.start t)).2.1.calls
      (c.recorded.resolve request occasion (.start s) (.start t)).2.2.calls
      (c.recorded.resolve request occasion (.start s) (.start t)).1 := by
  have hrecorded : c.recorded.strategy = .fallback fun request r =>
      r.note (.handOver request) (resolver request r.state) :=
    congrArg StickyStrategy.recorded hstrategy
  rw [resolve, resolveWithin]
  cases hanswer : c.recorded.engine.resolve request (occasion c.recorded.maxRounds) (.start s) with
  | mk answer r =>
    have hcalls : r.calls = [.resolve request answer] := Engine.calls_of_resolve_eq hanswer
    cases answer with
    | error cause =>
      dsimp only
      rw [hcalls]
      exact .refused
    | ok answer =>
      cases answer with
      | resolved response updates =>
        have hremember : c.recorded.remember updates (.start t) = .start t := by
          rw [remember, hrecorded]
        dsimp only
        rw [hcalls, hremember]
        exact .resolved
      | missing items =>
        dsimp only
        rw [hrecorded]
        dsimp only
        rw [hcalls]
        exact .handedOver

/-- **The protocol of a sticky resolve**, whatever the engine and the helper answer. Let both note
their calls. Then the resolve comes to the same, and the calls are those that `FollowsStore` allows
for a store and `HandsOver` for another resolver. -/
theorem follows_protocol (c : Coordinator σ τ) (request : ResolveRequest)
    (occasion : Nat → Occasion) (s : σ) (t : τ) :
    ∃ calls ops,
      c.recorded.resolve request occasion (.start s) (.start t) =
        ((c.resolve request occasion s t).1,
          { state := (c.resolve request occasion s t).2.1, calls },
          { state := (c.resolve request occasion s t).2.2, calls := ops }) ∧
      match c.strategy with
      | .repository _ =>
        FollowsStore c.maxRounds request calls ops (c.resolve request occasion s t).1
      | .fallback _ => HandsOver request calls ops (c.resolve request occasion s t).1 := by
  have hsame := c.forget_resolve occasion request s t
  refine ⟨(c.recorded.resolve request occasion (.start s) (.start t)).2.1.calls,
    (c.recorded.resolve request occasion (.start s) (.start t)).2.2.calls, ?_, ?_⟩
  · rw [← hsame]
    rfl
  · rw [← hsame]
    cases hstrategy : c.strategy with
    | «fallback» resolver => exact handsOver hstrategy request occasion s t
    | repository store => exact followsStore hstrategy request occasion s t

end Coordinator

end FeatureFlags
