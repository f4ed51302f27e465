import FeatureFlags.Proofs.Engine.Conservation
import FeatureFlags.Proofs.Sticky.Rounds

/-!
# The log tells what was answered

One command adds to the log of a local engine what is noted of it (`LocalEngine.exists_notes`), and
so the logs that a run hands over, with what is in the log at its end, are what is noted of its
commands one after the other (`LocalEngine.Accounts`).

A sticky resolve over a local engine calls it several times, but only the call that brings the
response is noted (`Coordinator.Leaves`).

`LocalEngine.log_tells_answers` puts the two together.
-/

namespace FeatureFlags

open Relation (ReflTransGen)

/-! ## What a command adds to the log -/

namespace LocalEngine

section Commands

variable {e : LocalEngine} {command : EngineCommand} {reply : EngineReply} {done : Log}

/-- **One command adds to the log what is noted of it**. -/
theorem exists_notes (command : EngineCommand) (e : LocalEngine) :
    ∃ done, Notes e command (engine.perform command e).1 done ∧
      (engine.perform command e).1.handedOver ++ (engine.perform command e).2.log =
        e.log ++ done := by
  cases command with
  | load delivery =>
    refine ⟨∅, .nothing rfl, ?_⟩
    show ∅ ++ (load delivery e).2.log = e.log ++ ∅
    rw [(load_keeps delivery e).1, Log.empty_append, Log.append_empty]
  | resolve request occasion =>
    refine ⟨e.noted (.resolve request occasion), ?_, ?_⟩
    case refine_1 =>
      show Notes e _ (.resolved (resolve request occasion e).1) _
      rw [resolve_eq]
      exact notes_resolve e request occasion
    case refine_2 =>
      show (EngineReply.resolved (resolve request occasion e).1).handedOver ++
        (resolve request occasion e).2.log = _
      rw [resolve_eq]
      exact Log.empty_append _
  | apply request =>
    refine ⟨e.noted (.apply request), ?_, ?_⟩
    case refine_1 =>
      show Notes e _ (.applied (apply request e).1) _
      rw [apply_eq]
      exact notes_apply e request
    case refine_2 =>
      show (EngineReply.applied (apply request e).1).handedOver ++ (apply request e).2.log = _
      rw [apply_eq]
      exact Log.empty_append _
  | flush => exact ⟨∅, .nothing rfl, rfl⟩

/-- A command that fails, and a request that lacks records, leave the engine as it was. -/
theorem perform_unchanged {command : EngineCommand} {e : LocalEngine}
    (h : (engine.perform command e).1.tellsFailure ∨ (engine.perform command e).1.tellsMissing) :
    (engine.perform command e).2 = e := by
  cases command with
  | load delivery =>
    show (load delivery e).2 = e
    cases hs : Snapshot.ofDelivery delivery with
    | error cause => rw [load_eq_error hs]
    | ok s =>
      have hloaded : engine.perform (.load delivery) e =
          (.loaded (.ok ()), { e with snapshot := s }) :=
        congrArg (Prod.map EngineReply.loaded id) (load_eq_ok hs e)
      rw [hloaded] at h
      rcases h with h | h <;> cases h
  | resolve request occasion =>
    have hnotes := notes_resolve e request occasion
    have hperform : engine.perform (.resolve request occasion) e =
        (.resolved (e.answer request occasion),
          e.record (e.noted (.resolve request occasion))) :=
      congrArg (Prod.map EngineReply.resolved id) (resolve_eq request occasion e)
    rw [hperform] at h ⊢
    generalize e.noted (.resolve request occasion) = done at hnotes ⊢
    generalize e.answer request occasion = answer at hnotes h
    cases hnotes with
    | answered => rcases h with h | h <;> cases h
    | nothing => exact record_empty e
  | apply request =>
    have hnotes := notes_apply e request
    have hperform : engine.perform (.apply request) e =
        (.applied (e.verdict request), e.record (e.noted (.apply request))) :=
      congrArg (Prod.map EngineReply.applied id) (apply_eq request e)
    rw [hperform] at h ⊢
    generalize e.noted (.apply request) = done at hnotes ⊢
    generalize e.verdict request = answer at hnotes h
    cases hnotes with
    | reported => rcases h with h | h <;> cases h
    | nothing => exact record_empty e
  | flush => rcases h with h | h <;> cases h

end Commands

end LocalEngine

/-! ## Runs -/

namespace LocalEngine

/-- The logs that the commands hand over, with what is in the log after them. -/
def history (commands : List EngineCommand) (e : LocalEngine) : Log :=
  Log.all ((engine.run commands e).1.map (·.handedOver)) ++ (engine.run commands e).2.log

theorem history_cons (command : EngineCommand) (rest : List EngineCommand) (e : LocalEngine) :
    history (command :: rest) e =
      (engine.perform command e).1.handedOver ++ history rest (engine.perform command e).2 := by
  show (engine.perform command e).1.handedOver ++ Log.all _ ++ _ = _
  rw [Log.append_assoc]
  rfl

/-- What is noted of the commands of a run, of one after the other. -/
def NotesAll (e : LocalEngine) (commands : List EngineCommand) (done : List Log) : Prop :=
  List.Forall₂ (fun t => Notes t.before t.command (t.reply engine)) (engine.turns commands e) done

theorem exists_notesAll (commands : List EngineCommand) (e : LocalEngine) :
    ∃ done, NotesAll e commands done ∧ history commands e = e.log ++ Log.all done := by
  induction commands generalizing e with
  | nil =>
    refine ⟨[], .nil, ?_⟩
    show ∅ ++ e.log = e.log ++ ∅
    rw [Log.empty_append, Log.append_empty]
  | cons command rest ih =>
    obtain ⟨first, hfirst, hlog⟩ := exists_notes command e
    obtain ⟨done, hdone, hrest⟩ := ih (engine.perform command e).2
    refine ⟨first :: done, .cons hfirst hdone, ?_⟩
    -- what the command hands over and leaves in the log is what was there and what it adds
    rw [history_cons, hrest, ← Log.append_assoc, hlog, Log.append_assoc, Log.all_cons]

theorem NotesAll.told {e : LocalEngine} {commands : List EngineCommand} {done : List Log}
    (h : NotesAll e commands done) :
    (Log.all done).resolves.map (·.told) =
      ((engine.run commands e).1.filterMap (·.response?)).map (·.told) := by
  induction commands generalizing e done with
  | nil =>
    cases h
    rfl
  | cons command rest ih =>
    obtain _ | ⟨hfirst, hrest⟩ := h
    show _ = (((engine.perform command e).1 ::
      (engine.run rest (engine.perform command e).2).1).filterMap (·.response?)).map (·.told)
    rw [Log.all_cons, Log.resolves_append, List.map_append, hfirst.told, ih hrest,
      List.filterMap_cons]
    show (engine.perform command e).1.response?.toList.map (·.told) ++ _ = _
    cases (engine.perform command e).1.response? <;> rfl

/-- What the log tells of a run that starts with the engine. -/
structure Accounts (e : LocalEngine) (commands : List EngineCommand) : Prop where
  /-- The logs that are handed over, with what is in the log in the end, are what is noted of the
  commands. -/
  noted : ∃ done, NotesAll e commands done ∧ history commands e = e.log ++ Log.all done
  /-- There is one entry for each response, which tells what was responded. -/
  told : (history commands e).resolves.map (·.told) =
    e.log.resolves.map (·.told) ++
      ((engine.run commands e).1.filterMap (·.response?)).map (·.told)
  /-- A command that fails, and a request that lacks records, change nothing. -/
  unchanged : ∀ t ∈ engine.turns commands e,
    (t.reply engine).tellsFailure ∨ (t.reply engine).tellsMissing → t.after engine = t.before

theorem accounts (e : LocalEngine) (commands : List EngineCommand) : Accounts e commands := by
  obtain ⟨done, hdone, hhistory⟩ := exists_notesAll commands e
  exact
    { noted := ⟨done, hdone, hhistory⟩
      told := by
        rw [hhistory, Log.resolves_append, List.map_append, hdone.told]
      unchanged := fun t _ h => perform_unchanged h }

end LocalEngine

/-! ## Sticky resolves -/

/-- Loading adds records to a request and leaves the rest of it alone. -/
theorem RecordStore.exists_holding_of_loadAll {τ : Type} {store : RecordStore τ}
    {request request' : ResolveRequest} {entries : List (String × Reads)} {t t' : τ}
    (h : store.loadAll request entries t = (.ok request', t')) :
    ∃ m, request' = request.holding m := by
  induction entries generalizing request t with
  | nil =>
    cases h
    exact ⟨request'.materializations, rfl⟩
  | cons entry rest ih =>
    obtain ⟨unit, reads⟩ := entry
    rw [loadAll] at h
    rcases hload : store.load unit reads t with ⟨cause | loaded, t''⟩
    · rw [hload] at h
      cases h
    · rw [hload] at h
      obtain ⟨m, rfl⟩ := ih h
      exact ⟨m, rfl⟩

namespace Coordinator

variable {τ : Type}

/-- How a sticky resolve over a local engine leaves the engine, told by its answer. -/
inductive Leaves (c : Coordinator LocalEngine τ) (request : ResolveRequest) (e : LocalEngine) :
    Except StickyError ResolveResponse → LocalEngine → Prop where
  /-- The engine gave the response to the request with more records at hand, and that is noted as
  in a resolve of its own. -/
  | answered {m : Materializations} {occasion : Occasion} {response : ResolveResponse}
    {updates : List StickyUpdate} {done : Log}
    (hnotes : LocalEngine.Notes e (.resolve (request.holding m) occasion)
      (.resolved (.ok (.resolved response updates))) done)
    (hone : done.resolves.map (·.told) = [response.told]) :
    Leaves c request e (.ok response) (e.record done)
  /-- The request was handed over. -/
  | handedOver {resolver : ResolveRequest → τ → Except StickyError ResolveResponse × τ}
    {answer : Except StickyError ResolveResponse} (hstrategy : c.strategy = .fallback resolver) :
    Leaves c request e answer e
  /-- The resolve failed. -/
  | failed {cause : StickyError} : Leaves c request e (.error cause) e

section Resolves

variable {c : Coordinator LocalEngine τ} {e e' : LocalEngine} {request : ResolveRequest}
  {m : Materializations} {occasion : Occasion}

theorem leaves_of_response {response : ResolveResponse} {updates : List StickyUpdate}
    (h : LocalEngine.resolve (request.holding m) occasion e =
      (.ok (.resolved response updates), e')) :
    c.Leaves request e (.ok response) e' := by
  rw [LocalEngine.resolve_eq] at h
  obtain ⟨hanswer, rfl⟩ := Prod.mk.inj h
  have hnotes := LocalEngine.notes_resolve e (request.holding m) occasion
  rw [hanswer] at hnotes
  exact .answered hnotes hnotes.told

theorem leaves_of_error {cause : EngineError}
    (h : LocalEngine.resolve (request.holding m) occasion e = (.error cause, e')) :
    c.Leaves request e (.error (.engine cause)) e' := by
  have hfails : (LocalEngine.engine.perform (.resolve (request.holding m) occasion) e).1.tellsFailure
      = true := by
    show (EngineReply.resolved (LocalEngine.resolve (request.holding m) occasion e).1).tellsFailure
      = true
    rw [h]
    rfl
  have hsame : e' = e :=
    (congrArg Prod.snd h).symm.trans (LocalEngine.perform_unchanged (.inl hfails))
  rw [hsame]
  exact .failed

/-- Rounds of loading add records to the request, and leave the engine as it is. -/
theorem holding_of_rounds (hengine : c.engine = LocalEngine.engine) {occasion : Nat → Occasion}
    {a b : Attempt LocalEngine τ} (h : ReflTransGen (c.Round occasion) a b) :
    (∃ m, b.request = a.request.holding m) ∧ b.engine = a.engine := by
  induction h with
  | refl => exact ⟨⟨a.request.materializations, rfl⟩, rfl⟩
  | tail _ hround ih =>
    obtain ⟨⟨m, hm⟩, hsame⟩ := ih
    cases hround with
    | intro _ hmissing hload =>
      rw [hengine] at hmissing
      obtain ⟨m', hm'⟩ := RecordStore.exists_holding_of_loadAll hload
      refine ⟨⟨m', ?_⟩, ?_⟩
      · dsimp only at hm ⊢
        rw [hm', hm]
        rfl
      · exact (LocalEngine.resolve_eq_missing_iff.mp hmissing).1.trans hsame

theorem leaves_of_repository {store : RecordStore τ} (hengine : c.engine = LocalEngine.engine)
    (hstrategy : c.strategy = .repository store) (request : ResolveRequest)
    (occasion : Nat → Occasion) (e : LocalEngine) (t : τ) :
    c.Leaves request e (c.resolve request occasion e t).1 (c.resolve request occasion e t).2.1 := by
  obtain ⟨last, hrounds, hfinal⟩ := exists_final c occasion ⟨c.maxRounds, request, e, t⟩
  have hends := (round_or_endsWith hstrategy occasion last).resolve_left hfinal
  obtain ⟨⟨m, hm⟩, hsame⟩ := holding_of_rounds hengine hrounds
  dsimp only at hm hsame
  rw [← run_of_rounds hrounds] at hends
  show c.Leaves request e (c.run occasion ⟨c.maxRounds, request, e, t⟩).1
    (c.run occasion ⟨c.maxRounds, request, e, t⟩).2.1
  generalize c.run occasion ⟨c.maxRounds, request, e, t⟩ = result at hends ⊢
  -- only the call that brings the response changes the engine
  cases hends with
  | refused h =>
    rw [hengine, hm, hsame] at h
    exact leaves_of_error h
  | resolved h =>
    rw [hengine, hm, hsame] at h
    exact leaves_of_response h
  | exhausted h =>
    rw [hengine, hm, hsame] at h
    rw [(LocalEngine.resolve_eq_missing_iff.mp h).1]
    exact .failed
  | notLoaded h =>
    rw [hengine, hm, hsame] at h
    rw [(LocalEngine.resolve_eq_missing_iff.mp h).1]
    exact .failed

theorem leaves_of_fallback
    {resolver : ResolveRequest → τ → Except StickyError ResolveResponse × τ}
    (hengine : c.engine = LocalEngine.engine) (hstrategy : c.strategy = .fallback resolver)
    (request : ResolveRequest) (occasion : Nat → Occasion) (e : LocalEngine) (t : τ) :
    c.Leaves request e (c.resolve request occasion e t).1 (c.resolve request occasion e t).2.1 := by
  rw [resolve, resolveWithin]
  cases hanswer : c.engine.resolve request (occasion c.maxRounds) e with
  | mk answer e' =>
    rw [hengine] at hanswer
    rcases answer with cause | ⟨response, updates⟩ | items
    -- nothing is loaded, so the request holds what it held
    case error => exact leaves_of_error (m := request.materializations) hanswer
    case ok.resolved => exact leaves_of_response (m := request.materializations) hanswer
    case ok.missing =>
      rw [(LocalEngine.resolve_eq_missing_iff.mp hanswer).1, hstrategy]
      exact .handedOver hstrategy

end Resolves

end Coordinator

namespace LocalEngine

/-- **A local engine logs exactly what it answered**: over every run of commands, and through every
sticky resolve, whatever helps it. -/
theorem log_tells_answers (e : LocalEngine) :
    (∀ commands, Accounts e commands) ∧
    ∀ (τ : Type) (strategy : StickyStrategy τ) (maxRounds : Nat) (request : ResolveRequest)
      (occasion : Nat → Occasion) (t : τ),
      let c : Coordinator LocalEngine τ := { engine := engine, strategy, maxRounds }
      c.Leaves request e (c.resolve request occasion e t).1
        (c.resolve request occasion e t).2.1 := by
  refine ⟨accounts e, ?_⟩
  intro τ strategy maxRounds request occasion t
  dsimp only
  cases strategy with
  | «fallback» resolver => exact Coordinator.leaves_of_fallback rfl rfl request occasion e t
  | repository store => exact Coordinator.leaves_of_repository rfl rfl request occasion e t

end LocalEngine

end FeatureFlags
