import FeatureFlags.Proofs.Engine.Runs
import FeatureFlags.Proofs.Json.ReadBack
import FeatureFlags.Proofs.Resolution.Isolation

/-!
# What a local engine answers and notes

Requests and reports do not change a local engine but for its log. What they are answered, and
what is noted of them, is told by the snapshot alone (`Snapshot.answer`, `Snapshot.verdict`,
`Snapshot.noted`).
-/

namespace FeatureFlags

namespace Snapshot

/-- What an engine with the snapshot answers a request. -/
def answer (s : Snapshot) (config : Config) (request : ResolveRequest) (occasion : Occasion) :
    Except EngineError EngineAnswer :=
  match FeatureFlags.resolve s config request occasion with
  | .error cause => .error (.resolve cause)
  | .ok (.missing items) => .ok (.missing items)
  | .ok (.resolved resolution) => .ok (.resolved resolution.response resolution.updates)

/-- What an engine with the snapshot says to a report. -/
def verdict (s : Snapshot) (config : Config) (request : ApplyRequest) : Except EngineError Unit :=
  match FeatureFlags.apply s config request with
  | .error cause => .error (.resolve cause)
  | .ok _ => .ok ()

/-- What an engine with the snapshot notes of a command: a request whose flags are resolved, with
its exposures, and the exposures of a report that is accepted. -/
def noted (s : Snapshot) (config : Config) : EngineCommand → Log
  | .resolve request occasion =>
    match FeatureFlags.resolve s config request occasion with
    | .ok (.resolved resolution) => .ofResolution resolution
    | _ => ∅
  | .apply request =>
    match FeatureFlags.apply s config request with
    | .ok events => .ofEvents events
    | .error _ => ∅
  | _ => ∅

/-- A delivery is read, and the segments are checked in the order of its walk. -/
theorem ofDelivery_of_ofText? {text : String} {walk : Dict.Walk Segment} {input : SnapshotInput}
    (h : SnapshotInput.ofText? text = some input) :
    ofDelivery ⟨text, walk⟩ = buildIn walk input := by
  rw [ofDelivery, h]

end Snapshot

theorem resolveId_of_resolve {s : Snapshot} {config : Config} {request : ResolveRequest}
    {occasion : Occasion} {resolution : Resolution}
    (h : resolve s config request occasion = .ok (.resolved resolution)) :
    resolution.response.resolveId = occasion.resolveId := by
  obtain ⟨client, flags, -, -, rfl⟩ := resolve_eq_resolved_iff.mp h
  rfl

namespace LocalEngine

/-- What the engine answers a request. -/
def answer (request : ResolveRequest) (occasion : Occasion) (e : LocalEngine) :
    Except EngineError EngineAnswer :=
  match e.snapshot with
  | none => .error notLoaded
  | some s => s.answer e.config request occasion

/-- What the engine says to a report. -/
def verdict (request : ApplyRequest) (e : LocalEngine) : Except EngineError Unit :=
  match e.snapshot with
  | none => .error notLoaded
  | some s => s.verdict e.config request

/-- What the engine notes of a command. -/
def noted (command : EngineCommand) (e : LocalEngine) : Log :=
  match e.snapshot with
  | none => ∅
  | some s => s.noted e.config command

@[simp] theorem engine_load (delivery : Delivery) (e : LocalEngine) :
    engine.load delivery e = load delivery e := rfl

@[simp] theorem engine_resolve (request : ResolveRequest) (occasion : Occasion) (e : LocalEngine) :
    engine.resolve request occasion e = resolve request occasion e := rfl

@[simp] theorem engine_apply (request : ApplyRequest) (e : LocalEngine) :
    engine.apply request e = apply request e := rfl

@[simp] theorem record_empty (e : LocalEngine) : e.record ∅ = e := by
  rw [record, Log.append_empty]

theorem resolve_eq (request : ResolveRequest) (occasion : Occasion) (e : LocalEngine) :
    resolve request occasion e =
      (e.answer request occasion, e.record (e.noted (.resolve request occasion))) := by
  rw [resolve, answer, noted]
  cases e.snapshot with
  | none => rw [record_empty]
  | some s =>
    dsimp only
    rw [Snapshot.answer, Snapshot.noted]
    cases FeatureFlags.resolve s e.config request occasion with
    | error cause => rw [record_empty]
    | ok outcome =>
      cases outcome with
      | missing items => rw [record_empty]
      | resolved resolution => rfl

theorem apply_eq (request : ApplyRequest) (e : LocalEngine) :
    apply request e = (e.verdict request, e.record (e.noted (.apply request))) := by
  rw [apply, verdict, noted]
  cases e.snapshot with
  | none => rw [record_empty]
  | some s =>
    dsimp only
    rw [Snapshot.verdict, Snapshot.noted]
    cases FeatureFlags.apply s e.config request with
    | error cause => rw [record_empty]
    | ok events => rfl

section Loads

variable {delivery : Delivery}

theorem load_eq_ok {s : Snapshot} (h : Snapshot.ofDelivery delivery = .ok s) (e : LocalEngine) :
    load delivery e = (.ok (), { e with snapshot := some s }) := by
  rw [load, h]

theorem load_eq_error {cause : SnapshotError} (h : Snapshot.ofDelivery delivery = .error cause)
    (e : LocalEngine) : load delivery e = (.error (.snapshot cause), e) := by
  rw [load, h]

/-- A load touches neither the log nor the configuration. -/
theorem load_keeps (delivery : Delivery) (e : LocalEngine) :
    (load delivery e).2.log = e.log ∧ (load delivery e).2.config = e.config := by
  cases h : Snapshot.ofDelivery delivery with
  | error cause =>
    rw [load_eq_error h]
    exact ⟨rfl, rfl⟩
  | ok s =>
    rw [load_eq_ok h]
    exact ⟨rfl, rfl⟩

end Loads

/-- No command changes the configuration. -/
theorem config_perform (command : EngineCommand) (e : LocalEngine) :
    (engine.perform command e).2.config = e.config := by
  cases command with
  | load delivery => exact (load_keeps delivery e).2
  | resolve request occasion =>
    show (resolve request occasion e).2.config = e.config
    rw [resolve_eq]
    rfl
  | apply request =>
    show (apply request e).2.config = e.config
    rw [apply_eq]
    rfl
  | flush => rfl

end LocalEngine

/-! ## The banner that is kept, as it is delivered -/

namespace Rollout

/-- The configuration with the banner that is kept, as text. -/
def keptText : String := (beside []).toJson.toText

theorem ofText?_keptText : SnapshotInput.ofText? keptText = some (beside []) := by
  have hread : Json.ofText? keptText = some (beside []).toJson :=
    Json.ofText?_toText rfl (by decide)
  have hdecode : SnapshotInput.ofJson? .text (beside []).toJson = some (beside []) := rfl
  rw [SnapshotInput.ofText?, hread, Option.bind_some, hdecode]

theorem ofDelivery_keptText : Snapshot.ofDelivery keptText = .ok (besideSnapshot []) :=
  (Snapshot.ofDelivery_of_ofText? ofText?_keptText).trans build_alone

/-- The visitor asks for the banner. -/
def visitAs (resolveId : String) : EngineCommand :=
  .resolve (asking ["banner"]) (visitedAt resolveId)

/-- What is noted of the visit. -/
def visitLog (resolveId : String) : Log := (besideSnapshot []).noted .default (visitAs resolveId)

/-- The banner is shown, and that is noted under the name of the resolve. -/
theorem exists_visit (resolveId : String) : ∃ response updates,
    (besideSnapshot []).answer .default (asking ["banner"]) (visitedAt resolveId) =
      .ok (.resolved response updates) ∧
    (visitLog resolveId).resolves.map (·.resolveId) = [resolveId] := by
  obtain ⟨value, update, hbanner⟩ := exists_resolveFlag_keptBanner [] ["banner"]
  have hselection : (besideSnapshot []).selection .default (asking ["banner"]) =
      .ok ("web", [keptBanner]) := rfl
  obtain ⟨resolution, hresolution⟩ : ∃ resolution, resolve (besideSnapshot []) .default
      (asking ["banner"]) (visitedAt resolveId) = .ok (.resolved resolution) :=
    exists_resolution_of_selection hselection (List.forall_mem_singleton.mpr ⟨_, .decided hbanner⟩)
  refine ⟨resolution.response, resolution.updates, ?_, ?_⟩
  · rw [Snapshot.answer, hresolution]
  · rw [visitLog, visitAs, Snapshot.noted, hresolution]
    exact congrArg ([·]) (resolveId_of_resolve hresolution)

end Rollout

end FeatureFlags
