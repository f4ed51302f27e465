import FeatureFlags.Proofs.Resolution.Reads
import FeatureFlags.Proofs.Resolution.Reports
import FeatureFlags.Proofs.Snapshot.Circles

/-!
# Flags by themselves

A request that is resolved has the result of every flag that it selects, at the position of the
flag (`Resolution.Collects`). A flag that fails has a result as well, a value that says so
(`Flag.ResultsIn`); a request fails only for what it asks, before any flag is looked into.

So the other flags of a request, and the other flags of the snapshot, do not matter for a flag:
`Snapshot.flags_resolve_in_isolation`.
-/

namespace FeatureFlags

/-! ## Results -/

/-- What a flag comes to by itself, and what of it is to be remembered. A flag that lacks records
has no result. -/
inductive Flag.ResultsIn (input : ResolveInput) (f : Flag) :
    ResolvedValue × Option StickyUpdate → Prop where
  /-- The flag is decided. -/
  | decided {value : ResolvedValue} {update : Option StickyUpdate}
      (h : resolveFlag input f = .ok (.resolved value update)) : ResultsIn input f (value, update)
  /-- The flag fails: its value has no decision, and says that there was an error and which. -/
  | failed {cause : ResolveError} (h : resolveFlag input f = .error cause) :
      ResultsIn input f
        ({ flag := f.name
           reason := .error
           assignment := none
           fallthroughs := []
           error := some cause.message }, none)

namespace Flag.ResultsIn

variable {input : ResolveInput} {f : Flag} {result result' : ResolvedValue × Option StickyUpdate}

theorem unique (h : f.ResultsIn input result) (h' : f.ResultsIn input result') :
    result' = result := by
  cases h with
  | decided h =>
    cases h' with
    | decided h' => rw [h] at h'; cases h'; rfl
    | failed h' => rw [h] at h'; cases h'
  | failed h =>
    cases h' with
    | decided h' => rw [h] at h'; cases h'
    | failed h' => rw [h] at h'; cases h'; rfl

/-- A result is for the flag. -/
theorem flag_eq (h : f.ResultsIn input result) : result.1.flag = f.name := by
  cases h with
  | failed h => rfl
  | decided h =>
    have hresolves := resolvesBy input f
    rw [h] at hresolves
    generalize hresult : Except.ok _ = result at hresolves
    cases hresolves with
    | archived => cases hresult; rfl
    | rule _ _ _ hstep =>
      rw [← hresult] at hstep
      cases RuleWalk.step_eq_ends hstep <;> rfl
    | finish =>
      unfold RuleWalk.finish at hresult
      split at hresult <;> cases hresult
      rfl

/-- A result is a matter of what the flag resolves to. -/
theorem iff_of_eq {input' : ResolveInput} (h : resolveFlag input' f = resolveFlag input f) :
    f.ResultsIn input' result ↔ f.ResultsIn input result := by
  constructor
  · rintro (⟨hresult⟩ | ⟨hresult⟩)
    · exact .decided (h.symm.trans hresult)
    · exact .failed (h.symm.trans hresult)
  · rintro (⟨hresult⟩ | ⟨hresult⟩)
    · exact .decided (h.trans hresult)
    · exact .failed (h.trans hresult)

end Flag.ResultsIn

/-- A flag has a result unless it lacks records. -/
theorem Flag.exists_resultsIn_iff {input : ResolveInput} {f : Flag} :
    (∃ result, f.ResultsIn input result) ↔ ∀ items, resolveFlag input f ≠ .ok (.missing items) := by
  constructor
  · rintro ⟨result, h⟩ items hmissing
    cases h with
    | decided h => rw [hmissing] at h; cases h
    | failed h => rw [hmissing] at h; cases h
  · intro h
    cases hresult : resolveFlag input f with
    | error cause => exact ⟨_, .failed hresult⟩
    | ok outcome =>
      cases outcome with
      | resolved value update => exact ⟨_, .decided hresult⟩
      | missing items => exact absurd hresult (h items)

/-! ## The results of several flags -/

namespace Findings

variable {input : ResolveInput} {flags : List Flag}
  {results : List (ResolvedValue × Option StickyUpdate)}

theorem ofFlag_eq_of_result {f : Flag} {result : ResolvedValue × Option StickyUpdate}
    (h : f.ResultsIn input result) :
    ofFlag input f = { values := [result.1], updates := result.2.toList, missing := [] } := by
  unfold ofFlag
  cases h with
  | decided h => rw [h]
  | failed h => rw [h]; rfl

/-- Flags add up to their results, in order. -/
theorem ofFlags_eq_of_results (h : List.Forall₂ (Flag.ResultsIn input) flags results) :
    ofFlags input flags =
      { values := results.map (·.1), updates := results.filterMap (·.2), missing := [] } := by
  induction h with
  | nil => rfl
  | @cons f result rest others hresult _ ih =>
    have hcons : ofFlags input (f :: rest) =
        { values := (ofFlag input f).values ++ (ofFlags input rest).values
          updates := (ofFlag input f).updates ++ (ofFlags input rest).updates
          missing := (ofFlag input f).missing ++ (ofFlags input rest).missing } := rfl
    rw [hcons, ih, ofFlag_eq_of_result hresult, List.filterMap_cons]
    cases result.2 <;> rfl

/-- Every flag has a result if nothing is missing. -/
theorem exists_results (h : (ofFlags input flags).missing = []) :
    ∃ results, List.Forall₂ (Flag.ResultsIn input) flags results := by
  rw [missing_ofFlags_eq_nil_iff] at h
  induction flags with
  | nil => exact ⟨[], .nil⟩
  | cons f rest ih =>
    obtain ⟨hf, hrest⟩ := List.forall_mem_cons.mp h
    obtain ⟨result, hresult⟩ := Flag.exists_resultsIn_iff.mpr hf
    obtain ⟨results, hresults⟩ := ih hrest
    exact ⟨result :: results, .cons hresult hresults⟩

end Findings

/-- The answer has the results of the flags that the request selects, each at the position of its
flag, and what of them is to be remembered, in the same order. -/
structure Resolution.Collects (resolution : Resolution) (s : Snapshot) (config : Config)
    (request : ResolveRequest) (flags : List Flag)
    (results : List (ResolvedValue × Option StickyUpdate)) : Prop where
  client : s.clientFor? request.clientSecret = some resolution.client
  selected : s.Selects resolution.client request.flags flags
  each : List.Forall₂ (Flag.ResultsIn (request.input s config)) flags results
  values : resolution.values = results.map (·.1)
  updates : resolution.updates = results.filterMap (·.2)

/-- Requests with one context and one set of records differ for a flag only in the segments that its
rules can reach. -/
theorem ResolveRequest.sameReads_input {s s' : Snapshot} {config : Config}
    {request request' : ResolveRequest} {f : Flag} (hcontext : request'.context = request.context)
    (hrecords : request'.materializations = request.materializations)
    (hsegments : ∀ r ∈ f.enabledRules,
      s.SameReads s' request.context request.context r.segment) :
    f.SameReads (request.input s config) (request'.input s' config) := by
  intro r hr
  exact
    { maxUnitLength := rfl
      selector := congrArg (·.get r.targetingKey) hcontext
      record := fun unit materialization _ _ => congrArg (·.get? unit materialization) hrecords
      segment := by
        show s.SameReads s' request.context request'.context r.segment
        rw [hcontext]
        exact hsegments r hr }

section Requests

variable {delivered : SnapshotInput} {s : Snapshot} {config : Config} {request : ResolveRequest}
  {occasion : Occasion} {resolution : Resolution}

theorem exists_resolution_of_selection {client : String} {flags : List Flag}
    (hselection : s.selection config request = .ok (client, flags))
    (h : ∀ f ∈ flags, ∃ result, f.ResultsIn (request.input s config) result) :
    ∃ resolution, resolve s config request occasion = .ok (.resolved resolution) := by
  refine ⟨_, resolve_eq_resolved_iff.mpr ⟨client, flags, hselection, ?_, rfl⟩⟩
  exact Findings.missing_ofFlags_eq_nil_iff.mpr fun f hf => Flag.exists_resultsIn_iff.mp (h f hf)

/-- A request that is not refused is resolved if each of its flags has a result. -/
theorem exists_resolution_of_results (hbuilt : s.BuiltFrom delivered) {client : String}
    {flags : List Flag} (hclient : s.clientFor? request.clientSecret = some client)
    (hcount : request.flags.length ≤ config.maxFlags)
    (hselects : s.Selects client request.flags flags)
    (h : ∀ f ∈ flags, ∃ result, f.ResultsIn (request.input s config) result) :
    ∃ resolution, resolve s config request occasion = .ok (.resolved resolution) := by
  have hflags := (Snapshot.selectFlags_eq_ok_iff hbuilt.name_eq).mpr hselects
  exact exists_resolution_of_selection
    (Snapshot.selection_eq_ok_iff.mpr ⟨hclient, hcount, hflags⟩) h

/-- An answer has the results of the flags that were selected. -/
theorem exists_collects (hbuilt : s.BuiltFrom delivered)
    (h : resolve s config request occasion = .ok (.resolved resolution)) :
    ∃ flags results, resolution.Collects s config request flags results := by
  obtain ⟨client, flags, hselection, hmissing, rfl⟩ := resolve_eq_resolved_iff.mp h
  obtain ⟨hclient, -, hflags⟩ := Snapshot.selection_eq_ok_iff.mp hselection
  obtain ⟨results, hresults⟩ := Findings.exists_results hmissing
  have hfound := Findings.ofFlags_eq_of_results hresults
  exact ⟨flags, results,
    { client := hclient
      selected := (Snapshot.selectFlags_eq_ok_iff hbuilt.name_eq).mp hflags
      each := hresults
      values := congrArg Findings.values hfound
      updates := congrArg Findings.updates hfound }⟩

/-- A value in an answer is a result of the flag whose name it has, and the client may resolve that
flag. -/
theorem exists_resultsIn_of_mem (hbuilt : s.BuiltFrom delivered)
    (h : resolve s config request occasion = .ok (.resolved resolution)) {value : ResolvedValue}
    (hvalue : value ∈ resolution.values) :
    ∃ f update, s.Offers resolution.client value.flag f ∧
      f.ResultsIn (request.input s config) (value, update) := by
  obtain ⟨flags, results, hcollects⟩ := exists_collects hbuilt h
  rw [hcollects.values] at hvalue
  obtain ⟨⟨_, update⟩, hresult, rfl⟩ := List.mem_map.mp hvalue
  obtain ⟨f, hf, hresultsIn⟩ := exists_of_mem_forall₂ hcollects.each hresult
  have hflags := (Snapshot.selectFlags_eq_ok_iff hbuilt.name_eq).mpr hcollects.selected
  obtain ⟨name, hoffers⟩ := Snapshot.exists_offers_of_mem_selectFlags hflags hf
  refine ⟨f, update, ?_, hresultsIn⟩
  rw [hresultsIn.flag_eq, hbuilt.name_eq hoffers.1]
  exact hoffers

end Requests

/-- **Flags resolve in isolation.** A request fails only for what it asks (`Snapshot.Refuses`). It
is resolved if each of its flags has a result, be it that the flag fails, and the answer has these
results, each at the position of its flag. So a flag has the same result, and the same value in
every answer, whatever other flags are asked for and whatever other flags the snapshot has: it
depends on its definition and on the segments that its rules can reach. -/
theorem Snapshot.flags_resolve_in_isolation {delivered : SnapshotInput} {s : Snapshot}
    (hbuild : build delivered = .ok s) (config : Config) (request : ResolveRequest)
    (occasion : Occasion) :
    (∀ cause, resolve s config request occasion = .error cause ↔ s.Refuses config request cause) ∧
    (∀ client flags, s.clientFor? request.clientSecret = some client →
      request.flags.length ≤ config.maxFlags → s.Selects client request.flags flags →
        (∀ f ∈ flags, ∃ result, f.ResultsIn (request.input s config) result) →
          ∃ resolution, resolve s config request occasion = .ok (.resolved resolution)) ∧
    (∀ resolution, resolve s config request occasion = .ok (.resolved resolution) →
      ∃ flags results, resolution.Collects s config request flags results) ∧
    ∀ {delivered' s'}, build delivered' = .ok s' → ∀ request' occasion',
      request'.context = request.context → request'.materializations = request.materializations →
      ∀ {name f}, s.flags.get? name = some f → s'.flags.get? name = some f →
        (∀ r ∈ f.enabledRules, s.SameReads s' request.context request.context r.segment) →
          (∀ result, f.ResultsIn (request'.input s' config) result ↔
              f.ResultsIn (request.input s config) result) ∧
            ∀ resolution resolution',
              resolve s config request occasion = .ok (.resolved resolution) →
              resolve s' config request' occasion' = .ok (.resolved resolution') →
                ∀ value ∈ resolution.values, ∀ value' ∈ resolution'.values,
                  value.flag = name → value'.flag = name → value' = value := by
  have hbuilt := builtFrom_of_build hbuild
  refine ⟨fun cause => resolve_eq_error_iff,
    fun client flags => exists_resolution_of_results hbuilt,
    fun resolution h => exists_collects hbuilt h, ?_⟩
  intro delivered' s' hbuild' request' occasion' hcontext hrecords name f hfound hfound' hsegments
  have hbuilt' := builtFrom_of_build hbuild'
  have hreads : f.SameReads (request.input s config) (request'.input s' config) :=
    ResolveRequest.sameReads_input hcontext hrecords hsegments
  have hsame : ∀ result, f.ResultsIn (request'.input s' config) result ↔
      f.ResultsIn (request.input s config) result := by
    intro result
    exact Flag.ResultsIn.iff_of_eq
      (hreads.resolveFlag_eq (checked_of_build hbuild) (checked_of_build hbuild'))
  refine ⟨hsame, fun resolution resolution' h h' value hvalue value' hvalue' hname hname' => ?_⟩
  -- both values are results of the flag that is found under the name
  obtain ⟨g, update, ⟨hg, -⟩, hresult⟩ := exists_resultsIn_of_mem hbuilt h hvalue
  obtain ⟨g', update', ⟨hg', -⟩, hresult'⟩ := exists_resultsIn_of_mem hbuilt' h' hvalue'
  rw [hname, hfound] at hg
  rw [hname', hfound'] at hg'
  cases hg
  cases hg'
  exact congrArg Prod.fst (hresult.unique ((hsame _).mp hresult'))

/-! ## A banner beside a popup -/

namespace Rollout

/-- The visitor keeps seeing the banner. -/
def keptBanner : Flag := { banner with rules := [carrying] }

/-- A rule for those who are in a segment that refers to itself. -/
def popupRule : FlagRule := { rule with segment := "circle", stickiness := none }

def popup (clients : List String) : Flag :=
  { banner with name := "popup", rules := [popupRule], clients }

/-- A configuration with the banner and other flags. -/
def beside (others : List Flag) : SnapshotInput :=
  { configuration with
    flags := keptBanner :: others
    segments := [{ name := "everyone" }, Audience.common "circle" ["circle"]] }

def besideSnapshot (others : List Flag) : Snapshot :=
  { Audience.checked (beside others) with
    flags := .ofList ((keptBanner :: others).map fun f => (f.name, f))
    clients := snapshot.clients }

theorem expandFlag_keptBanner : Snapshot.expandFlag keptBanner = .ok keptBanner := by
  have hrule : Snapshot.checkRule keptBanner carrying = .ok () :=
    Snapshot.checkRule_eq_ok_iff.mpr ⟨error?_whole "all" (.variant "on"), by decide⟩
  exact Snapshot.expandFlag_eq_ok_iff.mpr ⟨List.forall_mem_singleton.mpr hrule, _, rfl, rfl⟩

theorem expandFlag_popup (clients : List String) :
    Snapshot.expandFlag (popup clients) = .ok (popup clients) := by
  have hrule : Snapshot.checkRule (popup clients) popupRule = .ok () :=
    Snapshot.checkRule_eq_ok_iff.mpr ⟨error?_whole "all" (.variant "on"),
      List.forall_mem_singleton.mpr rfl⟩
  exact Snapshot.expandFlag_eq_ok_iff.mpr ⟨List.forall_mem_singleton.mpr hrule, _, rfl, rfl⟩

theorem build_alone : Snapshot.build (beside []) = .ok (besideSnapshot []) := by
  have hflags : Snapshot.gatherFlags .empty (beside []).flags = .ok (besideSnapshot []).flags :=
    Snapshot.gatherFlags_singleton expandFlag_keptBanner
  rw [Snapshot.build_eq_map hflags]
  rfl

theorem build_beside (clients : List String) :
    Snapshot.build (beside [popup clients]) = .ok (besideSnapshot [popup clients]) := by
  have hflags : Snapshot.gatherFlags .empty (beside [popup clients]).flags =
      .ok (besideSnapshot [popup clients]).flags := by
    rw [beside]
    simp only [Snapshot.gatherFlags, expandFlag_keptBanner, expandFlag_popup]
    rfl
  rw [Snapshot.build_eq_map hflags]
  rfl

/-- A request of the visitor for the flags. -/
def asking (names : List String) : ResolveRequest :=
  { visitorRequest.holding earlierVisit with flags := names }

/-- The popup fails, whatever else is asked for. -/
theorem resolveFlag_popup (names : List String) :
    resolveFlag ((asking names).input (besideSnapshot [popup ["web"]]) .default) (popup ["web"]) =
      .error (.membership (.circular ["circle", "circle"])) := by
  have hfails : (besideSnapshot [popup ["web"]]).isMember (visit .empty).context "circle"
      "visitor" = .error (.circular ["circle", "circle"]) := by decide +kernel
  have htargets : popupRule.targets
      ((asking names).input (besideSnapshot [popup ["web"]]) .default) "visitor" =
        .error (.membership (.circular ["circle", "circle"])) :=
    congrArg (Except.mapError ResolveError.membership) hfails
  rw [resolveFlag_active rfl]
  show RuleWalk.start.run _ _ [popupRule] = _
  rw [RuleWalk.run_cons]
  show (RuleWalk.start.follow _ (popupRule.afresh _ _ "visitor")).result _ = _
  rw [FlagRule.afresh, htargets]
  rfl

/-- The banner goes on being shown. -/
theorem exists_resolveFlag_keptBanner (others : List Flag) (names : List String) :
    ∃ value update, resolveFlag ((asking names).input (besideSnapshot others) .default) keptBanner =
      .ok (.resolved value update) :=
  ⟨_, _, rfl⟩

/-- The popup fails and says so in its place, and the banner is what it is without the popup. -/
theorem banner_beside_popup :
    Snapshot.build (beside [popup ["web"]]) = .ok (besideSnapshot [popup ["web"]]) ∧
    Snapshot.build (beside []) = .ok (besideSnapshot []) ∧
    ∃ resolution resolution',
      resolve (besideSnapshot [popup ["web"]]) .default (asking ["popup", "banner", "banner"])
        (visitedAt "both") = .ok (.resolved resolution) ∧
      resolve (besideSnapshot []) .default (asking ["banner"]) (visitedAt "one") =
        .ok (.resolved resolution') ∧
      (∃ flags results, resolution.Collects (besideSnapshot [popup ["web"]]) .default
        (asking ["popup", "banner", "banner"]) flags results) ∧
      (∃ failed banner, resolution.values = [failed, banner, banner] ∧
        failed.flag = "popup" ∧ failed.reason = .error ∧
        failed.error = some "Circular segment dependency: circle -> circle" ∧
        banner.flag = "banner" ∧ banner.reason = .matched ∧ banner.error = none) ∧
      ∀ value ∈ resolution.values, ∀ value' ∈ resolution'.values,
        value.flag = "banner" → value'.flag = "banner" → value' = value := by
  have hpopup := resolveFlag_popup ["popup", "banner", "banner"]
  obtain ⟨value, update, hbanner, hshown⟩ : ∃ value update,
      resolveFlag ((asking ["popup", "banner", "banner"]).input (besideSnapshot [popup ["web"]])
        .default) keptBanner = .ok (.resolved value update) ∧
      value.flag = "banner" ∧ value.reason = .matched ∧ value.error = none :=
    ⟨_, _, rfl, rfl, rfl, rfl⟩
  obtain ⟨value', update', hbanner'⟩ := exists_resolveFlag_keptBanner [] ["banner"]
  have hfound : (besideSnapshot [popup ["web"]]).flags.get? "banner" = some keptBanner := rfl
  have hfound' : (besideSnapshot []).flags.get? "banner" = some keptBanner := rfl
  have hselects : (besideSnapshot [popup ["web"]]).Selects "web" ["popup", "banner", "banner"]
      [popup ["web"], keptBanner, keptBanner] :=
    .named (List.cons_ne_nil _ _)
      (.cons ⟨rfl, rfl⟩ (.cons ⟨hfound, rfl⟩ (.cons ⟨hfound, rfl⟩ .nil)))
  have hone : (besideSnapshot []).selection .default (asking ["banner"]) =
      .ok ("web", [keptBanner]) := rfl
  obtain ⟨-, hresolves, hcollects, hisolated⟩ := Snapshot.flags_resolve_in_isolation
    (build_beside ["web"]) .default (asking ["popup", "banner", "banner"]) (visitedAt "both")
  obtain ⟨resolution, hresolution⟩ := hresolves "web" _ rfl (by decide) hselects <| by
    rw [List.forall_mem_cons, List.forall_mem_cons, List.forall_mem_singleton]
    exact ⟨⟨_, .failed hpopup⟩, ⟨_, .decided hbanner⟩, ⟨_, .decided hbanner⟩⟩
  obtain ⟨resolution', hresolution'⟩ : ∃ resolution, resolve (besideSnapshot []) .default
      (asking ["banner"]) (visitedAt "one") = .ok (.resolved resolution) :=
    exists_resolution_of_selection hone (List.forall_mem_singleton.mpr ⟨_, .decided hbanner'⟩)
  have hsegments : (besideSnapshot [popup ["web"]]).SameSegments (besideSnapshot []) :=
    { account := rfl, segments := rfl, populations := rfl, expressions := rfl }
  obtain ⟨-, hsame⟩ := hisolated build_alone (asking ["banner"]) (visitedAt "one") rfl rfl
    hfound hfound' fun _ _ => .of_sameSegments hsegments
  have hvalues : ∃ failed banner, resolution.values = [failed, banner, banner] ∧
      failed.flag = "popup" ∧ failed.reason = .error ∧
      failed.error = some "Circular segment dependency: circle -> circle" ∧
      banner.flag = "banner" ∧ banner.reason = .matched ∧ banner.error = none := by
    obtain ⟨flags, results, hall⟩ := hcollects resolution hresolution
    have hclient : "web" = resolution.client := Option.some.inj hall.client
    have hselected := hall.selected
    rw [← hclient] at hselected
    obtain rfl := hselects.unique (Snapshot.builtFrom_of_build (build_beside ["web"])).name_eq
      hselected
    have hresults := List.Forall₂.cons (Flag.ResultsIn.failed hpopup)
      (.cons (Flag.ResultsIn.decided hbanner) (.cons (Flag.ResultsIn.decided hbanner) .nil))
    obtain rfl := List.right_unique_forall₂' (fun _ _ _ h h' => h'.unique h) hall.each hresults
    exact ⟨_, value, hall.values, rfl, rfl, rfl, hshown⟩
  exact ⟨build_beside ["web"], build_alone, resolution, resolution', hresolution, hresolution',
    hcollects resolution hresolution, hvalues,
    hsame resolution resolution' hresolution hresolution'⟩

end Rollout

end FeatureFlags
