import FeatureFlags.Proofs.Resolution.Isolation
import FeatureFlags.Proofs.Resolution.Sealing

/-!
# Using flags later

A request whose flags are used at once reports their use itself. Otherwise the client is handed a
token and reports the use of the flags with it, perhaps to a later snapshot.
`Snapshot.deferred_apply_equals_immediate`: both ways the same exposures are reported, and nothing
else of the answer differs.

Reporting finds each flag in the token by its name (`ResolveToken.assigned?`). A request may name a
flag more than once, and then the first decision found stands for all: they are the same, since a
flag has one result (`Flag.ResultsIn.unique`) and its name is its own (`Resolution.value_unique`).
-/

namespace FeatureFlags

/-! ## Exposures from a token -/

/-- What an exposure says, apart from the resolve and the time. -/
def AssignmentEvent.exposure (e : AssignmentEvent) : String × AssignedFlag :=
  (e.client, e.assignment)

namespace ResolveToken

variable {t : ResolveToken} {a : AssignedFlag}

/-- A decision is found under the name of its flag if that flag has no other. -/
theorem assigned?_eq (ha : a ∈ t.assignedFlags)
    (hunique : ∀ b ∈ t.assignedFlags, b.flag = a.flag → b = a) : t.assigned? a.flag = some a := by
  cases hfound : t.assigned? a.flag with
  | none =>
    have hnone := List.find?_eq_none.mp hfound a ha
    simp at hnone
  | some b =>
    have hname : b.flag = a.flag := by simpa using List.find?_some hfound
    rw [hunique b (List.mem_of_find?_eq_some hfound) hname]

/-- The exposures of flags that are used in the order in which they were decided. -/
theorem exists_exposures (client : String) {used : List AppliedFlag} {assigned : List AssignedFlag}
    (hnames : used.map (·.flag) = assigned.map (·.flag))
    (hfound : ∀ a ∈ assigned, t.assigned? a.flag = some a) :
    ∃ events, t.exposures client used = .ok events ∧
      events.map (·.exposure) = (assigned.filter (·.shouldApply)).map fun a => (client, a) := by
  induction used generalizing assigned with
  | nil =>
    cases assigned with
    | nil => exact ⟨[], rfl, rfl⟩
    | cons a rest => cases hnames
  | cons u used ih =>
    cases assigned with
    | nil => cases hnames
    | cons a rest =>
      obtain ⟨hname, hnames⟩ := List.cons.inj hnames
      obtain ⟨ha, hfound⟩ := List.forall_mem_cons.mp hfound
      obtain ⟨events, hevents, hexposures⟩ := ih hnames hfound
      have hname : u.flag = a.flag := hname
      rw [exposures, hname, ha, hevents]
      refine ⟨_, rfl, ?_⟩
      cases hshould : a.shouldApply with
      | false =>
        rw [List.filter_cons_of_neg (by rw [hshould]; exact Bool.false_ne_true), ← hexposures]
        rfl
      | true =>
        rw [List.filter_cons_of_pos hshould, List.map_cons, ← hexposures]
        rfl

end ResolveToken

/-! ## Two outcomes of one request -/

/-- The token of what was decided. -/
def Resolution.decisions (resolution : Resolution) (s : Snapshot) (request : ResolveRequest) :
    ResolveToken where
  account := s.account
  resolveId := resolution.response.resolveId
  stateFingerprint := s.fingerprint
  context := request.context
  assignedFlags := resolution.values.map AssignedFlag.ofValue

/-- A report that the flags of an answer are used, with the token that came with it. -/
structure Resolution.ReportedBy (deferred : Resolution) (request : ResolveRequest)
    (report : ApplyRequest) : Prop where
  clientSecret : report.clientSecret = request.clientSecret
  token : deferred.response.token = some report.token
  flags : report.flags.map (·.flag) = deferred.response.flags.map (·.flag)

/-- A snapshot that may take reports for another one: it has the same account, knows the client by
the same secret, and reads the same tokens. -/
structure Snapshot.StandsInFor (s' : Snapshot) (config' : Config) (s : Snapshot) (config : Config)
    (clientSecret : String) : Prop where
  account : s'.account = s.account
  client : s'.clientFor? clientSecret = s.clientFor? clientSecret
  secret : config'.secret = config.secret

/-- Two outcomes are refused for the same cause, lack the same records, or are resolved and stand in
a relation. -/
inductive SameUpTo (R : Resolution → Resolution → Prop) :
    Except ResolveError ResolveOutcome → Except ResolveError ResolveOutcome → Prop where
  | refused (cause : ResolveError) : SameUpTo R (.error cause) (.error cause)
  | missing (items : List MissingRecord) :
    SameUpTo R (.ok (.missing items)) (.ok (.missing items))
  | resolved {deferred immediate : Resolution} (h : R deferred immediate) :
    SameUpTo R (.ok (.resolved deferred)) (.ok (.resolved immediate))

theorem SameUpTo.exists_resolved {R : Resolution → Resolution → Prop} {deferred : Resolution}
    {outcome outcome' : Except ResolveError ResolveOutcome} (h : SameUpTo R outcome outcome')
    (hresolved : outcome = .ok (.resolved deferred)) :
    ∃ immediate, outcome' = .ok (.resolved immediate) ∧ R deferred immediate := by
  cases h with
  | refused | missing => cases hresolved
  | resolved h =>
    cases hresolved
    exact ⟨_, rfl, h⟩

/-- The answer to a request whose flags are used later, beside the one whose flags are used at
once. -/
structure Resolution.Postpones (s : Snapshot) (config : Config) (request : ResolveRequest)
    (deferred immediate : Resolution) : Prop where
  client : deferred.client = immediate.client
  flags : deferred.response.flags = immediate.response.flags
  values : deferred.values = immediate.values
  updates : deferred.updates = immediate.updates
  no_events : deferred.events = []
  no_token : immediate.response.token = none
  token : deferred.response.token = some ((deferred.decisions s request).toText config.secret)
  /-- Reporting the use of the flags gives the exposures of using them at once, unless the token has
  more levels than a reader follows. -/
  reported : (deferred.decisions s request).toJson.depth ≤ Json.maxLevels →
    ∀ s' config' report, s'.StandsInFor config' s config request.clientSecret →
      deferred.ReportedBy request report →
        ∃ events, apply s' config' report = .ok events ∧
          events.map (·.exposure) = immediate.events.map (·.exposure)

section Requests

variable {delivered : SnapshotInput} {s : Snapshot} {config : Config} {request : ResolveRequest}
  {occasion : Occasion} {resolution : Resolution}

/-- An answer has one value under each name, however often it has it. -/
theorem Resolution.value_unique (hbuilt : s.BuiltFrom delivered)
    (h : resolve s config request occasion = .ok (.resolved resolution))
    {value value' : ResolvedValue} (hvalue : value ∈ resolution.values)
    (hvalue' : value' ∈ resolution.values) (hname : value'.flag = value.flag) :
    value' = value := by
  obtain ⟨f, update, ⟨hf, -⟩, hresult⟩ := exists_resultsIn_of_mem hbuilt h hvalue
  obtain ⟨f', update', ⟨hf', -⟩, hresult'⟩ := exists_resultsIn_of_mem hbuilt h hvalue'
  rw [hname, hf] at hf'
  cases hf'
  exact congrArg Prod.fst (hresult.unique hresult')

/-- Every decision of an answer is found in its token under the name of its flag. -/
theorem assigned?_decisions (hbuilt : s.BuiltFrom delivered)
    (h : resolve s config request occasion = .ok (.resolved resolution)) {a : AssignedFlag}
    (ha : a ∈ (resolution.decisions s request).assignedFlags) :
    (resolution.decisions s request).assigned? a.flag = some a := by
  refine ResolveToken.assigned?_eq ha fun b hb hname => ?_
  obtain ⟨value, hvalue, rfl⟩ := List.mem_map.mp ha
  obtain ⟨value', hvalue', rfl⟩ := List.mem_map.mp hb
  rw [Resolution.value_unique hbuilt h hvalue hvalue' hname]

/-- Reporting the use of all flags of an answer gives the exposures of its decisions. -/
theorem exists_apply (hbuilt : s.BuiltFrom delivered)
    (h : resolve s config request occasion = .ok (.resolved resolution))
    (hdepth : (resolution.decisions s request).toJson.depth ≤ Json.maxLevels) {s' : Snapshot}
    {config' : Config} {report : ApplyRequest}
    (hclient : s'.clientFor? report.clientSecret = some resolution.client)
    (haccount : s'.account = s.account)
    (htoken : report.token = (resolution.decisions s request).toText config'.secret)
    (hflags : report.flags.map (·.flag) = resolution.values.map (·.flag)) :
    ∃ events, apply s' config' report = .ok events ∧
      events.map (·.exposure) = ((resolution.values.map AssignedFlag.ofValue).filter
        (·.shouldApply)).map fun a => (resolution.client, a) := by
  have hopens : ResolveToken.ofText config'.secret report.token =
      .ok (resolution.decisions s request) := by
    rw [htoken, ResolveToken.toText_eq]
    exact ResolveToken.ofText_textWithTag _ ((ResolveToken.depth_toJson_le_iff _).mp hdepth)
      (by decide) (by decide)
  have hnames : report.flags.map (·.flag) =
      (resolution.decisions s request).assignedFlags.map (·.flag) := by
    rw [hflags, Resolution.decisions, List.map_map]
    rfl
  obtain ⟨events, hevents, hexposures⟩ := ResolveToken.exists_exposures resolution.client hnames
    fun a ha => assigned?_decisions hbuilt h ha
  refine ⟨events, ?_, hexposures⟩
  rw [apply, hclient]
  simp only [hopens]
  rw [← hevents]
  exact if_pos haccount.symm

/-- The two answers that are made of the same findings. -/
theorem Findings.postpones (hbuilt : s.BuiltFrom delivered) {client : String} {flags : List Flag}
    (hselection : s.selection config request = .ok (client, flags))
    (hmissing : (Findings.ofFlags (request.input s config) flags).missing.isEmpty = true)
    (occasion occasion' : Occasion) :
    Resolution.Postpones s config request
      ((Findings.ofFlags (request.input s config) flags).toResolution s config client
        { request with apply := false } occasion)
      ((Findings.ofFlags (request.input s config) flags).toResolution s config client
        { request with apply := true } occasion') where
  client := rfl
  flags := rfl
  values := rfl
  updates := rfl
  no_events := rfl
  no_token := rfl
  token := rfl
  reported := by
    intro hdepth s' config' report hstands hreported
    have hresolved : resolve s config { request with apply := false } occasion =
        .ok (.resolved ((Findings.ofFlags (request.input s config) flags).toResolution s config
          client { request with apply := false } occasion)) :=
      resolve_eq_resolved_iff.mpr ⟨client, flags, hselection, List.isEmpty_iff.mp hmissing, rfl⟩
    obtain ⟨hclient, -, -⟩ := Snapshot.selection_eq_ok_iff.mp hselection
    have hclient' : s'.clientFor? report.clientSecret = some client := by
      rw [hreported.clientSecret, hstands.client, hclient]
    have htoken := (Option.some.inj hreported.token).symm
    rw [← hstands.secret] at htoken
    have hflags := hreported.flags
    rw [Findings.toResolution, List.map_map] at hflags
    obtain ⟨events, hevents, hexposures⟩ :=
      exists_apply hbuilt hresolved hdepth hclient' hstands.account htoken hflags
    refine ⟨events, hevents, hexposures.trans ?_⟩
    show _ = List.map _ (List.map _ _)
    rw [List.map_map]
    rfl

end Requests

/-- **Using flags later comes to the same as using them at once.** Of a snapshot that was built, the
two outcomes of a request differ in nothing but the token and the exposures; and if the use of the
flags is reported with the token, be it to another snapshot that takes such reports, the same
clients are exposed to the same decisions in the same order. -/
theorem Snapshot.deferred_apply_equals_immediate {delivered : SnapshotInput} {s : Snapshot}
    (hbuild : build delivered = .ok s) (config : Config) (request : ResolveRequest)
    (occasion occasion' : Occasion) :
    SameUpTo (Resolution.Postpones s config request)
      (resolve s config { request with apply := false } occasion)
      (resolve s config { request with apply := true } occasion') := by
  have hbuilt := builtFrom_of_build hbuild
  rw [resolve_eq_map_selection, resolve_eq_map_selection]
  -- what is selected and found out does not depend on when the flags are used
  show SameUpTo _
    ((s.selection config request).map fun selected =>
      (Findings.ofFlags (request.input s config) selected.2).toOutcome s config selected.1
        { request with apply := false } occasion)
    ((s.selection config request).map fun selected =>
      (Findings.ofFlags (request.input s config) selected.2).toOutcome s config selected.1
        { request with apply := true } occasion')
  cases hselection : s.selection config request with
  | error cause => exact .refused cause
  | ok selected =>
    obtain ⟨client, flags⟩ := selected
    show SameUpTo _ (.ok (Findings.toOutcome ..)) (.ok (Findings.toOutcome ..))
    unfold Findings.toOutcome
    split
    · next hmissing =>
      exact .resolved (Findings.postpones hbuilt hselection hmissing occasion occasion')
    · exact .missing _

namespace Rollout

/-- A report that all flags of an answer are used. -/
def usage (response : ResolveResponse) : ApplyRequest where
  clientSecret := "secret"
  token := response.token.getD ""
  flags := response.flags.map fun f => { flag := f.flag, appliedAt := (visitedAt "applied").now }

/-- The visitor is shown the banner in two places, beside a popup that fails. When the use is
reported, the popup is gone. -/
theorem banner_used_later :
    Snapshot.build (beside [popup ["web"]]) = .ok (besideSnapshot [popup ["web"]]) ∧
    ∃ deferred immediate events,
      resolve (besideSnapshot [popup ["web"]]) .default
        { asking ["banner", "popup", "banner"] with apply := false } (visitedAt "deferred") =
          .ok (.resolved deferred) ∧
      resolve (besideSnapshot [popup ["web"]]) .default
        { asking ["banner", "popup", "banner"] with apply := true } (visitedAt "immediate") =
          .ok (.resolved immediate) ∧
      apply (besideSnapshot []) .default (usage deferred.response) = .ok events ∧
      events.map (·.exposure) = immediate.events.map (·.exposure) := by
  have hpopup := resolveFlag_popup ["banner", "popup", "banner"]
  obtain ⟨value, update, hbanner⟩ :=
    exists_resolveFlag_keptBanner [popup ["web"]] ["banner", "popup", "banner"]
  have hselection : (besideSnapshot [popup ["web"]]).selection .default
      { asking ["banner", "popup", "banner"] with apply := false } =
        .ok ("web", [keptBanner, popup ["web"], keptBanner]) := rfl
  obtain ⟨deferred, hdeferred⟩ : ∃ deferred, resolve (besideSnapshot [popup ["web"]]) .default
      { asking ["banner", "popup", "banner"] with apply := false } (visitedAt "deferred") =
        .ok (.resolved deferred) := by
    refine exists_resolution_of_selection hselection ?_
    rw [List.forall_mem_cons, List.forall_mem_cons, List.forall_mem_singleton]
    exact ⟨⟨_, .decided hbanner⟩, ⟨_, .failed hpopup⟩, ⟨_, .decided hbanner⟩⟩
  have hsame := Snapshot.deferred_apply_equals_immediate (build_beside ["web"]) .default
    (asking ["banner", "popup", "banner"]) (visitedAt "deferred") (visitedAt "immediate")
  obtain ⟨immediate, himmediate, hpostpones⟩ := hsame.exists_resolved hdeferred
  have hdepth : (deferred.decisions (besideSnapshot [popup ["web"]])
      (asking ["banner", "popup", "banner"])).toJson.depth ≤ Json.maxLevels :=
    (ResolveToken.depth_toJson_le_iff _).mpr
      (show (visit .empty).context.toJson.depth < Json.maxLevels by decide)
  have hreported : deferred.ReportedBy (asking ["banner", "popup", "banner"])
      (usage deferred.response) :=
    { clientSecret := rfl
      token := by
        rw [usage, hpostpones.token]
        rfl
      flags := List.map_map .. }
  obtain ⟨events, hevents, hexposures⟩ := hpostpones.reported hdepth (besideSnapshot []) .default
    _ { account := rfl, client := rfl, secret := rfl } hreported
  exact ⟨build_beside ["web"], deferred, immediate, events, hdeferred, himmediate, hevents,
    hexposures⟩

end Rollout

end FeatureFlags
