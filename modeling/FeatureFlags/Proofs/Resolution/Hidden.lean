import FeatureFlags.Proofs.Resolution.Isolation

/-!
# Flags that a client may not resolve

What a client gets is about flags that it may resolve (`Resolution.NamesOnly`). And it is the same
whatever other flags there are (`SnapshotInput.SameFor`): they are neither selected nor looked into.
Only the fingerprint of the snapshot tells that they are different, and a resolve has a name and a
time of its own (`Resolution.SameApart`).

- `Snapshot.nothing_learned_from_hidden_flags` says both.
-/

namespace FeatureFlags

/-! ## What a client gets -/

/-- Everything in an answer is about flags of certain names. -/
structure Resolution.NamesOnly (resolution : Resolution) (secret : List UInt8)
    (allowed : String → Prop) : Prop where
  values : ∀ value ∈ resolution.values, allowed value.flag
  response : ∀ told ∈ resolution.response.flags, allowed told.flag
  token : ∀ text, resolution.response.token = some text →
    ∃ t : ResolveToken, text = t.toText secret ∧ ∀ a ∈ t.assignedFlags, allowed a.flag
  events : ∀ e ∈ resolution.events, allowed e.assignment.flag

/-- Two tokens have the same of all but the name of the resolve and the fingerprint of the
snapshot. -/
def ResolveToken.SameApart (t t' : ResolveToken) : Prop :=
  t'.account = t.account ∧ t'.context = t.context ∧ t'.assignedFlags = t.assignedFlags

/-- Two answers are the same apart from the fingerprint of the snapshot and from the names and times
of the resolves. -/
structure Resolution.SameApart (secret : List UInt8) (resolution resolution' : Resolution) :
    Prop where
  client : resolution'.client = resolution.client
  values : resolution'.values = resolution.values
  updates : resolution'.updates = resolution.updates
  response : resolution'.response.flags = resolution.response.flags
  token : Option.Rel
    (fun text text' => ∃ t t' : ResolveToken,
      text = t.toText secret ∧ text' = t'.toText secret ∧ t.SameApart t')
    resolution.response.token resolution'.response.token
  events : resolution'.events.map (fun e => (e.client, e.assignment)) =
    resolution.events.map fun e => (e.client, e.assignment)

/-- Two outcomes of a request are the same apart from that. -/
inductive ResolveOutcome.SameApart (secret : List UInt8) :
    Except ResolveError ResolveOutcome → Except ResolveError ResolveOutcome → Prop where
  /-- The request is refused for the same reason. -/
  | refused (cause : ResolveError) : SameApart secret (.error cause) (.error cause)
  /-- The same records are missing. -/
  | missing (items : List MissingRecord) :
      SameApart secret (.ok (.missing items)) (.ok (.missing items))
  /-- The answers are the same. -/
  | resolved {resolution resolution' : Resolution} (h : resolution.SameApart secret resolution') :
      SameApart secret (.ok (.resolved resolution)) (.ok (.resolved resolution'))

namespace Findings

variable {found : Findings} {s s' : Snapshot} {config : Config} {client : String}
  {request : ResolveRequest}

/-- The parts of an answer are about the flags that values were found for. -/
theorem namesOnly_toResolution {allowed : String → Prop}
    (h : ∀ value ∈ found.values, allowed value.flag) (occasion : Occasion) :
    (found.toResolution s config client request occasion).NamesOnly config.secret allowed := by
  have hassigned : ∀ a ∈ found.values.map AssignedFlag.ofValue, allowed a.flag :=
    List.forall_mem_map.mpr h
  refine ⟨h, List.forall_mem_map.mpr h, fun text htext => ?_, fun e he => ?_⟩
  · unfold toResolution at htext
    dsimp only at htext
    split at htext
    · cases htext
    · cases htext
      exact ⟨_, rfl, hassigned⟩
  · unfold toResolution at he
    dsimp only at he
    split at he
    · obtain ⟨a, ha, rfl⟩ := List.mem_map.mp he
      exact hassigned a (List.mem_filter.mp ha).1
    · cases he

/-- One set of findings makes the same answer for snapshots of one account. -/
theorem sameApart_toResolution (haccount : s'.account = s.account) (occasion occasion' : Occasion) :
    (found.toResolution s config client request occasion).SameApart config.secret
      (found.toResolution s' config client request occasion') where
  client := rfl
  values := rfl
  updates := rfl
  response := rfl
  token := by
    unfold toResolution
    dsimp only
    split
    · exact .none
    · exact .some ⟨_, _, rfl, rfl, haccount, rfl, rfl⟩
  events := by
    unfold toResolution
    dsimp only
    split
    · rw [List.map_map, List.map_map]
      rfl
    · rfl

theorem sameApart_toOutcome (haccount : s'.account = s.account) (occasion occasion' : Occasion) :
    ResolveOutcome.SameApart config.secret
      (.ok (found.toOutcome s config client request occasion))
      (.ok (found.toOutcome s' config client request occasion')) := by
  unfold toOutcome
  split
  · exact .resolved (sameApart_toResolution haccount occasion occasion')
  · exact .missing _

/-- Flags that resolve alike add up to the same. -/
theorem ofFlags_congr {input input' : ResolveInput} {flags : List Flag}
    (h : ∀ f ∈ flags, resolveFlag input' f = resolveFlag input f) :
    ofFlags input' flags = ofFlags input flags := by
  have heach : flags.map (ofFlag input') = flags.map (ofFlag input) := by
    refine List.map_congr_left fun f hf => ?_
    rw [ofFlag, ofFlag, h f hf]
  rw [ofFlags, ofFlags, heach]

end Findings

/-! ## Configurations that differ in hidden flags -/

/-- Two configurations are the same but for flags that a client may not resolve in either of
them. -/
structure SnapshotInput.SameFor (client : String) (delivered delivered' : SnapshotInput) :
    Prop where
  account : delivered'.account = delivered.account
  segments : delivered'.segments = delivered.segments
  populations : delivered'.populations = delivered.populations
  credentials : delivered'.credentials = delivered.credentials
  flags : delivered'.flags.filter (·.isAvailableTo client) =
    delivered.flags.filter (·.isAvailableTo client)

namespace Snapshot

/-- The flags that a client may resolve are those that were delivered for it. -/
theorem BuiltFrom.offers_iff {delivered : SnapshotInput} {s : Snapshot} (h : s.BuiltFrom delivered)
    {client name : String} {f : Flag} :
    s.Offers client name f ↔ ∃ given ∈ delivered.flags.filter (·.isAvailableTo client),
      given.name = name ∧ expandFlag given = .ok f := by
  rw [Offers, h.get?_flags_iff]
  constructor
  · rintro ⟨⟨given, hgiven, hname, hexpand⟩, havailable⟩
    refine ⟨given, List.mem_filter.mpr ⟨hgiven, ?_⟩, hname, hexpand⟩
    obtain ⟨-, variants, -, rfl⟩ := expandFlag_eq_ok_iff.mp hexpand
    exact havailable
  · rintro ⟨given, hgiven, hname, hexpand⟩
    obtain ⟨hgiven, havailable⟩ := List.mem_filter.mp hgiven
    refine ⟨⟨given, hgiven, hname, hexpand⟩, ?_⟩
    obtain ⟨-, variants, -, rfl⟩ := expandFlag_eq_ok_iff.mp hexpand
    exact havailable

section HiddenFlags

variable {delivered delivered' : SnapshotInput} {s s' : Snapshot} {client : String}

theorem sameSegments_of_sameFor (h : delivered.SameFor client delivered')
    (hs : s.BuiltFrom delivered) (hs' : s'.BuiltFrom delivered') : s.SameSegments s' := by
  have hsegments : s'.segments = s.segments := by
    have hgathered := hs'.segments
    rw [h.segments, hs.segments] at hgathered
    exact (Except.ok.inj hgathered).symm
  exact
    { account := by rw [hs.account, hs'.account, h.account]
      segments := hsegments
      populations := by rw [hs.populations, hs'.populations, h.populations]
      expressions := by rw [hs.expressions, hs'.expressions, hsegments] }

theorem offers_iff_of_sameFor (h : delivered.SameFor client delivered') (hs : s.BuiltFrom delivered)
    (hs' : s'.BuiltFrom delivered') (name : String) (f : Flag) :
    s'.Offers client name f ↔ s.Offers client name f := by
  rw [hs.offers_iff, hs'.offers_iff, h.flags]

theorem clientFor?_of_sameFor (h : delivered.SameFor client delivered') (hs : s.BuiltFrom delivered)
    (hs' : s'.BuiltFrom delivered') (secret : String) :
    s'.clientFor? secret = s.clientFor? secret := by
  rw [clientFor?, clientFor?, hs.clients, hs'.clients, h.credentials]

/-- A request for flags that the client may resolve selects the same, or it names too many. -/
theorem selection_of_sameFor (h : delivered.SameFor client delivered') (hs : s.BuiltFrom delivered)
    (hs' : s'.BuiltFrom delivered') {config : Config} {request : ResolveRequest}
    (hclient : s.clientFor? request.clientSecret = some client)
    (hnames : ∀ name ∈ request.flags, ∃ f, s.Offers client name f) :
    s'.selection config request = s.selection config request := by
  have hclient' : s'.clientFor? request.clientSecret = some client :=
    (clientFor?_of_sameFor h hs hs' _).trans hclient
  cases hselection : s.selection config request with
  | ok selected =>
    obtain ⟨found, flags⟩ := selected
    obtain ⟨hfound, hcount, hflags⟩ := selection_eq_ok_iff.mp hselection
    rw [hclient] at hfound
    cases hfound
    rw [selectFlags_eq_ok_iff hs.name_eq] at hflags
    refine selection_eq_ok_iff.mpr ⟨hclient', hcount, (selectFlags_eq_ok_iff hs'.name_eq).mpr ?_⟩
    exact hflags.of_offers_iff (offers_iff_of_sameFor h hs hs')
  | error cause =>
    refine selection_eq_error_iff.mpr ?_
    cases selection_eq_error_iff.mp hselection with
    | invalidClientSecret hnone =>
      rw [hclient] at hnone
      cases hnone
    | tooManyFlags _ hcount => exact .tooManyFlags hclient' hcount
    | denied hfound _ hflags _ hdenies =>
      rw [hclient] at hfound
      cases hfound
      obtain ⟨f, hoffers⟩ := hnames _ (hflags ▸ List.mem_append_right _ List.mem_cons_self)
      exact absurd hoffers hdenies.not_offers

end HiddenFlags

/-- **Nothing is learned from hidden flags.** All that a client gets is about flags that it may
resolve. And a request that names none but these has the same outcome under every configuration
that differs in other flags only: the same error, the same missing records, or the same answer apart
from the fingerprint of the snapshot and from the name and time of the resolve. -/
theorem nothing_learned_from_hidden_flags {delivered : SnapshotInput} {s : Snapshot}
    (hbuild : build delivered = .ok s) {request : ResolveRequest} {client : String}
    (hclient : s.clientFor? request.clientSecret = some client) (config : Config) :
    (∀ occasion resolution, resolve s config request occasion = .ok (.resolved resolution) →
      resolution.client = client ∧
        resolution.NamesOnly config.secret fun name => ∃ f, s.Offers client name f) ∧
    ∀ {delivered' s'}, build delivered' = .ok s' → delivered.SameFor client delivered' →
      (∀ name ∈ request.flags, ∃ f, s.Offers client name f) → ∀ occasion occasion',
        ResolveOutcome.SameApart config.secret (resolve s config request occasion)
          (resolve s' config request occasion') := by
  have hs := builtFrom_of_build hbuild
  constructor
  · intro occasion resolution h
    obtain ⟨flags, results, hcollects⟩ := exists_collects hs h
    have hsame : resolution.client = client := by
      have hfound := hcollects.client
      rw [hclient] at hfound
      exact (Option.some.inj hfound).symm
    refine ⟨hsame, ?_⟩
    have hvalues : ∀ value ∈ resolution.values, ∃ f, s.Offers client value.flag f := by
      intro value hvalue
      obtain ⟨f, update, hoffers, -⟩ := exists_resultsIn_of_mem hs h hvalue
      exact ⟨f, hsame ▸ hoffers⟩
    obtain ⟨found, flags, -, -, rfl⟩ := resolve_eq_resolved_iff.mp h
    exact Findings.namesOnly_toResolution hvalues occasion
  · intro delivered' s' hbuild' hsame hnames occasion occasion'
    have hs' := builtFrom_of_build hbuild'
    have hsegments := sameSegments_of_sameFor hsame hs hs'
    have hselection : s'.selection config request = s.selection config request :=
      selection_of_sameFor hsame hs hs' hclient hnames
    have hfound : ∀ flags, Findings.ofFlags (request.input s' config) flags =
        Findings.ofFlags (request.input s config) flags := by
      intro flags
      refine Findings.ofFlags_congr fun f _ => ?_
      have hreads : f.SameReads (request.input s config) (request.input s' config) :=
        ResolveRequest.sameReads_input rfl rfl fun _ _ => .of_sameSegments hsegments
      exact hreads.resolveFlag_eq (checked_of_build hbuild) (checked_of_build hbuild')
    rw [resolve_eq_map_selection, resolve_eq_map_selection, hselection]
    cases s.selection config request with
    | error cause => exact .refused cause
    | ok selected =>
      dsimp only [Except.map]
      rw [hfound]
      exact Findings.sameApart_toOutcome hsegments.account occasion occasion'

end Snapshot

namespace Rollout

/-- The visitor asks for all flags. The popup, which fails, is for the staff only. -/
theorem popup_not_noticed :
    Snapshot.build (beside [popup ["staff"]]) = .ok (besideSnapshot [popup ["staff"]]) ∧
    Snapshot.build (beside []) = .ok (besideSnapshot []) ∧
    (beside [popup ["staff"]]).SameFor "web" (beside []) ∧
    ∃ resolution,
      resolve (besideSnapshot [popup ["staff"]]) .default (asking []) (visitedAt "one") =
        .ok (.resolved resolution) ∧
      resolution.NamesOnly Config.default.secret
        (fun name => ∃ f, (besideSnapshot [popup ["staff"]]).Offers "web" name f) ∧
      ResolveOutcome.SameApart Config.default.secret (.ok (.resolved resolution))
        (resolve (besideSnapshot []) .default (asking []) (visitedAt "other")) := by
  have hclient : (besideSnapshot [popup ["staff"]]).clientFor? (asking []).clientSecret =
      some "web" := rfl
  have hsame : (beside [popup ["staff"]]).SameFor "web" (beside []) :=
    { account := rfl, segments := rfl, populations := rfl, credentials := rfl, flags := rfl }
  obtain ⟨value, update, hbanner⟩ := exists_resolveFlag_keptBanner [popup ["staff"]] []
  have hselection : (besideSnapshot [popup ["staff"]]).selection .default (asking []) =
      .ok ("web", [keptBanner]) := rfl
  obtain ⟨resolution, hresolution⟩ : ∃ resolution, resolve (besideSnapshot [popup ["staff"]])
      .default (asking []) (visitedAt "one") = .ok (.resolved resolution) :=
    exists_resolution_of_selection hselection (List.forall_mem_singleton.mpr ⟨_, .decided hbanner⟩)
  obtain ⟨hnamed, hapart⟩ :=
    Snapshot.nothing_learned_from_hidden_flags (build_beside ["staff"]) hclient .default
  have houtcome := hapart build_alone hsame (List.forall_mem_nil _) (visitedAt "one")
    (visitedAt "other")
  rw [hresolution] at houtcome
  exact ⟨build_beside ["staff"], build_alone, hsame, resolution, hresolution,
    (hnamed _ resolution hresolution).2, houtcome⟩

end Rollout

end FeatureFlags
