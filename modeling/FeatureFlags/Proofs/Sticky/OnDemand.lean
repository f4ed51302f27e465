import FeatureFlags.Proofs.Resolution.LongUnits
import FeatureFlags.Proofs.Sticky.Rounds

/-!
# Loading on demand and loading ahead

A request can be resolved with all records at hand that any rule of the snapshot might
look for (`Snapshot.preload`), or with none, so that a coordinator loads on demand what
is reported. Both answers come from the same store. They tell the client the same of
every flag, except of a flag whose decision was masked by a unit that is too long
(`on_demand_agrees_iff`).

What is at hand while records are loaded on demand is always a part of what would have
been loaded ahead: this is the invariant `Materializations.LoadedFrom` of the rounds.
-/

namespace FeatureFlags

open Relation (ReflTransGen)

/-! ## Loading ahead -/

namespace Snapshot

/-- The units that some rule finds in the context. -/
def unitsFound (s : Snapshot) (context : Context) : List String :=
  s.flags.toList.flatMap fun entry => entry.2.rules.filterMap fun r =>
    match context.get r.targetingKey with
    | .string unit => some unit
    | _ => none

/-- The materializations that some rule reads. -/
def materializationsRead (s : Snapshot) : List String :=
  s.flags.toList.flatMap fun entry => entry.2.rules.filterMap (·.readMaterialization?)

theorem mem_unitsFound {s : Snapshot} {context : Context} {name : String} {f : Flag}
    {r : FlagRule} {unit : String} (hf : s.flags.get? name = some f) (hr : r ∈ f.rules)
    (hunit : context.get r.targetingKey = .string unit) : unit ∈ s.unitsFound context :=
  List.mem_flatMap.mpr ⟨_, (Dict.get?_eq_some_iff _).mp hf,
    List.mem_filterMap.mpr ⟨r, hr, by rw [hunit]⟩⟩

theorem mem_materializationsRead {s : Snapshot} {name : String} {f : Flag} {r : FlagRule}
    {materialization : String} (hf : s.flags.get? name = some f) (hr : r ∈ f.rules)
    (hread : r.readMaterialization? = some materialization) :
    materialization ∈ s.materializationsRead :=
  List.mem_flatMap.mpr ⟨_, (Dict.get?_eq_some_iff _).mp hf,
    List.mem_filterMap.mpr ⟨r, hr, hread⟩⟩

/-- All records that a rule might look for, as the store has them. -/
def preload (s : Snapshot) (context : Context) (t : MemoryStore) : Materializations :=
  ((s.unitsFound context).flatMap fun unit => s.materializationsRead.map (unit, ·)).foldl
    (fun m entry => m.insert entry.1 entry.2 (t.recordOf entry.1 entry.2)) .empty

end Snapshot

namespace Materializations

variable {m : Materializations} {s : Snapshot} {context : Context} {t : MemoryStore}

/-- Whatever a rule might look for is at hand, as the store has it. -/
def Preloaded (m : Materializations) (s : Snapshot) (context : Context) (t : MemoryStore) : Prop :=
  ∀ unit ∈ s.unitsFound context, ∀ name ∈ s.materializationsRead,
    m.get? unit name = some (t.recordOf unit name)

/-- What is at hand is something that a rule might look for, as the store has it. -/
def LoadedFrom (m : Materializations) (s : Snapshot) (context : Context) (t : MemoryStore) : Prop :=
  ∀ unit name record, m.get? unit name = some record →
    unit ∈ s.unitsFound context ∧ name ∈ s.materializationsRead ∧ record = t.recordOf unit name

theorem get?_foldl_insert (record : String × String → UnitRecord)
    (entries : List (String × String)) (m : Materializations) (unit name : String) :
    (entries.foldl (fun m entry => m.insert entry.1 entry.2 (record entry)) m).get? unit name =
      if (unit, name) ∈ entries then some (record (unit, name)) else m.get? unit name := by
  induction entries generalizing m with
  | nil => rfl
  | cons entry rest ih =>
    obtain ⟨unit', name'⟩ := entry
    rw [List.foldl_cons, ih, get?_insert]
    by_cases hentry : unit = unit' ∧ name = name'
    · obtain ⟨rfl, rfl⟩ := hentry
      simp
    · have hne : ¬ (unit, name) = (unit', name') := fun heq => hentry (Prod.mk.inj heq)
      simp [hentry]

/-- Everything can be loaded ahead. -/
theorem preloaded_preload (s : Snapshot) (context : Context) (t : MemoryStore) :
    (s.preload context t).Preloaded s context t := by
  intro unit hunit name hname
  unfold Snapshot.preload
  rw [get?_foldl_insert fun entry => t.recordOf entry.1 entry.2, if_pos]
  exact List.mem_flatMap.mpr ⟨unit, hunit, List.mem_map.mpr ⟨name, hname, rfl⟩⟩

theorem loadedFrom_empty (s : Snapshot) (context : Context) (t : MemoryStore) :
    empty.LoadedFrom s context t := by
  intro unit name record h
  cases h

/-- What is loaded on demand is a part of what can be loaded ahead. -/
theorem LoadedFrom.le {more : Materializations} (h : m.LoadedFrom s context t)
    (hmore : more.Preloaded s context t) : m ≤ more := by
  intro unit name record hrecord
  obtain ⟨hunit, hname, rfl⟩ := h unit name record hrecord
  exact hmore unit hunit name hname

end Materializations

/-! ## Loading on demand -/

/-- A record that is reported is one that a rule might look for. -/
theorem mem_of_reported {s : Snapshot} {config : Config} {request : ResolveRequest}
    {occasion : Occasion} {items : List MissingRecord}
    (h : resolve s config request occasion = .ok (.missing items)) {m : MissingRecord}
    (hm : m ∈ items) :
    m.unit ∈ s.unitsFound request.context ∧ m.materialization ∈ s.materializationsRead := by
  obtain ⟨name, f, hget, r, hr, -, hunit, hread⟩ := exists_rule_of_reported h hm
  have hr : r ∈ f.rules := (List.mem_filter.mp hr).1
  exact ⟨Snapshot.mem_unitsFound hget hr hunit, Snapshot.mem_materializationsRead hget hr hread⟩

namespace Coordinator

/-- The part of an attempt that rounds preserve: the engine serves the snapshot, the store says what
it said, the request is the same up to records, and those are loaded from the store. -/
structure Serves (s : Snapshot) (config : Config) (request : ResolveRequest) (t : MemoryStore)
    (a : Attempt LocalEngine MemoryStore) : Prop where
  snapshot_eq : a.engine.snapshot = some s
  config_eq : a.engine.config = config
  records_eq : a.store.records = t.records
  request_eq : a.request = request.holding a.request.materializations
  loadedFrom : a.request.materializations.LoadedFrom s request.context t

variable {maxRounds : Nat} {occasion : Nat → Occasion} {s : Snapshot} {config : Config}
  {request : ResolveRequest} {t : MemoryStore} {a b : Attempt LocalEngine MemoryStore}

theorem Serves.context_eq (h : Serves s config request t a) :
    a.request.context = request.context := by
  rw [h.request_eq]
  rfl

theorem Serves.round (h : Serves s config request t a)
    (hround : (inMemory maxRounds).Round occasion a b) : Serves s config request t b := by
  obtain ⟨s', items, -, hs', hresolve, rfl⟩ := inMemory_round_iff.mp hround
  rw [h.snapshot_eq] at hs'
  cases hs'
  have hrecordOf : ∀ unit name, a.store.recordOf unit name = t.recordOf unit name := by
    intro unit name
    unfold MemoryStore.recordOf MemoryStore.get?
    rw [h.records_eq]
  refine ⟨h.snapshot_eq, h.config_eq, h.records_eq, ?_, ?_⟩
  · show a.request.holding _ = _
    rw [h.request_eq]
    rfl
  · intro unit name record hrecord
    have hsupply : (a.store.supply a.request.materializations items).get? unit name =
        some record := hrecord
    rw [MemoryStore.get?_supply] at hsupply
    -- the record was loaded in this round or before
    split at hsupply
    · next hloads =>
      cases hsupply
      obtain ⟨m, hm, rfl, rfl⟩ := hloads.exists_mem
      obtain ⟨hunit, hname⟩ := mem_of_reported hresolve hm
      rw [h.context_eq] at hunit
      exact ⟨hunit, hname, hrecordOf _ _⟩
    · exact h.loadedFrom unit name record hsupply

theorem Serves.rounds (h : Serves s config request t a)
    (hrounds : ReflTransGen ((inMemory maxRounds).Round occasion) a b) :
    Serves s config request t b := by
  induction hrounds with
  | refl => exact h
  | tail _ hround ih => exact ih.round hround

/-- Before the first call nothing is at hand. -/
theorem serves_start (s : Snapshot) (config : Config) (request : ResolveRequest) (log : Log)
    (t : MemoryStore) (maxRounds : Nat) :
    Serves s config request t
      ⟨maxRounds, request.holding .empty, { config, snapshot := some s, log }, t⟩ :=
  ⟨rfl, rfl, rfl, rfl, Materializations.loadedFrom_empty s request.context t⟩

/-- An answer of the coordinator is what the snapshot decides at its last attempt. -/
theorem exists_last_resolution (h : Serves s config request t a) {response : ResolveResponse}
    (hok : ((inMemory maxRounds).run occasion a).1 = .ok response) :
    ∃ b, ReflTransGen ((inMemory maxRounds).Round occasion) a b ∧ Serves s config request t b ∧
      ∃ resolution, FeatureFlags.resolve s config (request.holding b.request.materializations)
        (occasion b.left) = .ok (.resolved resolution) ∧ resolution.response = response := by
  obtain ⟨b, hrounds, hlast⟩ := exists_last (c := inMemory maxRounds) rfl occasion a
  rw [hok] at hlast
  cases hlast with
  | resolved hanswer =>
    have hb := h.rounds hrounds
    obtain ⟨s', resolution, hs', hresolve, hresponse, -⟩ := LocalEngine.exists_resolution hanswer
    rw [hb.snapshot_eq] at hs'
    cases hs'
    rw [hb.config_eq, hb.request_eq] at hresolve
    exact ⟨b, hrounds, hb, resolution, hresolve, hresponse⟩

end Coordinator

/-- Where nothing is missing with some records at hand, nothing is missing with more. -/
theorem Findings.missing_eq_nil_mono {input : ResolveInput} {more : Materializations}
    {flags : List Flag} (hle : input.materializations ≤ more)
    (h : (ofFlags input flags).missing = []) :
    (ofFlags (input.withRecords more) flags).missing = [] :=
  List.subset_nil.mp (h ▸ missing_mono hle)

namespace Coordinator

variable {maxRounds : Nat} {occasion : Nat → Occasion} {s : Snapshot} {config : Config}
  {request : ResolveRequest} {t : MemoryStore}

/-- At the last attempt, loading ahead instead changes what the client is told exactly if a decision
was masked. -/
theorem Serves.agrees_iff {a : Attempt LocalEngine MemoryStore} (h : Serves s config request t a)
    {resolution : Resolution}
    (hresolve : FeatureFlags.resolve s config (request.holding a.request.materializations)
      (occasion a.left) = .ok (.resolved resolution)) :
    ∃ client flags, s.selection config request = .ok (client, flags) ∧
      ∀ ahead : Materializations, ahead.Preloaded s request.context t → ∀ occasion',
        ∃ resolution', FeatureFlags.resolve s config (request.holding ahead) occasion' =
            .ok (.resolved resolution') ∧
          (resolution.response.flags = resolution'.response.flags ↔
            ∀ f ∈ flags, ¬ f.Masked (a.request.input s config) ahead) := by
  obtain ⟨client, flags, hselection, hmissing, rfl⟩ := resolve_eq_resolved_iff.mp hresolve
  rw [← h.request_eq] at hmissing ⊢
  refine ⟨client, flags, hselection, fun ahead hahead occasion' => ?_⟩
  have hle : (a.request.input s config).materializations ≤ ahead := h.loadedFrom.le hahead
  have hinput : (request.holding ahead).input s config =
      (a.request.input s config).withRecords ahead := by
    rw [h.request_eq]
    rfl
  -- nothing is missing ahead either, so each flag has a say in both answers
  have hmissing' := Findings.missing_eq_nil_mono hle hmissing
  rw [← hinput] at hmissing'
  refine ⟨_, resolve_eq_resolved_iff.mpr ⟨client, flags, hselection, hmissing', rfl⟩, ?_⟩
  show (Findings.ofFlags (a.request.input s config) flags).values.map ResolvedFlag.ofValue =
    (Findings.ofFlags ((request.holding ahead).input s config) flags).values.map
      ResolvedFlag.ofValue ↔ _
  rw [Findings.map_values_ofFlags, Findings.map_values_ofFlags, Findings.filterMap_told?_eq_iff
    (Findings.isSome_told?_of_missing hmissing) (Findings.isSome_told?_of_missing hmissing'),
    hinput]
  refine forall_congr' fun f => imp_congr_right fun hf => ?_
  rw [eq_comm]
  exact Flag.told?_withRecords_iff hle (Findings.missing_ofFlags_eq_nil_iff.mp hmissing f hf)

/-- **Loading on demand agrees with loading ahead**, but for masked decisions. If the coordinator
answers a request without records, and `b` is its last attempt, then the request is also resolved
with everything at hand that a rule might look for. The client is told the same exactly if at `b`
no flag of the request has its decision masked. -/
theorem on_demand_agrees_iff {log : Log} {response : ResolveResponse}
    (h : ((inMemory maxRounds).resolve (request.holding .empty) occasion
      { config, snapshot := some s, log } t).1 = .ok response) :
    ∃ b last client flags,
      ReflTransGen ((inMemory maxRounds).Round occasion)
        ⟨maxRounds, request.holding .empty, { config, snapshot := some s, log }, t⟩ b ∧
      FeatureFlags.resolve s config b.request (occasion b.left) = .ok (.resolved last) ∧
      last.response = response ∧
      s.selection config request = .ok (client, flags) ∧
      ∀ ahead : Materializations, ahead.Preloaded s request.context t → ∀ occasion',
        ∃ resolution, FeatureFlags.resolve s config (request.holding ahead) occasion' =
            .ok (.resolved resolution) ∧
          (response.flags = resolution.response.flags ↔
            ∀ f ∈ flags, ¬ f.Masked (b.request.input s config) ahead) := by
  obtain ⟨b, hrounds, hb, last, hresolve, rfl⟩ :=
    exists_last_resolution (serves_start s config request log t maxRounds) h
  obtain ⟨client, flags, hselection, hagrees⟩ := hb.agrees_iff hresolve
  rw [← hb.request_eq] at hresolve
  exact ⟨b, last, client, flags, hrounds, hresolve, rfl, hselection, hagrees⟩

/-- Where no unit is too long, loading on demand agrees with loading ahead. -/
theorem on_demand_agrees_of_short_units {log : Log} {response : ResolveResponse}
    (h : ((inMemory maxRounds).resolve (request.holding .empty) occasion
      { config, snapshot := some s, log } t).1 = .ok response)
    (hshort : ∀ unit ∈ s.unitsFound request.context, unit.length ≤ config.maxUnitLength)
    {ahead : Materializations} (hahead : ahead.Preloaded s request.context t)
    (occasion' : Occasion) :
    ∃ resolution, FeatureFlags.resolve s config (request.holding ahead) occasion' =
      .ok (.resolved resolution) ∧ response.flags = resolution.response.flags := by
  obtain ⟨b, -, hb, resolution, hresolve, rfl⟩ :=
    exists_last_resolution (serves_start s config request log t maxRounds) h
  obtain ⟨client, flags, hselection, hagrees⟩ := hb.agrees_iff hresolve
  obtain ⟨resolution', hresolve', hiff⟩ := hagrees ahead hahead occasion'
  refine ⟨resolution', hresolve', hiff.mpr fun f hf hmasked => ?_⟩
  -- the rule that masks the decision finds a unit that is too long
  obtain ⟨before, r, after, hrules, hlong, -⟩ := hmasked.rule
  obtain ⟨length, hlong⟩ := Option.isSome_iff_exists.mp hlong
  obtain ⟨unit, hunit, -, hlt⟩ := FlagRule.exists_unit_of_tooLong hlong
  have hcontext : (b.request.input s config).context = request.context := hb.context_eq
  rw [hcontext] at hunit
  obtain ⟨name, hget⟩ := Snapshot.exists_get?_of_mem_selection hselection hf
  have hr : r ∈ f.enabledRules := hrules ▸ List.mem_append_right _ List.mem_cons_self
  have hfound := Snapshot.mem_unitsFound hget (List.mem_filter.mp hr).1 hunit
  exact absurd (hshort unit hfound) (Nat.not_le.mpr hlt)

end Coordinator

namespace Rollout

/-- A materialization whose decisions are kept wherever the units are now. -/
def keeping (materialization : String) : Stickiness where
  read := some materialization
  write := some materialization
  mode := { mustMatch := false, ignoresTargeting := true }

/-- A rule that keeps decisions, and one that names its units by an attribute of their own. -/
def accountRules : List FlagRule :=
  [{ rule with stickiness := some (keeping "seen") },
    { rule with name := "account", selector := some "account", stickiness := none }]

def accountBanner : Snapshot :=
  { snapshot with flags := .ofList [("banner", { banner with rules := accountRules })] }

def shortUnits : Config := { Config.default with maxUnitLength := 7 }

/-- A visitor with a short name and a long account. -/
def accountRequest : ResolveRequest where
  clientSecret := "secret"
  context := ⟨[("account", .string "12345678"), ("targeting_key", .string "visitor")], rfl⟩

/-- The visitor has seen the banner before. -/
def seenBefore : MemoryStore := MemoryStore.empty.insert "visitor" "seen" (.assigned "rollout" "on")

/-- On demand, the error hides that a record is missing. -/
theorem exists_error_on_demand :
    ∃ response, ((Coordinator.inMemory 3).resolve (accountRequest.holding .empty)
      (fun _ => visitedAt "visit")
      { config := shortUnits, snapshot := some accountBanner, log := ∅ } seenBefore).1 =
        .ok response ∧ response.flags.map (·.reason) = [.error] :=
  ⟨_, rfl, rfl⟩

/-- That record decides the flag. -/
theorem exists_match_ahead :
    ∃ resolution, resolve accountBanner shortUnits (accountRequest.holding
        (accountBanner.preload accountRequest.context seenBefore)) (visitedAt "visit") =
          .ok (.resolved resolution) ∧
      resolution.response.flags.map (·.reason) = [.matched] :=
  ⟨_, rfl, rfl⟩

/-- An error on demand where loading ahead leads to a match. -/
theorem on_demand_disagrees :
    ∃ response resolution, ((Coordinator.inMemory 3).resolve (accountRequest.holding .empty)
      (fun _ => visitedAt "visit")
      { config := shortUnits, snapshot := some accountBanner, log := ∅ } seenBefore).1 =
        .ok response ∧
      resolve accountBanner shortUnits (accountRequest.holding
        (accountBanner.preload accountRequest.context seenBefore)) (visitedAt "visit") =
          .ok (.resolved resolution) ∧
      response.flags ≠ resolution.response.flags := by
  obtain ⟨response, hresponse, herror⟩ := exists_error_on_demand
  obtain ⟨resolution, hresolution, hmatched⟩ := exists_match_ahead
  refine ⟨response, resolution, hresponse, hresolution, fun hsame => ?_⟩
  rw [hsame, hmatched] at herror
  cases herror

/-- The decision of the banner is masked. -/
theorem exists_masked_flag : ∃ b : Attempt LocalEngine MemoryStore, ∃ f : Flag,
    f.Masked (b.request.input accountBanner shortUnits)
      (accountBanner.preload accountRequest.context seenBefore) := by
  obtain ⟨response, hresponse, herror⟩ := exists_error_on_demand
  obtain ⟨resolution, hresolution, hmatched⟩ := exists_match_ahead
  obtain ⟨b, last, client, flags, -, -, -, -, hahead⟩ :=
    Coordinator.on_demand_agrees_iff hresponse
  obtain ⟨resolution', hresolution', hagrees⟩ := hahead _
    (Materializations.preloaded_preload accountBanner accountRequest.context seenBefore)
    (visitedAt "visit")
  rw [hresolution] at hresolution'
  cases hresolution'
  -- otherwise both answers would tell the same of the banner
  refine Classical.byContradiction fun hnone => ?_
  have hsame := hagrees.mpr fun f _ hmasked => hnone ⟨b, f, hmasked⟩
  rw [hsame, hmatched] at herror
  cases herror

end Rollout

end FeatureFlags

