import FeatureFlags.Proofs.Resolution.Reports
import FeatureFlags.Proofs.Resolution.Stickiness
import FeatureFlags.Proofs.Sticky.Loading

/-!
# Saving decisions

What a store in memory remembers once the decisions of a request were saved.

Decisions are merged by unit, materialization and name of the rule. Rules of different
flags may have one name, so two decisions can be meant for one place, and only the last
of them is remembered there (`MemoryStore.variantFor?_recordOf_saveUpdates`). A decision
that another one with another variant follows is overruled
(`StickyUpdate.OverruledIn`).

- `remembered_iff_not_overruled`: all decisions of a request leave their unit recorded,
  and all are remembered but those that are overruled. What overrules a decision comes
  from another flag.
- `Rollout.banner_forgotten`: one of two decisions is not remembered.
-/

namespace FeatureFlags

/-! ## Decisions by place -/

namespace StickyUpdate

/-- Whether the decision goes into this record. -/
def isAt (unit materialization : String) (u : StickyUpdate) : Bool :=
  u.unit = unit ∧ u.materialization = materialization

theorem isAt_iff {unit materialization : String} {u : StickyUpdate} :
    u.isAt unit materialization ↔ u.unit = unit ∧ u.materialization = materialization :=
  decide_eq_true_iff

/-- Whether the decision goes into this record under this name of a rule. -/
def isFor (unit materialization rule : String) (u : StickyUpdate) : Bool :=
  u.isAt unit materialization && u.rule = rule

theorem isFor_iff {unit materialization rule : String} {u : StickyUpdate} :
    u.isFor unit materialization rule ↔
      u.unit = unit ∧ u.materialization = materialization ∧ u.rule = rule := by
  simp [isFor, isAt, and_assoc]

/-- Another variant is decided on later for the same place, and nothing after that. -/
def OverruledIn (updates : List StickyUpdate) (u : StickyUpdate) : Prop :=
  ∃ before later after, updates = before ++ later :: after ∧
    later.isFor u.unit u.materialization u.rule ∧
    (∀ x ∈ after, ¬ x.isFor u.unit u.materialization u.rule) ∧ later.variant ≠ u.variant

/-- The record that is to be saved, the empty one where there is none. -/
def recordIn (grouped : Dict UnitRecords) (unit materialization : String) : UnitRecord :=
  (grouped.getD unit .empty).getD materialization .empty

theorem recordIn_addTo (grouped : Dict UnitRecords) (u : StickyUpdate)
    (unit materialization : String) :
    recordIn (addTo grouped u) unit materialization =
      if u.isAt unit materialization then (recordIn grouped unit materialization).merge u.record
      else recordIn grouped unit materialization := by
  unfold recordIn addTo
  rw [Dict.getD, Dict.getD, Dict.get?_insert]
  by_cases hunit : unit = u.unit
  · subst hunit
    rw [if_pos rfl, Option.getD_some, Dict.get?_insert]
    by_cases hname : materialization = u.materialization
    · subst hname
      rw [if_pos rfl, if_pos (isAt_iff.mpr ⟨rfl, rfl⟩)]
      rfl
    · rw [if_neg hname, if_neg fun h => hname (isAt_iff.mp h).2.symm]
      rfl
  · rw [if_neg hunit, if_neg fun h => hunit (isAt_iff.mp h).1.symm]
    rfl

/-- A unit is recorded where one of the decisions goes. -/
theorem enrolled_recordIn_grouped (updates : List StickyUpdate) (unit materialization : String) :
    (recordIn (grouped updates) unit materialization).enrolled =
      updates.reverse.any (isAt unit materialization) := by
  rw [grouped, List.foldl_eq_foldr_reverse]
  induction updates.reverse with
  | nil => rfl
  | cons u rest ih =>
    rw [List.foldr_cons, recordIn_addTo, List.any_cons]
    cases u.isAt unit materialization with
    | true => exact Bool.or_true _
    | false => exact ih

/-- The last decision for a place counts there. -/
theorem variantFor?_recordIn_grouped (updates : List StickyUpdate)
    (unit materialization rule : String) :
    (recordIn (grouped updates) unit materialization).variantFor? rule =
      (updates.reverse.find? (isFor unit materialization rule)).map (·.variant) := by
  -- from the back: what is merged last is looked into first
  rw [grouped, List.foldl_eq_foldr_reverse]
  induction updates.reverse with
  | nil => rfl
  | cons u rest ih =>
    rw [List.foldr_cons, recordIn_addTo, List.find?_cons, isFor]
    cases u.isAt unit materialization with
    | false => exact ih
    | true =>
      rw [if_pos rfl, UnitRecord.variantFor?_merge, record, UnitRecord.variantFor?_assigned, ih]
      by_cases hrule : rule = u.rule
      · simp [hrule]
      · simp [hrule, Ne.symm hrule]

end StickyUpdate

/-! ## What a store has afterwards -/

namespace MemoryStore

/-- The store says that the unit is recorded and has the variant of the decision. -/
def Remembers (t : MemoryStore) (u : StickyUpdate) : Prop :=
  ∃ record, t.get? u.unit u.materialization = some record ∧ record.enrolled = true ∧
    record.variantFor? u.rule = some u.variant

/-- A record that says something is there. -/
theorem get?_of_enrolled {t : MemoryStore} {unit materialization : String}
    (h : (t.recordOf unit materialization).enrolled = true) :
    t.get? unit materialization = some (t.recordOf unit materialization) := by
  unfold recordOf at h ⊢
  cases hget : t.get? unit materialization with
  | some record => rfl
  | none =>
    rw [hget] at h
    cases h

theorem remembers_iff {t : MemoryStore} {u : StickyUpdate}
    (h : (t.recordOf u.unit u.materialization).enrolled = true) :
    t.Remembers u ↔ (t.recordOf u.unit u.materialization).variantFor? u.rule = some u.variant := by
  have hget := get?_of_enrolled h
  constructor
  · rintro ⟨record, hrecord, -, hvariant⟩
    rw [hget] at hrecord
    cases hrecord
    exact hvariant
  · intro hvariant
    exact ⟨_, hget, h, hvariant⟩

theorem recordOf_save (unit : String) (records : UnitRecords) (t : MemoryStore)
    (unit' materialization : String) :
    (save unit records t).recordOf unit' materialization =
      if unit' = unit then
        (t.recordOf unit' materialization).merge (records.getD materialization .empty)
      else t.recordOf unit' materialization := by
  unfold recordOf Dict.getD
  rw [get?_save]
  by_cases hunit : unit' = unit
  · subst hunit
    rw [if_pos rfl, if_pos rfl]
    cases records.get? materialization with
    | some record => rfl
    | none => exact (UnitRecord.merge_empty _).symm
  · rw [if_neg hunit, if_neg hunit]

/-- Saving merges what is to be remembered into every record. -/
theorem recordOf_saveUpdates (updates : List StickyUpdate) (t : MemoryStore)
    (unit materialization : String) :
    (store.saveUpdates updates t).recordOf unit materialization =
      (t.recordOf unit materialization).merge
        (StickyUpdate.recordIn (StickyUpdate.grouped updates) unit materialization) := by
  -- each unit is saved once, with its own records
  have hfold := (StickyUpdate.grouped updates).observe_foldl
    (fun t => t.recordOf unit materialization)
    (fun records found => found.merge (records.getD materialization .empty))
    (fun t records => (recordOf_save unit records t unit materialization).trans (if_pos rfl))
    (fun t e he => (recordOf_save e.1 e.2 t unit materialization).trans (if_neg (Ne.symm he))) t
  unfold StickyUpdate.recordIn Dict.getD
  refine hfold.trans ?_
  cases (StickyUpdate.grouped updates).get? unit with
  | some records => rfl
  | none => exact (UnitRecord.merge_empty _).symm

/-- Every decision that was saved leaves its unit recorded. -/
theorem enrolled_recordOf_saveUpdates {updates : List StickyUpdate} {u : StickyUpdate}
    (hu : u ∈ updates) (t : MemoryStore) :
    ((store.saveUpdates updates t).recordOf u.unit u.materialization).enrolled = true := by
  have hany : updates.reverse.any (StickyUpdate.isAt u.unit u.materialization) = true :=
    List.any_eq_true.mpr ⟨u, List.mem_reverse.mpr hu, StickyUpdate.isAt_iff.mpr ⟨rfl, rfl⟩⟩
  rw [recordOf_saveUpdates, UnitRecord.enrolled_merge, StickyUpdate.enrolled_recordIn_grouped,
    hany, Bool.or_true]

/-- What a store has for a place after saving is the variant of the last decision for it. -/
theorem variantFor?_recordOf_saveUpdates {updates : List StickyUpdate} {u : StickyUpdate}
    (hu : u ∈ updates) (t : MemoryStore) :
    ∃ before last after, updates = before ++ last :: after ∧
      last.isFor u.unit u.materialization u.rule ∧
      (∀ x ∈ after, ¬ x.isFor u.unit u.materialization u.rule) ∧
      ((store.saveUpdates updates t).recordOf u.unit u.materialization).variantFor? u.rule =
        some last.variant := by
  obtain ⟨last, hfind⟩ : ∃ last,
      updates.reverse.find? (StickyUpdate.isFor u.unit u.materialization u.rule) = some last :=
    Option.isSome_iff_exists.mp (List.find?_isSome.mpr
      ⟨u, List.mem_reverse.mpr hu, StickyUpdate.isFor_iff.mpr ⟨rfl, rfl, rfl⟩⟩)
  obtain ⟨hlast, before, after, hsplit, hafter⟩ := find?_reverse_eq_some_iff.mp hfind
  refine ⟨before, last, after, hsplit, hlast, hafter, ?_⟩
  rw [recordOf_saveUpdates, UnitRecord.variantFor?_merge,
    StickyUpdate.variantFor?_recordIn_grouped, hfind]
  rfl

/-- The saved decisions are remembered but for those that are overruled. -/
theorem remembers_saveUpdates_iff {updates : List StickyUpdate} {u : StickyUpdate}
    (hu : u ∈ updates) (t : MemoryStore) :
    (store.saveUpdates updates t).Remembers u ↔ ¬ u.OverruledIn updates := by
  rw [remembers_iff (enrolled_recordOf_saveUpdates hu t)]
  obtain ⟨before, last, after, hsplit, hlast, hafter, hvariant⟩ :=
    variantFor?_recordOf_saveUpdates hu t
  rw [hvariant, Option.some.injEq]
  constructor
  · rintro hsame ⟨before', later, after', hsplit', hlater, hafter', hne⟩
    -- there is one last decision
    have hfind := find?_reverse_eq_some_iff.mpr ⟨hlast, before, after, hsplit, hafter⟩
    rw [find?_reverse_eq_some_iff.mpr ⟨hlater, before', after', hsplit', hafter'⟩] at hfind
    cases hfind
    exact hne hsame
  · intro hnot
    exact Classical.byContradiction fun hne =>
      hnot ⟨before, last, after, hsplit, hlast, hafter, hne⟩

end MemoryStore

/-! ## Where decisions come from -/

/-- An enabled rule of the flag has the name and writes the materialization. -/
def Flag.WritesAs (f : Flag) (rule materialization : String) : Prop :=
  ∃ r ∈ f.enabledRules, r.name = rule ∧ r.writeMaterialization? = some materialization

namespace FlagRule

variable {input : ResolveInput} {f : Flag} {r : FlagRule} {unit : String} {a : AssignmentMatch}
  {u : StickyUpdate}

/-- A decision is to be remembered under the name of the rule, where the rule writes. -/
theorem writes_of_decide {sticky : Option (String × UnitRecord)}
    (h : r.decide input f unit sticky = .decided a (some u)) :
    u.rule = r.name ∧ r.writeMaterialization? = some u.materialization := by
  rcases decision_of_decide h with ⟨-, -, hnone⟩ | ⟨v, id, -, -, hupdate⟩
  · cases hnone
  · obtain ⟨m, hwrite, rfl⟩ := hupdate u rfl
    exact ⟨rfl, hwrite⟩

end FlagRule

/-- What is to be remembered for a flag was decided by one of its rules. -/
theorem writesAs_of_resolveFlag {input : ResolveInput} {f : Flag} {value : ResolvedValue}
    {u : StickyUpdate} (h : resolveFlag input f = .ok (.resolved value (some u))) :
    f.WritesAs u.rule u.materialization := by
  have hresolves := resolvesBy input f
  rw [h] at hresolves
  generalize hresult : Except.ok (FlagOutcome.resolved value (some u)) = result at hresolves
  cases hresolves with
  | archived => cases hresult
  | finish _ _ =>
    rw [Except.ok.injEq, RuleWalk.finish] at hresult
    split at hresult <;> cases hresult
  | @rule _ _ r _ _ _ hrules _ hstep =>
    subst hresult
    -- of the four ends only a decision leaves something to remember
    cases RuleWalk.step_eq_ends hstep with
    | decided _ _ hdecide =>
      obtain ⟨hname, hwrite⟩ := FlagRule.writes_of_decide hdecide
      refine ⟨r, ?_, hname.symm, hwrite⟩
      rw [hrules]
      exact List.mem_append_right _ List.mem_cons_self

/-! ## The decisions of a request -/

section Requests

variable {s : Snapshot} {config : Config} {request : ResolveRequest} {occasion : Occasion}
  {resolution : Resolution}

/-- What overrules a decision comes from another flag. -/
theorem StickyUpdate.OverruledIn.exists_flags
    (h : resolve s config request occasion = .ok (.resolved resolution)) {u : StickyUpdate}
    (hu : u ∈ resolution.updates) (hoverruled : u.OverruledIn resolution.updates) :
    ∃ client flags, s.selection config request = .ok (client, flags) ∧
      ∃ f ∈ flags, ∃ f' ∈ flags, f ≠ f' ∧ f.WritesAs u.rule u.materialization ∧
        f'.WritesAs u.rule u.materialization := by
  obtain ⟨client, flags, hselection, -, rfl⟩ := resolve_eq_resolved_iff.mp h
  obtain ⟨before, later, after, hsplit, hlater, -, hne⟩ := hoverruled
  obtain ⟨-, hmaterialization, hrule⟩ := isFor_iff.mp hlater
  have hmem : later ∈ (Findings.ofFlags (request.input s config) flags).updates := by
    have hall : (Findings.ofFlags (request.input s config) flags).updates =
        before ++ later :: after := hsplit
    rw [hall]
    exact List.mem_append_right _ List.mem_cons_self
  obtain ⟨f, hf, value, hvalue⟩ := Findings.mem_updates_ofFlags_iff.mp hu
  obtain ⟨f', hf', value', hvalue'⟩ := Findings.mem_updates_ofFlags_iff.mp hmem
  have hwrites : f'.WritesAs u.rule u.materialization := by
    rw [← hrule, ← hmaterialization]
    exact writesAs_of_resolveFlag hvalue'
  refine ⟨client, flags, hselection, f, hf, f', hf', ?_, writesAs_of_resolveFlag hvalue, hwrites⟩
  -- a flag that is named twice resolves to the same decision twice
  rintro rfl
  rw [hvalue] at hvalue'
  cases hvalue'
  exact hne rfl

/-- **What is remembered of a request.** Let any store in memory save the decisions of a request.
Then the unit of each decision is recorded where the decision goes, and the decision is remembered
unless it is overruled, that is, unless the last decision for the same place is another variant. And
this takes two flags whose rules have one name and write one materialization. -/
theorem remembered_iff_not_overruled
    (h : resolve s config request occasion = .ok (.resolved resolution)) (t : MemoryStore) :
    ∀ u ∈ resolution.updates,
      (∃ record, (MemoryStore.store.saveUpdates resolution.updates t).get? u.unit
        u.materialization = some record ∧ record.enrolled = true) ∧
      ((MemoryStore.store.saveUpdates resolution.updates t).Remembers u ↔
        ¬ u.OverruledIn resolution.updates) ∧
      (u.OverruledIn resolution.updates →
        ∃ client flags, s.selection config request = .ok (client, flags) ∧
          ∃ f ∈ flags, ∃ f' ∈ flags, f ≠ f' ∧ f.WritesAs u.rule u.materialization ∧
            f'.WritesAs u.rule u.materialization) := by
  intro u hu
  have henrolled := MemoryStore.enrolled_recordOf_saveUpdates hu t
  exact ⟨⟨_, MemoryStore.get?_of_enrolled henrolled, henrolled⟩,
    MemoryStore.remembers_saveUpdates_iff hu t,
    fun hoverruled => hoverruled.exists_flags h hu⟩

end Requests

/-! ## Two flags and one place -/

namespace Rollout

/-- The rule with another variant for all units. -/
def ruleFor (variant : String) : FlagRule := { rule with allocation := allocation "all" variant }

/-- A flag with such a rule. -/
def flagFor (name variant : String) : Flag := { banner with name, rules := [ruleFor variant] }

/-- A banner that all units get and a popup that none gets, by rules of one name. -/
def campaign : Snapshot :=
  { snapshot with
    flags := .ofList [("banner", flagFor "banner" "on"), ("popup", flagFor "popup" "off")] }

/-- A request for all flags, for a visitor of whom nothing is recorded. -/
def campaignRequest : ResolveRequest :=
  visitorRequest.holding (Materializations.empty.insert "visitor" "seen" .empty)

/-- The visitor gets the variant, and this is to be remembered. -/
theorem exists_resolveFlag_flagFor {name variant : String}
    (h : name = "banner" ∧ variant = "on" ∨ name = "popup" ∧ variant = "off") :
    ∃ value, resolveFlag (campaignRequest.input campaign .default) (flagFor name variant) =
      .ok (.resolved value (some ⟨"visitor", "rollout", "seen", variant⟩)) := by
  have htargets : (ruleFor variant).targets (campaignRequest.input campaign .default) "visitor" =
      .ok true := targets_everyone rfl
  have hbucket : Bucket.of? "visitor" (ruleFor variant).segment
      (ruleFor variant).allocation.bucketCount = some 0 := Bucket.of?_one "visitor" "everyone"
  have hdecide : ∃ a, (ruleFor variant).decide (campaignRequest.input campaign .default)
      (flagFor name variant) "visitor" (some ("seen", .empty)) =
        .decided a (some ⟨"visitor", "rollout", "seen", variant⟩) := by
    show ∃ a, (ruleFor variant).afresh _ _ "visitor" = _
    rw [FlagRule.afresh, htargets]
    dsimp only
    rw [FlagRule.byBucket, hbucket]
    rcases h with ⟨rfl, rfl⟩ | ⟨rfl, rfl⟩ <;> exact ⟨_, rfl⟩
  have hlookUp : (ruleFor variant).lookUp (campaignRequest.input campaign .default) =
      .ready "visitor" (some ("seen", .empty)) := by
    rcases h with ⟨-, rfl⟩ | ⟨-, rfl⟩ <;> rfl
  obtain ⟨a, hdecided⟩ := hdecide
  have hstep : RuleWalk.start.step (campaignRequest.input campaign .default) (flagFor name variant)
      (ruleFor variant) = .ends (.ok (RuleWalk.start.outcome (flagFor name variant) .matched
        (some a) (some ⟨"visitor", "rollout", "seen", variant⟩))) := by
    rw [RuleWalk.step, hlookUp]
    dsimp only
    rw [hdecided]
    rfl
  have hrun : resolveFlag (campaignRequest.input campaign .default) (flagFor name variant) =
      RuleWalk.start.run _ _ [ruleFor variant] := resolveFlag_active rfl
  rw [hrun, RuleWalk.run_cons, hstep]
  exact ⟨_, rfl⟩

/-- Both decisions are to be remembered. -/
theorem exists_resolution_campaign :
    ∃ resolution, resolve campaign .default campaignRequest (visitedAt "visit") =
        .ok (.resolved resolution) ∧
      resolution.updates =
        [⟨"visitor", "rollout", "seen", "on"⟩, ⟨"visitor", "rollout", "seen", "off"⟩] := by
  obtain ⟨shown, hshown⟩ := exists_resolveFlag_flagFor (.inl ⟨rfl, rfl⟩)
  obtain ⟨hidden, hhidden⟩ := exists_resolveFlag_flagFor (.inr ⟨rfl, rfl⟩)
  have hselection : campaign.selection .default campaignRequest =
      .ok ("web", [flagFor "banner" "on", flagFor "popup" "off"]) := rfl
  have hfound : Findings.ofFlags (campaignRequest.input campaign .default)
      [flagFor "banner" "on", flagFor "popup" "off"] =
        { values := [shown, hidden]
          updates := [⟨"visitor", "rollout", "seen", "on"⟩, ⟨"visitor", "rollout", "seen", "off"⟩]
          missing := [] } := by
    simp [Findings.ofFlags, Findings.ofFlag, hshown, hhidden]
  refine ⟨_, resolve_eq_resolved_iff.mpr ⟨"web", _, hselection, ?_, rfl⟩, ?_⟩
  · rw [hfound]
  · rw [hfound]
    rfl

/-- The decision on the banner is not remembered. -/
theorem banner_forgotten :
    ∃ resolution, resolve campaign .default campaignRequest (visitedAt "visit") =
        .ok (.resolved resolution) ∧
      ∃ u ∈ resolution.updates,
        ¬ (MemoryStore.store.saveUpdates resolution.updates .empty).Remembers u := by
  obtain ⟨resolution, hresolution, hupdates⟩ := exists_resolution_campaign
  refine ⟨resolution, hresolution, ⟨"visitor", "rollout", "seen", "on"⟩, ?_, ?_⟩
  · rw [hupdates]
    decide
  · rw [hupdates]
    rintro ⟨record, hrecord, -, hvariant⟩
    cases hrecord
    exact absurd hvariant (by decide)

/-- The decision on the popup comes last, and it is. -/
theorem popup_remembered :
    ∃ resolution, resolve campaign .default campaignRequest (visitedAt "visit") =
        .ok (.resolved resolution) ∧
      (MemoryStore.store.saveUpdates resolution.updates .empty).Remembers
        ⟨"visitor", "rollout", "seen", "off"⟩ := by
  obtain ⟨resolution, hresolution, hupdates⟩ := exists_resolution_campaign
  have hmem : (⟨"visitor", "rollout", "seen", "off"⟩ : StickyUpdate) ∈ resolution.updates := by
    rw [hupdates]
    decide
  obtain ⟨-, hiff, -⟩ := remembered_iff_not_overruled hresolution .empty _ hmem
  refine ⟨resolution, hresolution, hiff.mpr ?_⟩
  rw [hupdates]
  rintro ⟨before, later, after, hsplit, hlater, hafter, hne⟩
  have hlast : some (⟨"visitor", "rollout", "seen", "off"⟩ : StickyUpdate) = some later :=
    find?_reverse_eq_some_iff.mpr ⟨hlater, before, after, hsplit, hafter⟩
  cases hlast
  exact hne rfl

end Rollout

end FeatureFlags
