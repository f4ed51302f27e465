import FeatureFlags.Proofs.Resolution.Monotone
import FeatureFlags.Proofs.Snapshot.Segments
import FeatureFlags.Sticky.Coordinator
import FeatureFlags.Store.Lemmas

/-!
# Decisions stick

A rule that reads and writes one materialization keeps giving a unit the variant that it
gave it once, however the buckets of the rule are divided later
(`sticky_decision_survives_reallocation`).

- `Flag.DecidedBy`: a flag is decided by the rule at a given place. Rules may share a
  name, so the name in a decision does not tell which of them made it.
- `FlagRule.Keeps`: what a record has to say for a rule to keep a variant. It holds of
  the record that a store has after the decision was saved, whether the rule decided
  afresh (`keeps_of_saved`) or kept the variant already.
-/

namespace FeatureFlags

/-! ## The rule that decides -/

/-- Behind the last rule there is no decision any more. -/
theorem RuleWalk.reason_of_finish_eq {f : Flag} {w : RuleWalk} {value : ResolvedValue}
    {update : Option StickyUpdate} (h : w.finish f = .resolved value update) :
    value.reason ≠ .matched := by
  unfold finish at h
  split at h
  · cases h
    dsimp only
    split <;> simp
  · cases h

/-- The flag is decided by the rule `r` behind `before`: the walk comes to it and ends there with
a decision. -/
structure Flag.DecidedBy (input : ResolveInput) (f : Flag) (before : List FlagRule) (r : FlagRule)
    (after : List FlagRule) (value : ResolvedValue) (update : Option StickyUpdate) : Prop where
  active : f.state = .active
  rules : f.rules = before ++ r :: after
  enabled : r.enabled = true
  reached : ∃ w, RuleWalk.start.through input f (before.filter (·.enabled)) = .goesOn w ∧
    w.step input f r = .ends (.ok (.resolved value update))
  matched : value.reason = .matched

namespace Flag

variable {input : ResolveInput} {f : Flag} {before after : List FlagRule} {r : FlagRule}
  {value : ResolvedValue} {update : Option StickyUpdate}

/-- The flag resolves to the decision of the rule that decides it. -/
theorem DecidedBy.resolveFlag_eq (h : f.DecidedBy input before r after value update) :
    resolveFlag input f = .ok (.resolved value update) := by
  obtain ⟨w, hthrough, hstep⟩ := h.reached
  rw [resolveFlag_active h.active, enabledRules, h.rules, List.filter_append,
    List.filter_cons_of_pos h.enabled, RuleWalk.run_append, hthrough, RuleStep.result_goesOn,
    RuleWalk.run_cons, hstep, RuleStep.result_ends]

/-- A flag that resolves with a decision is decided by one of its rules. -/
theorem exists_decidedBy (h : resolveFlag input f = .ok (.resolved value update))
    (hmatched : value.reason = .matched) :
    ∃ before r after, f.DecidedBy input before r after value update := by
  have hresolves := resolvesBy input f
  rw [h] at hresolves
  generalize hresult : Except.ok (FlagOutcome.resolved value update) = result at hresolves
  cases hresolves with
  | archived =>
    cases hresult
    cases hmatched
  | finish _ _ => exact absurd hmatched (RuleWalk.reason_of_finish_eq (Except.ok.inj hresult).symm)
  | @rule _ _ r w _ hstate hrules hthrough hstep =>
    subst hresult
    -- the walk splits the enabled rules; the rules that are not enabled go with those before
    obtain ⟨before, after, hsplit, hbefore, hafter⟩ := List.filter_eq_append_iff.mp hrules
    obtain ⟨skipped, after', hsplit', hskipped, henabled, -⟩ := List.filter_eq_cons_iff.mp hafter
    refine ⟨before ++ skipped, r, after', hstate, ?_, henabled, ⟨w, ?_, hstep⟩, hmatched⟩
    · rw [hsplit, hsplit', List.append_assoc]
    · rw [List.filter_append, hbefore, List.filter_eq_nil_iff.mpr hskipped, List.append_nil]
      exact hthrough

end Flag

/-! ## Inputs that differ in snapshot or in one record -/

namespace ResolveInput

/-- The same against another snapshot. -/
def withSnapshot (input : ResolveInput) (s : Snapshot) : ResolveInput :=
  { input with snapshot := s }

/-- The same against another snapshot, with a record in place of the one at hand. -/
def later (input : ResolveInput) (s : Snapshot) (unit materialization : String)
    (record : UnitRecord) : ResolveInput :=
  (input.withSnapshot s).withRecords
    (input.materializations.insert unit materialization record)

end ResolveInput

namespace FlagRule

variable {input : ResolveInput} {f : Flag} {r : FlagRule}

/-- A rule does not look into a record of a materialization that it does not read. -/
theorem lookUp_later_of_ne {unit name : String} (s : Snapshot) (record : UnitRecord)
    (h : r.readMaterialization? ≠ some name) :
    r.lookUp (input.later s unit name record) = r.lookUp input := by
  show r.lookUp (input.withRecords (input.materializations.insert unit name record)) = _
  cases r.asks input with
  | nothing l _ _ now any => rw [any, now]
  | record unit' name' _ hread now any =>
    have hne : name' ≠ name := fun heq => h (heq ▸ hread)
    rw [any, now, Materializations.get?_insert, if_neg fun hboth => hne hboth.2]

/-- A rule that reads a materialization and can decide has the record of its unit, and finds what
is put in place of it. -/
theorem lookUp_eq_ready {unit name : String} {sticky : Option (String × UnitRecord)}
    (hread : r.readMaterialization? = some name) (h : r.lookUp input = .ready unit sticky) :
    (∃ old, sticky = some (name, old) ∧ input.materializations.get? unit name = some old) ∧
      ∀ s record, r.lookUp (input.later s unit name record) =
        .ready unit (some (name, record)) := by
  cases r.asks input with
  | nothing l _ hready now _ =>
    rw [hready unit sticky (now.symm.trans h)] at hread
    cases hread
  | record unit' name' _ hread' now any =>
    rw [hread] at hread'
    cases hread'
    rw [now] at h
    cases hm : input.materializations.get? unit' name with
    | none => rw [hm] at h; cases h
    | some old =>
      rw [hm] at h
      cases h
      refine ⟨⟨old, rfl, hm⟩, fun s record => ?_⟩
      show r.lookUp (input.withRecords (input.materializations.insert unit name record)) = _
      rw [any, Materializations.get?_insert, if_pos ⟨rfl, rfl⟩, found]

/-- Units are targeted alike where the segments are the same. -/
theorem targets_withSnapshot {s : Snapshot} (hs : input.snapshot.SameSegments s) (unit : String) :
    r.targets (input.withSnapshot s) unit = r.targets input unit := by
  show (if s.segments.contains r.segment then
      (s.isMember input.context r.segment unit).mapError ResolveError.membership
    else .ok false) = _
  rw [hs.segments, hs.isMember_eq]
  rfl

/-- A rule decides alike where the segments are the same. -/
theorem decide_withSnapshot {s : Snapshot} (hs : input.snapshot.SameSegments s) (unit : String)
    (sticky : Option (String × UnitRecord)) :
    r.decide (input.withSnapshot s) f unit sticky = r.decide input f unit sticky := by
  unfold decide afresh
  rw [targets_withSnapshot hs]

/-! ## What a record has to say -/

/-- The record makes the rule keep the variant for the unit: the variant is recorded and still
defined, and the unit is targeted if that matters. -/
structure Keeps (input : ResolveInput) (f : Flag) (r : FlagRule) (unit : String)
    (record : UnitRecord) (v : Variant) : Prop where
  enrolled : record.enrolled = true
  recorded : r.recordedVariant? f record = some v
  targeted : r.readMode.ignoresTargeting = true ∨ r.targets input unit = .ok true

/-- A rule with such a record keeps the variant, without regard to its allocation. -/
theorem Keeps.decide_eq {unit read : String} {record : UnitRecord} {v : Variant}
    (h : Keeps input f r unit record v) :
    r.decide input f unit (some (read, record)) = r.keep unit read v := by
  unfold decide
  simp only [h.enrolled, h.recorded, ↓reduceIte]
  rcases h.targeted with hignores | htargets
  · rw [if_pos hignores]
  · rw [htargets]
    simp

/-- There is nothing to remember when a variant is kept where it was read. -/
theorem keep_eq_decided {m : String} (hwrite : r.writeMaterialization? = some m) (unit : String)
    (v : Variant) :
    r.keep unit m v =
      .decided (r.assignmentMatch unit (r.assignmentIdOf v.name) (some v)) none := by
  simp [keep, hwrite]

/-- A decision that was made afresh, once it is merged into a record, makes the rule keep it. -/
theorem keeps_of_saved {unit m : String} {v : Variant} (old : UnitRecord)
    (hv : f.variant? v.name = some v) (htargets : r.targets input unit = .ok true) :
    Keeps input f r unit (old.merge (r.stickyUpdate unit v.name m).record) v where
  enrolled := by
    rw [UnitRecord.enrolled_merge, StickyUpdate.record, UnitRecord.enrolled_assigned, Bool.or_true]
  recorded := by
    rw [recordedVariant?, UnitRecord.variantFor?_merge, StickyUpdate.record,
      UnitRecord.variantFor?_assigned]
    simpa [stickyUpdate] using hv
  targeted := .inr htargets

/-- A rule that decides afresh leaves the variant to the client, and nothing is to be remembered, or
it gives the unit a variant that the flag defines, and this is to be remembered where it writes. -/
theorem decided_of_afresh {unit : String} {a : AssignmentMatch} {update : Option StickyUpdate}
    (h : r.afresh input f unit = .decided a update) :
    (∃ id, a = r.assignmentMatch unit id none ∧ update = none) ∨
      ∃ v id, a = r.assignmentMatch unit id (some v) ∧ f.variant? v.name = some v ∧
        r.targets input unit = .ok true ∧
        update = r.writeMaterialization?.map (r.stickyUpdate unit v.name) := by
  unfold afresh at h
  split at h
  · cases h
  · cases h
  · next htargets =>
    unfold byBucket at h
    split at h
    · cases h
    · split at h
      · cases h
      · next assignment _ =>
        split at h
        · cases h
        · cases h
          exact .inl ⟨assignment.id, rfl, rfl⟩
        · split at h
          · cases h
          · next v hv =>
            cases h
            have hdefined : f.variant? v.name = some v := (Flag.name_of_variant? hv).symm ▸ hv
            exact .inr ⟨v, assignment.id, rfl, hdefined, htargets, rfl⟩

/-- **What a decision consists of**: it leaves the variant to the client, and nothing is to be
remembered, or it gives a variant that the flag defines, and this may have to be remembered where
the rule writes. -/
theorem decision_of_decide {unit : String} {sticky : Option (String × UnitRecord)}
    {a : AssignmentMatch} {update : Option StickyUpdate}
    (h : r.decide input f unit sticky = .decided a update) :
    (∃ id, a = r.assignmentMatch unit id none ∧ update = none) ∨
      ∃ v id, a = r.assignmentMatch unit id (some v) ∧ f.variant? v.name = some v ∧
        ∀ u, update = some u → ∃ m, r.writeMaterialization? = some m ∧
          u = r.stickyUpdate unit v.name m := by
  have hdecides := r.decidesBy input f unit sticky
  rw [h] at hdecides
  generalize hverdict : Verdict.decided a update = verdict at hdecides
  cases hdecides with
  | afresh =>
    refine (decided_of_afresh hverdict.symm).imp_right ?_
    rintro ⟨v, id, ha, hdefined, -, rfl⟩
    refine ⟨v, id, ha, hdefined, fun u hu => ?_⟩
    obtain ⟨m, hwrite, rfl⟩ := Option.map_eq_some_iff.mp hu
    exact ⟨m, hwrite, rfl⟩
  | @keep _ record v _ hrecorded =>
    obtain ⟨rfl, rfl⟩ := Verdict.decided.inj hverdict
    obtain ⟨name, -, hv⟩ := Option.bind_eq_some_iff.mp hrecorded
    have hdefined : f.variant? v.name = some v := (Flag.name_of_variant? hv).symm ▸ hv
    refine .inr ⟨v, _, rfl, hdefined, fun u hu => ?_⟩
    obtain ⟨m, hfilter, rfl⟩ := Option.map_eq_some_iff.mp hu
    exact ⟨m, (Option.filter_eq_some_iff.mp hfilter).1, rfl⟩
  | skipped => cases hverdict
  | failed => cases hverdict

/-- **A decision leads back to itself**: a rule that reads and writes one materialization and gives
a variant either kept it, and then it has nothing to remember and its record makes it keep the
variant, or it gave it afresh, and then that is to be remembered. -/
theorem decide_eq_decided {unit m : String} {record : UnitRecord} {a : AssignmentMatch}
    {update : Option StickyUpdate} {name : String} (hwrite : r.writeMaterialization? = some m)
    (h : r.decide input f unit (some (m, record)) = .decided a update)
    (hname : a.variant = some name) :
    ∃ v id, a = r.assignmentMatch unit id (some v) ∧ v.name = name ∧
      ((update = none ∧ Keeps input f r unit record v) ∨
        (update = some (r.stickyUpdate unit v.name m) ∧ f.variant? v.name = some v ∧
          r.targets input unit = .ok true)) := by
  have hdecides := r.decidesBy input f unit (some (m, record))
  rw [h] at hdecides
  generalize hverdict : Verdict.decided a update = verdict at hdecides
  cases hdecides with
  | afresh =>
    rcases decided_of_afresh hverdict.symm with
      ⟨id, rfl, -⟩ | ⟨v, id, rfl, hdefined, htargets, hupdate⟩
    · cases hname
    · rw [hwrite, Option.map_some] at hupdate
      exact ⟨v, id, rfl, Option.some.inj hname, .inr ⟨hupdate, hdefined, htargets⟩⟩
  | @keep _ _ v henrolled hrecorded htargeted =>
    rw [keep_eq_decided hwrite] at hverdict
    cases hverdict
    exact ⟨v, _, rfl, Option.some.inj hname, .inl ⟨rfl, henrolled, hrecorded, htargeted⟩⟩
  | skipped => cases hverdict
  | failed => cases hverdict

end FlagRule

/-! ## Saving a decision -/

namespace MemoryStore

/-- A decision that is saved is merged into the record of its unit. -/
theorem get?_saveUpdates_singleton (u : StickyUpdate) (t : MemoryStore) :
    (store.saveUpdates [u] t).get? u.unit u.materialization =
      some (((t.get? u.unit u.materialization).getD .empty).merge u.record) := by
  show (save u.unit (Dict.empty.insert u.materialization (UnitRecord.empty.merge u.record)) t).get?
      u.unit u.materialization = _
  rw [get?_save, if_pos rfl, Dict.get?_insert_self, UnitRecord.empty_merge]

end MemoryStore

/-! ## The same decision again -/

namespace Flag

/-- The flag with another division of the buckets of the rule behind `before`. -/
def reallocate (f : Flag) (before : List FlagRule) (r : FlagRule) (after : List FlagRule)
    (allocation : Allocation) : Flag :=
  { f with rules := before ++ { r with allocation } :: after }

end Flag

variable {input : ResolveInput} {f : Flag} {before after : List FlagRule} {r : FlagRule}

/-- A rule that does not read the materialization takes part in the walk as before. -/
theorem RuleWalk.step_later {other : FlagRule} {m : String}
    (hother : other.readMaterialization? ≠ some m) {s : Snapshot}
    (hs : input.snapshot.SameSegments s) (unit : String) (record : UnitRecord)
    (allocation : Allocation) (w : RuleWalk) :
    w.step (input.later s unit m record) (f.reallocate before r after allocation) other =
      w.step input f other := by
  have hdecide : ∀ unit' sticky, other.decide (input.later s unit m record)
      (f.reallocate before r after allocation) unit' sticky =
        other.decide input f unit' sticky := fun unit' sticky =>
    FlagRule.decide_withSnapshot (f := f) hs unit' sticky
  unfold step
  rw [FlagRule.lookUp_later_of_ne s record hother]
  simp only [hdecide]
  rfl

/-- Once the decision of a rule was saved, the store has a record that makes the rule keep it. -/
theorem FlagRule.exists_saved_keeps {unit m : String} {old : UnitRecord} {v : Variant}
    {update : Option StickyUpdate} {t : MemoryStore} (ht : (t.get? unit m).getD .empty = old)
    (h : (update = none ∧ r.Keeps input f unit old v) ∨
      (update = some (r.stickyUpdate unit v.name m) ∧ f.variant? v.name = some v ∧
        r.targets input unit = .ok true)) :
    ∃ record, (MemoryStore.store.saveUpdates update.toList t).get? unit m = some record ∧
      r.Keeps input f unit record v := by
  obtain ⟨rfl, hkeeps⟩ | ⟨rfl, hdefined, htargets⟩ := h
  · refine ⟨old, ?_, hkeeps⟩
    show t.get? unit m = some old
    cases hm : t.get? unit m with
    | some record => rw [← ht, hm, Option.getD_some]
    | none =>
      -- a unit of which nothing is recorded is not given the same again
      rw [hm] at ht
      subst ht
      cases hkeeps.enrolled
  · exact ⟨_, MemoryStore.get?_saveUpdates_singleton (r.stickyUpdate unit v.name m) t,
      keeps_of_saved _ hdefined htargets⟩

/-- A rule goes on keeping a variant when its buckets are divided anew. -/
theorem FlagRule.Keeps.reallocate {unit m : String} {record : UnitRecord} {v : Variant}
    (h : r.Keeps input f unit record v) {s : Snapshot} (hs : input.snapshot.SameSegments s)
    (allocation : Allocation) :
    ({ r with allocation } : FlagRule).Keeps (input.later s unit m record)
      (f.reallocate before r after allocation) unit record v where
  enrolled := h.enrolled
  recorded := h.recorded
  targeted := h.targeted.imp_right fun htargets =>
    (targets_withSnapshot (r := r) hs unit).trans htargets

/-- **Decisions stick.** A flag is decided by a rule that reads and writes the materialization `m`,
which no other enabled rule reads, and the decision is a variant. Let the store from which the
record of the unit in `m` was loaded save what is to be remembered. With the record that it has
then, the flag is decided by the same rule with the same variant, behind the same rules that fell
through, and nothing is to be remembered, however the buckets of the rule are divided, in every
snapshot with the same segments. Only the name of the assignment may be another. -/
theorem sticky_decision_survives_reallocation {value : ResolvedValue}
    {update : Option StickyUpdate} {a : AssignmentMatch} {m name : String}
    (hdecided : f.DecidedBy input before r after value update)
    (hassignment : value.assignment = some a) (hname : a.variant = some name)
    (hread : r.readMaterialization? = some m) (hwrite : r.writeMaterialization? = some m)
    (halone : ∀ other ∈ before ++ after, other.enabled = true →
      other.readMaterialization? ≠ some m)
    {t : MemoryStore} (hstore : ∀ record, input.materializations.get? a.unit m = some record →
      (t.get? a.unit m).getD .empty = record)
    {s : Snapshot} (hs : input.snapshot.SameSegments s) (allocation : Allocation) :
    ∃ record id, (MemoryStore.store.saveUpdates update.toList t).get? a.unit m = some record ∧
      (f.reallocate before r after allocation).DecidedBy (input.later s a.unit m record)
        before { r with allocation } after
        { value with assignment := some { a with assignmentId := id } } none ∧
      resolveFlag (input.later s a.unit m record) (f.reallocate before r after allocation) =
        .ok (.resolved { value with assignment := some { a with assignmentId := id } } none) := by
  obtain ⟨w, hthrough, hstep⟩ := hdecided.reached
  cases RuleWalk.step_eq_ends hstep with
  | notText => cases hdecided.matched
  | @decided unit _ _ _ hmissing hl hdecide =>
    cases hassignment
    obtain ⟨⟨old, rfl, hold⟩, hfound⟩ := FlagRule.lookUp_eq_ready hread hl
    obtain ⟨v, id, rfl, hv, hcases⟩ := FlagRule.decide_eq_decided hwrite hdecide hname
    have ht : (t.get? unit m).getD .empty = old := hstore old hold
    obtain ⟨record, hsaved, hkeeps⟩ := FlagRule.exists_saved_keeps ht hcases
    -- the rules before take the same steps, so the walk comes to the rule in the same state
    have hbefore : RuleWalk.start.through (input.later s unit m record)
        (f.reallocate before r after allocation) (before.filter (·.enabled)) = .goesOn w := by
      rw [← hthrough]
      refine RuleWalk.through_congr (fun other hother w => ?_) _
      obtain ⟨hmem, henabled⟩ := List.mem_filter.mp hother
      exact RuleWalk.step_later (halone other (List.mem_append_left _ hmem) henabled) hs ..
    have hlookUp : ({ r with allocation } : FlagRule).lookUp (input.later s unit m record) =
        .ready unit (some (m, record)) := hfound s record
    have hkeep : ({ r with allocation } : FlagRule).decide (input.later s unit m record)
        (f.reallocate before r after allocation) unit (some (m, record)) =
          .decided (r.assignmentMatch unit
            (({ r with allocation } : FlagRule).assignmentIdOf v.name) (some v)) none :=
      (hkeeps.reallocate hs allocation).decide_eq.trans
        (FlagRule.keep_eq_decided (r := { r with allocation }) hwrite unit v)
    have hagain : (f.reallocate before r after allocation).DecidedBy
        (input.later s unit m record) before { r with allocation } after
        { flag := f.name, reason := .matched,
          assignment := some (r.assignmentMatch unit
            (({ r with allocation } : FlagRule).assignmentIdOf v.name) (some v)),
          fallthroughs := w.fallthroughs, error := none } none :=
      { active := hdecided.active
        rules := rfl
        enabled := hdecided.enabled
        reached := by
          refine ⟨w, hbefore, ?_⟩
          rw [RuleWalk.step, hlookUp]
          dsimp only
          rw [hmissing, List.isEmpty_nil, if_pos rfl, hkeep]
          rfl
        matched := rfl }
    exact ⟨record, _, hsaved, hagain, hagain.resolveFlag_eq⟩

/-! ## A rollout that is taken back -/

namespace Rollout

/-- A visit of a unit of which nothing is recorded. -/
def firstVisit : ResolveInput := visit (Materializations.empty.insert "visitor" "seen" .empty)

/-- The banner is shown. -/
def shown (assignmentId : String) : ResolvedValue where
  flag := "banner"
  reason := .matched
  assignment := some (rule.assignmentMatch "visitor" assignmentId (some on))
  fallthroughs := []
  error := none

theorem decide_rule : rule.decide firstVisit banner "visitor" (some ("seen", .empty)) =
    .decided (rule.assignmentMatch "visitor" "all" (some on))
      (some (rule.stickyUpdate "visitor" "on" "seen")) := by
  show rule.afresh firstVisit banner "visitor" = _
  rw [FlagRule.afresh, show rule.targets firstVisit "visitor" = .ok true from targets_everyone rfl]
  show rule.byBucket banner "visitor" = _
  rw [FlagRule.byBucket, show Bucket.of? "visitor" rule.segment rule.allocation.bucketCount = some 0
    from Bucket.of?_one "visitor" "everyone"]
  rfl

theorem decidedBy_rule : banner.DecidedBy firstVisit [] rule [] (shown "all")
    (some (rule.stickyUpdate "visitor" "on" "seen")) where
  active := rfl
  rules := rfl
  enabled := rfl
  reached := by
    refine ⟨.start, rfl, ?_⟩
    show RuleWalk.start.follow banner (rule.decide firstVisit banner "visitor" _) = _
    rw [decide_rule]
    rfl
  matched := rfl

/-- A unit that saw the banner goes on seeing it when the rollout is taken back. -/
theorem shown_when_taken_back : ∃ record id,
    (MemoryStore.store.saveUpdates [rule.stickyUpdate "visitor" "on" "seen"] .empty).get?
      "visitor" "seen" = some record ∧
    resolveFlag (firstVisit.later snapshot "visitor" "seen" record)
      (banner.reallocate [] rule [] (allocation "nobody" "off")) =
        .ok (.resolved (shown id) none) := by
  obtain ⟨record, id, hsaved, -, hresolve⟩ := sticky_decision_survives_reallocation
    decidedBy_rule rfl rfl rfl rfl (List.forall_mem_nil _) (t := .empty)
    (fun record hrecord => by cases hrecord; rfl) (Snapshot.SameSegments.refl snapshot) _
  exact ⟨record, id, hsaved, hresolve⟩

end Rollout

end FeatureFlags
