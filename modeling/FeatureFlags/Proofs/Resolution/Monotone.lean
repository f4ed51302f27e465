import FeatureFlags.Proofs.Materialization.Order
import FeatureFlags.Proofs.Resolution.Walk

/-!
# More records at hand

With more records at hand a decision stays as it is (`RuleWalk.run_resolved_mono`,
`decided_flag_stays_decided`), and a report only becomes shorter
(`RuleWalk.run_missing_mono`). The second holds for every order of the rules and every
content of the records, because a rule that is reached later than before asks for a
record that was reported before.

A walk that neither decides nor reports is one that gave up: it collected a record and
ended at a unit that is too long. That is the one case in which more records at hand can
change an outcome that is not a report (`RuleWalk.run_withRecords_or_givesUp`).
-/

namespace FeatureFlags

/-! ## Inputs with other records -/

namespace ResolveInput

/-- The same with other records at hand. -/
def withRecords (input : ResolveInput) (m : Materializations) : ResolveInput :=
  { input with materializations := m }

@[simp] theorem config_withRecords (input : ResolveInput) (m : Materializations) :
    (input.withRecords m).config = input.config := rfl

@[simp] theorem context_withRecords (input : ResolveInput) (m : Materializations) :
    (input.withRecords m).context = input.context := rfl

@[simp] theorem materializations_withRecords (input : ResolveInput) (m : Materializations) :
    (input.withRecords m).materializations = m := rfl

end ResolveInput

namespace FlagRule

variable {input : ResolveInput} {r : FlagRule} {more : Materializations}

/-- What the rule finds when it looks for its record of a unit. -/
def found (r : FlagRule) (unit materialization : String) : Option UnitRecord → Lookup
  | some record => .ready unit (some (materialization, record))
  | none => .absent { unit, rule := r.name, materialization }

/-- **A rule asks for one record at most.** -/
inductive Asks (input : ResolveInput) (r : FlagRule) : Prop where
  /-- It comes to the same whatever is at hand. Then it lacks nothing, and once it can decide, it
  reads nothing. -/
  | nothing (l : Lookup) (hl : ∀ item, l ≠ .absent item)
    (hready : ∀ unit sticky, l = .ready unit sticky → r.readMaterialization? = none)
    (now : r.lookUp input = l) (any : ∀ m, r.lookUp (input.withRecords m) = l)
  /-- There is one record that it looks for, whatever else is at hand. -/
  | record (unit name : String) (hunit : input.context.get r.targetingKey = .string unit)
    (hread : r.readMaterialization? = some name)
    (now : r.lookUp input = r.found unit name (input.materializations.get? unit name))
    (any : ∀ m, r.lookUp (input.withRecords m) = r.found unit name (m.get? unit name))

theorem asks (input : ResolveInput) (r : FlagRule) : r.Asks input := by
  cases hunit : input.context.get r.targetingKey with
  | null =>
    have any : ∀ m, r.lookUp (input.withRecords m) = .noUnit := fun m => by simp [lookUp, hunit]
    exact .nothing .noUnit (by simp) (by simp) (any input.materializations) any
  | string unit =>
    by_cases hlong : input.config.maxUnitLength < unit.length
    · have any : ∀ m, r.lookUp (input.withRecords m) = .tooLong unit.length := fun m => by
        simp [lookUp, hunit, hlong]
      exact .nothing (.tooLong unit.length) (by simp) (by simp) (any input.materializations) any
    · cases hread : r.readMaterialization? with
      | none =>
        have any : ∀ m, r.lookUp (input.withRecords m) = .ready unit none := fun m => by
          simp [lookUp, hunit, hlong, hread]
        exact .nothing (.ready unit none) (by simp) (fun _ _ _ => hread)
          (any input.materializations) any
      | some name =>
        have any : ∀ m, r.lookUp (input.withRecords m) = r.found unit name (m.get? unit name) :=
          fun m => by cases hm : m.get? unit name <;> simp [lookUp, found, hunit, hlong, hread, hm]
        exact .record unit name hunit hread (any input.materializations) any
  | _ =>
    have any : ∀ m, r.lookUp (input.withRecords m) = .notText := fun m => by simp [lookUp, hunit]
    exact .nothing .notText (by simp) (by simp) (any input.materializations) any

/-- A record that is not at hand is the one that the rule reads for its unit. -/
theorem lookUp_eq_absent {item : MissingRecord} (h : r.lookUp input = .absent item) :
    r.name = item.rule ∧ input.context.get r.targetingKey = .string item.unit ∧
      r.readMaterialization? = some item.materialization ∧
      input.materializations.get? item.unit item.materialization = none := by
  cases r.asks input with
  | nothing l hl _ now _ => exact absurd (now.symm.trans h) (hl item)
  | record unit name hunit hread now _ =>
    rw [now] at h
    cases hm : input.materializations.get? unit name with
    | some record => rw [hm] at h; cases h
    | none =>
      rw [hm] at h
      cases h
      exact ⟨rfl, hunit, hread, hm⟩

/-- Whether a unit is too long has nothing to do with records. -/
@[simp] theorem tooLong?_withRecords : r.tooLong? (input.withRecords more) = r.tooLong? input := by
  unfold tooLong?
  cases r.asks input with
  | nothing l _ _ now any => rw [any, now]
  | record unit name _ _ now any =>
    rw [any, now]
    cases more.get? unit name <;> cases input.materializations.get? unit name <;> rfl

/-- A rule that has its record at hand finds the same one when there are more. -/
theorem lookUp_withRecords (hle : input.materializations ≤ more)
    (h : r.absent? input = none) : r.lookUp (input.withRecords more) = r.lookUp input := by
  cases r.asks input with
  | nothing l _ _ now any => rw [any, now]
  | record unit name _ _ now any =>
    cases hm : input.materializations.get? unit name with
    | some record => rw [any, now, hm, hle unit name record hm]
    | none =>
      rw [absent?, now, hm] at h
      cases h

/-- What is not at hand among more records is not at hand among less. -/
theorem absent?_of_withRecords (hle : input.materializations ≤ more) {item : MissingRecord}
    (h : r.absent? (input.withRecords more) = some item) : r.absent? input = some item := by
  have hnew := absent?_eq_some_iff.mp h
  refine absent?_eq_some_iff.mpr ?_
  cases r.asks input with
  | nothing l hl _ _ any => exact absurd ((any more).symm.trans hnew) (hl item)
  | record unit name _ _ now any =>
    rw [any] at hnew
    cases hm : more.get? unit name with
    | some record => rw [hm] at hnew; cases hnew
    | none => rw [now, Materializations.get?_eq_none_of_le hle hm, ← hm, hnew]

/-- Records are looked for before a rule decides, and not again. -/
theorem decide_withRecords (input : ResolveInput) (m : Materializations) (f : Flag) (r : FlagRule) :
    r.decide (input.withRecords m) f = r.decide input f := rfl

end FlagRule

namespace RuleWalk

variable {input : ResolveInput} {f : Flag} {more : Materializations}

/-- A step at a rule that has its record at hand is the same with more records. -/
theorem step_withRecords (hle : input.materializations ≤ more) {r : FlagRule}
    (h : r.absent? input = none) (w : RuleWalk) :
    w.step (input.withRecords more) f r = w.step input f r := by
  unfold step
  rw [FlagRule.lookUp_withRecords hle h, FlagRule.decide_withRecords]
  rfl

theorem through_withRecords (hle : input.materializations ≤ more) {rules : List FlagRule}
    (h : ∀ r ∈ rules, r.absent? input = none) (w : RuleWalk) :
    through (input.withRecords more) f w rules = through input f w rules :=
  through_congr (fun r hr w => step_withRecords hle (h r hr) w) w

/-- A walk that goes on with more records goes on with less: at the latest the first record that
is not at hand keeps it from ending. -/
theorem through_goesOn_of_withRecords (hle : input.materializations ≤ more) {w w' : RuleWalk}
    {rules : List FlagRule} (h : through (input.withRecords more) f w rules = .goesOn w') :
    ∃ w'', through input f w rules = .goesOn w'' := by
  have hlong : ∀ r ∈ rules, r.tooLong? input = none := fun r hr => by
    have hr := (through_eq_goesOn h).1 r hr
    rwa [FlagRule.tooLong?_withRecords] at hr
  induction rules generalizing w with
  | nil => exact ⟨w, rfl⟩
  | cons r rest ih =>
    obtain ⟨hr, hrest⟩ := List.forall_mem_cons.mp hlong
    cases habsent : r.absent? input with
    | none =>
      -- both walks take the same step
      rw [through_cons] at h ⊢
      rw [step_withRecords hle habsent] at h
      cases hs : w.step input f r with
      | ends result => rw [hs] at h; cases h
      | goesOn w₁ =>
        rw [hs] at h
        exact ih h hrest
    | some item =>
      -- from here on the walk only collects
      have hs : w.step input f r = .goesOn { w with missing := w.missing ++ [item] } := by
        rw [step, FlagRule.absent?_eq_some_iff.mp habsent]
      rw [through_cons, hs]
      exact through_of_missing (by simp) hrest

/-- **Reports shrink**: what is reported with more records at hand is reported with less. -/
theorem run_missing_mono (hle : input.materializations ≤ more) {w : RuleWalk}
    {rules : List FlagRule} {items : List MissingRecord}
    (h : run (input.withRecords more) f w rules = .ok (.missing items)) :
    ∃ items', run input f w rules = .ok (.missing items') ∧ items ⊆ items' := by
  -- the walk comes to the last rule either way, and there what the rules lack has become less
  obtain ⟨⟨w', hw'⟩, hitems, hne⟩ := run_eq_missing_iff.mp h
  have hsub : items ⊆ w.missing ++ rules.filterMap (·.absent? input) := by
    rw [hitems]
    refine List.append_subset.mpr ⟨List.subset_append_left _ _, fun item hitem => ?_⟩
    obtain ⟨r, hr, habsent⟩ := List.mem_filterMap.mp hitem
    exact List.mem_append_right _
      (List.mem_filterMap.mpr ⟨r, hr, FlagRule.absent?_of_withRecords hle habsent⟩)
  refine ⟨_, run_eq_missing_iff.mpr ⟨through_goesOn_of_withRecords hle hw', rfl, ?_⟩, hsub⟩
  exact fun hnil => hne (List.subset_nil.mp (hnil ▸ hsub))

/-- The walk gives up: although a record is missing, it ends, at a unit that is too long. -/
def GivesUp (input : ResolveInput) (f : Flag) (w : RuleWalk) (rules : List FlagRule) : Prop :=
  ∃ before r after w' length, rules = before ++ r :: after ∧
    through input f w before = .goesOn w' ∧ w'.missing ≠ [] ∧
    r.tooLong? input = some length

theorem step_of_tooLong {r : FlagRule} {length : Nat} (h : r.tooLong? input = some length)
    (w : RuleWalk) :
    w.step input f r = .ends (.error (.unitTooLong length input.config.maxUnitLength)) := by
  rw [step, FlagRule.tooLong?_eq_some_iff.mp h]

/-- A walk that gives up fails. -/
theorem GivesUp.run_eq {w : RuleWalk} {rules : List FlagRule} (h : GivesUp input f w rules) :
    ∃ length, run input f w rules =
      .error (.unitTooLong length input.config.maxUnitLength) := by
  obtain ⟨before, r, after, w', length, rfl, hbefore, -, hlong⟩ := h
  refine ⟨length, ?_⟩
  rw [run_append, hbefore, RuleStep.result_goesOn, run_cons, step_of_tooLong hlong,
    RuleStep.result_ends]

theorem absent?_of_missing_eq_nil {w w' : RuleWalk} {rules : List FlagRule}
    (h : through input f w rules = .goesOn w') (hw' : w'.missing = []) :
    ∀ r ∈ rules, r.absent? input = none := by
  rw [(through_eq_goesOn h).2] at hw'
  exact List.filterMap_eq_nil_iff.mp (List.append_eq_nil_iff.mp hw').2

/-- The rule at which a walk ends has its record at hand. -/
theorem EndsAt.absent? {w : RuleWalk} {r : FlagRule} {result : Except ResolveError FlagOutcome}
    (h : EndsAt input f w r result) : r.absent? input = none := by
  cases h with
  | tooLong h => rw [FlagRule.absent?, FlagRule.tooLong?_eq_some_iff.mp h]
  | notText _ hl => rw [FlagRule.absent?, hl]
  | decided _ hl _ => rw [FlagRule.absent?, hl]
  | failed _ hl _ => rw [FlagRule.absent?, hl]

/-- A walk that reports nothing comes to the same with more records at hand, unless it gives up. -/
theorem run_withRecords_or_givesUp (hle : input.materializations ≤ more) {w : RuleWalk}
    {rules : List FlagRule} (h : ∀ items, run input f w rules ≠ .ok (.missing items)) :
    run (input.withRecords more) f w rules = run input f w rules ∨
      GivesUp input f w rules := by
  rw [run_eq_through] at h
  cases ht : through input f w rules with
  | goesOn w' =>
    have hw' : w'.missing = [] := by
      rw [ht] at h
      refine Decidable.byContradiction fun hne => h w'.missing ?_
      rw [RuleStep.result_goesOn, finish_eq_missing_iff.mpr ⟨rfl, hne⟩]
    left
    rw [run_eq_through, run_eq_through,
      through_withRecords hle (absent?_of_missing_eq_nil ht hw')]
  | ends result =>
    obtain ⟨before, r, after, w', rfl, hbefore, hstep⟩ := through_eq_ends ht
    have hends := step_eq_ends hstep
    by_cases hw' : w'.missing = []
    · -- all rules so far have their record at hand, so the steps are the same
      left
      rw [run_append, run_append,
        through_withRecords hle (absent?_of_missing_eq_nil hbefore hw'), hbefore,
        RuleStep.result_goesOn, RuleStep.result_goesOn, run_cons, run_cons,
        step_withRecords hle hends.absent?, hstep, RuleStep.result_ends, RuleStep.result_ends]
    · -- the walk collects, and only a unit that is too long ends it
      right
      cases hends with
      | tooLong hlong => exact ⟨before, r, after, w', _, rfl, hbefore, hw', hlong⟩
      | notText hmissing _ => exact absurd hmissing hw'
      | decided hmissing _ _ => exact absurd hmissing hw'
      | failed hmissing _ _ => exact absurd hmissing hw'

/-- **Decisions stay**: what is decided with less records at hand is decided the same with more. -/
theorem run_resolved_mono (hle : input.materializations ≤ more) {w : RuleWalk}
    {rules : List FlagRule} {value : ResolvedValue} {update : Option StickyUpdate}
    (h : run input f w rules = .ok (.resolved value update)) :
    run (input.withRecords more) f w rules = .ok (.resolved value update) := by
  have hnone : ∀ items, run input f w rules ≠ .ok (.missing items) := fun items hm => by
    rw [h] at hm
    cases hm
  rcases run_withRecords_or_givesUp hle hnone with hsame | hgivesUp
  · rw [hsame, h]
  · obtain ⟨length, herror⟩ := hgivesUp.run_eq
    rw [h] at herror
    cases herror

end RuleWalk

/-! ## Flags -/

/-- What a flag reports with more records at hand it reports with less. -/
theorem resolveFlag_missing_mono {input : ResolveInput} {f : Flag} {more : Materializations}
    (hle : input.materializations ≤ more) {items : List MissingRecord}
    (h : resolveFlag (input.withRecords more) f = .ok (.missing items)) :
    ∃ items', resolveFlag input f = .ok (.missing items') ∧ items ⊆ items' := by
  have hs : f.state = .active := (resolveFlag_eq_missing_iff.mp h).1
  rw [resolveFlag_active hs] at h ⊢
  exact RuleWalk.run_missing_mono hle h

/-- **A decided flag stays decided.** With more records at hand it has the same value, and the same
is to be remembered, whatever the new records say. -/
theorem decided_flag_stays_decided {input : ResolveInput} {f : Flag} {more : Materializations}
    (hle : input.materializations ≤ more) {value : ResolvedValue} {update : Option StickyUpdate}
    (h : resolveFlag input f = .ok (.resolved value update)) :
    resolveFlag (input.withRecords more) f = .ok (.resolved value update) := by
  cases hs : f.state with
  | archived =>
    rw [resolveFlag_archived hs] at h ⊢
    exact h
  | active =>
    rw [resolveFlag_active hs] at h ⊢
    exact RuleWalk.run_resolved_mono hle h

namespace Rollout

/-- A rule that carries decisions over from one materialization into another. -/
def carrying : FlagRule :=
  { rule with
    stickiness := some {
      read := some "seen", write := some "shown"
      mode := { mustMatch := false, ignoresTargeting := true } } }

/-- A rule that goes by what was carried over. -/
def carried : FlagRule :=
  { rule with
    stickiness := some { read := some "shown", write := some "shown", mode := .default } }

def carriedBanner : Flag := { banner with rules := [carrying, carried] }

/-- The visitor saw the banner earlier, and nothing else is at hand. -/
def earlierVisit : Materializations :=
  Materializations.empty.insert "visitor" "seen" (.assigned "rollout" "on")

/-- The first rule decides without the record that the second one reads. When that record comes to
hand, it says that the banner was off, and yet nothing changes. -/
theorem carried_over_with_more :
    ∃ value, resolveFlag (visit earlierVisit) carriedBanner =
        .ok (.resolved value (some (carrying.stickyUpdate "visitor" "on" "shown"))) ∧
      resolveFlag ((visit earlierVisit).withRecords
          (earlierVisit.insert "visitor" "shown" (.assigned "rollout" "off"))) carriedBanner =
        .ok (.resolved value (some (carrying.stickyUpdate "visitor" "on" "shown"))) :=
  ⟨_, rfl, decided_flag_stays_decided (Materializations.le_insert rfl _) rfl⟩

end Rollout

end FeatureFlags
