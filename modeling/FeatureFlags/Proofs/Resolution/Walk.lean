import FeatureFlags.Resolution.FlagOutcome

/-!
# The walk through the rules of a flag

- `RuleWalk.step`: what the walk makes of one rule; `RuleWalk.through`: of several.
  Going through the rules (`RuleWalk.run`) is taking the steps in turn (`run_append`).
- `RuleWalk.EndsAt`: the four reasons for which a step ends the walk.
- `Flag.ResolvesBy`: the three ways in which a flag comes to its result.
- `FlagRule.LooksUp`: what a rule can find in the context and the records at hand, and
  `FlagRule.DecidesBy`: the four ways in which it comes to its verdict on a unit.
- `RuleWalk.through_of_missing`: once a record is missing, the walk only collects, and
  only a unit that is too long ends it. So a report has every record that is not at hand
  for any of the rules (`RuleWalk.run_eq_missing_iff`, `resolveFlag_eq_missing_iff`).
-/

namespace FeatureFlags

/-! ## Steps -/

/-- What the walk makes of rules: it goes on behind them, or it ends. -/
inductive RuleStep where
  /-- The walk goes on. -/
  | goesOn (w : RuleWalk)
  /-- The walk ends. -/
  | ends (result : Except ResolveError FlagOutcome)

namespace RuleStep

/-- The result of the walk, where `next` is the rest of it. -/
def result (next : RuleWalk → Except ResolveError FlagOutcome) :
    RuleStep → Except ResolveError FlagOutcome
  | goesOn w => next w
  | ends result => result

@[simp] theorem result_goesOn (next : RuleWalk → Except ResolveError FlagOutcome) (w : RuleWalk) :
    (goesOn w).result next = next w := rfl

@[simp] theorem result_ends (next : RuleWalk → Except ResolveError FlagOutcome)
    (result : Except ResolveError FlagOutcome) : (ends result).result next = result := rfl

end RuleStep

namespace RuleWalk

/-- What the walk makes of the verdict of a rule. -/
def follow (f : Flag) (w : RuleWalk) : Verdict → RuleStep
  | .skipped => .goesOn w
  | .untreated => .goesOn { w with untreated := true }
  | .fallthrough entry => .goesOn { w with fallthroughs := w.fallthroughs ++ [entry] }
  | .decided assignment update => .ends (.ok (w.outcome f .matched (some assignment) update))
  | .failed cause => .ends (.error cause)

/-- What the walk makes of a rule. -/
def step (input : ResolveInput) (f : Flag) (w : RuleWalk) (r : FlagRule) : RuleStep :=
  match r.lookUp input with
  | .noUnit => .goesOn w
  | .notText =>
    if w.missing.isEmpty then .ends (.ok (w.outcome f .targetingKeyError none none))
    else .goesOn w
  | .tooLong length => .ends (.error (.unitTooLong length input.config.maxUnitLength))
  | .absent item => .goesOn { w with missing := w.missing ++ [item] }
  | .ready unit sticky =>
    if w.missing.isEmpty then w.follow f (r.decide input f unit sticky) else .goesOn w

/-- What the walk makes of several rules, one behind the other. -/
def through (input : ResolveInput) (f : Flag) (w : RuleWalk) : List FlagRule → RuleStep
  | [] => .goesOn w
  | r :: rest =>
    match w.step input f r with
    | .goesOn w => through input f w rest
    | .ends result => .ends result

variable {input : ResolveInput} {f : Flag}

/-- Going through rules is a step at the first and going through the rest. -/
theorem run_cons (w : RuleWalk) (r : FlagRule) (rest : List FlagRule) :
    run input f w (r :: rest) = (w.step input f r).result fun w => run input f w rest := by
  rw [run, step]
  cases r.lookUp input with
  | noUnit => rfl
  | notText => dsimp only; split <;> rfl
  | tooLong length => rfl
  | absent item => rfl
  | ready unit sticky =>
    dsimp only
    split
    · cases r.decide input f unit sticky <;> rfl
    · rfl

theorem through_cons (w : RuleWalk) (r : FlagRule) (rest : List FlagRule) :
    through input f w (r :: rest) =
      match w.step input f r with
      | .goesOn w => through input f w rest
      | .ends result => .ends result := rfl

/-- The walk behind some rules depends on them only through what it made of them. -/
theorem run_append (w : RuleWalk) (before after : List FlagRule) :
    run input f w (before ++ after) =
      (through input f w before).result fun w => run input f w after := by
  induction before generalizing w with
  | nil => rfl
  | cons r rest ih =>
    rw [List.cons_append, run_cons, through_cons]
    cases w.step input f r with
    | goesOn w => exact ih w
    | ends result => rfl

/-- A walk that goes on behind the last rule is finished there. -/
theorem run_eq_through (w : RuleWalk) (rules : List FlagRule) :
    run input f w rules = (through input f w rules).result fun w => .ok (w.finish f) := by
  have h : run input f w (rules ++ []) =
      (through input f w rules).result fun w => run input f w [] := run_append w rules []
  rw [List.append_nil] at h
  exact h

/-- A walk that ends does so at one of the rules, and goes on at all before it. -/
theorem through_eq_ends {w : RuleWalk} {rules : List FlagRule}
    {result : Except ResolveError FlagOutcome} (h : through input f w rules = .ends result) :
    ∃ before r after w', rules = before ++ r :: after ∧
      through input f w before = .goesOn w' ∧ w'.step input f r = .ends result := by
  induction rules generalizing w with
  | nil => cases h
  | cons r rest ih =>
    rw [through_cons] at h
    cases hs : w.step input f r with
    | ends result' =>
      rw [hs] at h
      cases h
      exact ⟨[], r, rest, w, rfl, rfl, hs⟩
    | goesOn w₁ =>
      rw [hs] at h
      obtain ⟨before, r', after, w', hrules, hbefore, hstep⟩ := ih h
      refine ⟨r :: before, r', after, w', ?_, ?_, hstep⟩
      · rw [hrules, List.cons_append]
      · rw [through_cons, hs]
        exact hbefore

end RuleWalk

/-! ## What a step can do -/

namespace FlagRule

/-- The record that the rule has to read and that is not at hand. -/
def absent? (input : ResolveInput) (r : FlagRule) : Option MissingRecord :=
  match r.lookUp input with
  | .absent item => some item
  | _ => none

/-- The length of the unit's name, if it is too long. -/
def tooLong? (input : ResolveInput) (r : FlagRule) : Option Nat :=
  match r.lookUp input with
  | .tooLong length => some length
  | _ => none

variable {input : ResolveInput} {r : FlagRule}

theorem absent?_eq_some_iff {item : MissingRecord} :
    r.absent? input = some item ↔ r.lookUp input = .absent item := by
  unfold absent?
  cases r.lookUp input <;> simp

theorem tooLong?_eq_some_iff {length : Nat} :
    r.tooLong? input = some length ↔ r.lookUp input = .tooLong length := by
  unfold tooLong?
  cases r.lookUp input <;> simp

/-- What the context and the records at hand have for a rule. -/
inductive LooksUp (input : ResolveInput) (r : FlagRule) : Lookup → Prop where
  /-- The context has nothing where the unit should be. -/
  | noUnit (hget : input.context.get r.targetingKey = .null) : LooksUp input r .noUnit
  /-- It has something that is no text. -/
  | notText (hnull : input.context.get r.targetingKey ≠ .null)
    (htext : ∀ unit, input.context.get r.targetingKey ≠ .string unit) : LooksUp input r .notText
  /-- It has a unit that is too long. -/
  | tooLong {unit : String} (hget : input.context.get r.targetingKey = .string unit)
    (hlong : input.config.maxUnitLength < unit.length) : LooksUp input r (.tooLong unit.length)
  /-- The record that the rule reads for the unit is not at hand. -/
  | absent {unit materialization : String}
    (hget : input.context.get r.targetingKey = .string unit)
    (hfits : unit.length ≤ input.config.maxUnitLength)
    (hread : r.readMaterialization? = some materialization)
    (hnone : input.materializations.get? unit materialization = none) :
    LooksUp input r (.absent { unit, rule := r.name, materialization })
  /-- The rule reads no records. -/
  | readsNothing {unit : String} (hget : input.context.get r.targetingKey = .string unit)
    (hfits : unit.length ≤ input.config.maxUnitLength)
    (hread : r.readMaterialization? = none) : LooksUp input r (.ready unit none)
  /-- The record that the rule reads for the unit is at hand. -/
  | reads {unit materialization : String} {record : UnitRecord}
    (hget : input.context.get r.targetingKey = .string unit)
    (hfits : unit.length ≤ input.config.maxUnitLength)
    (hread : r.readMaterialization? = some materialization)
    (hrecord : input.materializations.get? unit materialization = some record) :
    LooksUp input r (.ready unit (some (materialization, record)))

theorem looksUp (input : ResolveInput) (r : FlagRule) : LooksUp input r (r.lookUp input) := by
  unfold lookUp
  split
  · next hget => exact .noUnit hget
  · next unit hget =>
    split
    · next hlong => exact .tooLong hget hlong
    · next hfits =>
      have hfits : unit.length ≤ input.config.maxUnitLength := by omega
      split
      · next hread => exact .readsNothing hget hfits hread
      · next materialization hread =>
        split
        · next record hrecord => exact .reads hget hfits hread hrecord
        · next hnone => exact .absent hget hfits hread hnone
  · next hnull htext => exact .notText hnull htext

/-- How a rule comes to its verdict on a unit. -/
inductive DecidesBy (input : ResolveInput) (f : Flag) (r : FlagRule) (unit : String) :
    Option (String × UnitRecord) → Verdict → Prop where
  /-- There is no variant that the unit could keep. -/
  | afresh {sticky : Option (String × UnitRecord)} :
    DecidesBy input f r unit sticky (r.afresh input f unit)
  /-- The unit keeps the variant that its record has. -/
  | keep {read : String} {record : UnitRecord} {v : Variant} (henrolled : record.enrolled = true)
    (hrecorded : r.recordedVariant? f record = some v)
    (htargeted : r.readMode.ignoresTargeting = true ∨ r.targets input unit = .ok true) :
    DecidesBy input f r unit (some (read, record)) (r.keep unit read v)
  /-- The rule is for units with a record only. -/
  | skipped {read : String} {record : UnitRecord} (hmust : r.readMode.mustMatch = true)
    (henrolled : record.enrolled = false) :
    DecidesBy input f r unit (some (read, record)) .skipped
  /-- Whether the unit is in the segment cannot be told. -/
  | failed {sticky : Option (String × UnitRecord)} {cause : ResolveError}
    (htargets : r.targets input unit = .error cause) :
    DecidesBy input f r unit sticky (.failed cause)

/-- A rule decides afresh, keeps a variant, skips the unit or fails. -/
theorem decidesBy (input : ResolveInput) (f : Flag) (r : FlagRule) (unit : String)
    (sticky : Option (String × UnitRecord)) :
    DecidesBy input f r unit sticky (r.decide input f unit sticky) := by
  unfold decide
  split
  · exact .afresh
  · split
    · next henrolled =>
      split
      · exact .afresh
      · next hrecorded =>
        split
        · next hignores => exact .keep henrolled hrecorded (.inl hignores)
        · split
          · next htargets => exact .failed htargets
          · next htargets => exact .keep henrolled hrecorded (.inr htargets)
          · exact .afresh
    · next henrolled =>
      split
      · next hmust => exact .skipped hmust (Bool.eq_false_iff.mpr henrolled)
      · exact .afresh

end FlagRule

namespace RuleWalk

variable {input : ResolveInput} {f : Flag}

/-- A step that goes on notes the record that is not at hand, if there is one. -/
theorem step_eq_goesOn {w w' : RuleWalk} {r : FlagRule} (h : w.step input f r = .goesOn w') :
    r.tooLong? input = none ∧ w'.missing = w.missing ++ (r.absent? input).toList := by
  unfold step at h
  unfold FlagRule.tooLong? FlagRule.absent?
  cases hl : r.lookUp input with
  | noUnit =>
    rw [hl] at h
    cases h
    simp
  | notText =>
    rw [hl] at h
    dsimp only at h
    split at h <;> cases h
    simp
  | tooLong length =>
    rw [hl] at h
    cases h
  | absent item =>
    rw [hl] at h
    cases h
    simp
  | ready unit sticky =>
    rw [hl] at h
    dsimp only at h
    split at h
    · -- the verdicts that go on change the fallthroughs and the mark only
      cases hv : r.decide input f unit sticky <;> rw [hv] at h <;> cases h <;> simp
    · cases h
      simp

/-- Why a walk ends at a rule. -/
inductive EndsAt (input : ResolveInput) (f : Flag) (w : RuleWalk) (r : FlagRule) :
    Except ResolveError FlagOutcome → Prop where
  /-- The unit is too long, whatever has been found so far. -/
  | tooLong {length : Nat} (h : r.tooLong? input = some length) :
      EndsAt input f w r (.error (.unitTooLong length input.config.maxUnitLength))
  /-- The unit is not a text, and nothing is missing. -/
  | notText (hmissing : w.missing = []) (h : r.lookUp input = .notText) :
      EndsAt input f w r (.ok (w.outcome f .targetingKeyError none none))
  /-- The rule decides, and nothing is missing. -/
  | decided {unit : String} {sticky : Option (String × UnitRecord)} {assignment : AssignmentMatch}
      {update : Option StickyUpdate} (hmissing : w.missing = [])
      (hl : r.lookUp input = .ready unit sticky)
      (hv : r.decide input f unit sticky = .decided assignment update) :
      EndsAt input f w r (.ok (w.outcome f .matched (some assignment) update))
  /-- The rule cannot be evaluated, and nothing is missing. -/
  | failed {unit : String} {sticky : Option (String × UnitRecord)} {cause : ResolveError}
      (hmissing : w.missing = []) (hl : r.lookUp input = .ready unit sticky)
      (hv : r.decide input f unit sticky = .failed cause) :
      EndsAt input f w r (.error cause)

/-- A step that ends does so for one of four reasons. -/
theorem step_eq_ends {w : RuleWalk} {r : FlagRule} {result : Except ResolveError FlagOutcome}
    (h : w.step input f r = .ends result) : EndsAt input f w r result := by
  unfold step at h
  cases hl : r.lookUp input with
  | noUnit =>
    rw [hl] at h
    cases h
  | notText =>
    rw [hl] at h
    dsimp only at h
    split at h
    · next hm =>
      cases h
      exact .notText (List.isEmpty_iff.mp hm) hl
    · cases h
  | tooLong length =>
    rw [hl] at h
    cases h
    exact .tooLong (FlagRule.tooLong?_eq_some_iff.mpr hl)
  | absent item =>
    rw [hl] at h
    cases h
  | ready unit sticky =>
    rw [hl] at h
    dsimp only at h
    split at h
    · next hm =>
      cases hv : r.decide input f unit sticky with
      | skipped => rw [hv] at h; cases h
      | untreated => rw [hv] at h; cases h
      | «fallthrough» entry => rw [hv] at h; cases h
      | decided assignment update =>
        rw [hv] at h
        cases h
        exact .decided (List.isEmpty_iff.mp hm) hl hv
      | failed cause =>
        rw [hv] at h
        cases h
        exact .failed (List.isEmpty_iff.mp hm) hl hv
    · cases h

/-! ## Reports -/

/-- A walk that goes on has met no unit that is too long, and has noted every record that is not
at hand. -/
theorem through_eq_goesOn {w w' : RuleWalk} {rules : List FlagRule}
    (h : through input f w rules = .goesOn w') :
    (∀ r ∈ rules, r.tooLong? input = none) ∧
      w'.missing = w.missing ++ rules.filterMap (·.absent? input) := by
  induction rules generalizing w with
  | nil =>
    cases h
    simp
  | cons r rest ih =>
    rw [through_cons] at h
    cases hs : w.step input f r with
    | ends result =>
      rw [hs] at h
      cases h
    | goesOn w₁ =>
      rw [hs] at h
      obtain ⟨hlong, hmissing⟩ := step_eq_goesOn hs
      obtain ⟨hrest, hw'⟩ := ih h
      refine ⟨List.forall_mem_cons.mpr ⟨hlong, hrest⟩, ?_⟩
      rw [hw', hmissing, List.append_assoc, List.filterMap_cons]
      cases r.absent? input <;> rfl

/-- Once a record is missing, only a unit that is too long ends the walk. -/
theorem through_of_missing {w : RuleWalk} (hw : w.missing ≠ []) {rules : List FlagRule}
    (hlong : ∀ r ∈ rules, r.tooLong? input = none) :
    ∃ w', through input f w rules = .goesOn w' := by
  induction rules generalizing w with
  | nil => exact ⟨w, rfl⟩
  | cons r rest ih =>
    obtain ⟨hr, hrest⟩ := List.forall_mem_cons.mp hlong
    rw [through_cons]
    cases hs : w.step input f r with
    | goesOn w₁ =>
      -- the list of missing records only grows
      have hw₁ : w₁.missing ≠ [] := by
        rw [(step_eq_goesOn hs).2]
        exact List.append_ne_nil_of_left_ne_nil hw _
      exact ih hw₁ hrest
    | ends result =>
      cases step_eq_ends hs with
      | tooLong h => rw [hr] at h; cases h
      | notText hmissing _ => exact absurd hmissing hw
      | decided hmissing _ _ => exact absurd hmissing hw
      | failed hmissing _ _ => exact absurd hmissing hw

/-- A walk does not end with a report before the last rule. -/
theorem EndsAt.ne_missing {w : RuleWalk} {r : FlagRule} {result : Except ResolveError FlagOutcome}
    (h : EndsAt input f w r result) (items : List MissingRecord) :
    result ≠ .ok (.missing items) := by
  cases h <;> simp [outcome]

theorem finish_eq_missing_iff {w : RuleWalk} {items : List MissingRecord} :
    w.finish f = .missing items ↔ items = w.missing ∧ items ≠ [] := by
  unfold finish
  cases hm : w.missing with
  | nil =>
    simp only [List.isEmpty_nil, ↓reduceIte, outcome]
    constructor
    · intro h
      cases h
    · rintro ⟨rfl, hne⟩
      exact absurd rfl hne
  | cons item rest =>
    simp only [List.isEmpty_cons, Bool.false_eq_true, ↓reduceIte, FlagOutcome.missing.injEq]
    constructor
    · rintro rfl
      exact ⟨rfl, List.cons_ne_nil _ _⟩
    · rintro ⟨rfl, -⟩
      rfl

/-- **Reports are complete**: the walk reports exactly the records that are not at hand for any of
the rules, provided there are any and the walk goes on to the last rule. -/
theorem run_eq_missing_iff {w : RuleWalk} {rules : List FlagRule} {items : List MissingRecord} :
    run input f w rules = .ok (.missing items) ↔
      (∃ w', through input f w rules = .goesOn w') ∧
        items = w.missing ++ rules.filterMap (·.absent? input) ∧ items ≠ [] := by
  rw [run_eq_through]
  cases ht : through input f w rules with
  | goesOn w' =>
    rw [RuleStep.result_goesOn, ← (through_eq_goesOn ht).2, Except.ok.injEq, finish_eq_missing_iff]
    simp
  | ends result =>
    obtain ⟨_, r, _, w', _, _, hstep⟩ := through_eq_ends ht
    simp [(step_eq_ends hstep).ne_missing]

/-- Two walks that take the same step at every rule are one. -/
theorem through_congr {input' : ResolveInput} {f' : Flag} {rules : List FlagRule}
    (h : ∀ r ∈ rules, ∀ w : RuleWalk, w.step input' f' r = w.step input f r) (w : RuleWalk) :
    through input' f' w rules = through input f w rules := by
  induction rules generalizing w with
  | nil => rfl
  | cons r rest ih =>
    obtain ⟨hr, hrest⟩ := List.forall_mem_cons.mp h
    rw [through_cons, through_cons, hr w]
    cases w.step input f r with
    | goesOn w => exact ih hrest w
    | ends result => rfl

end RuleWalk

/-! ## Flags -/

/-- The rules that are tried, in order. -/
def Flag.enabledRules (f : Flag) : List FlagRule := f.rules.filter (·.enabled)

section Flags

variable {input : ResolveInput} {f : Flag}

/-- An archived flag is resolved alike by all inputs. -/
theorem resolveFlag_archived (h : f.state = .archived) :
    resolveFlag input f = .ok (.resolved (.ofReason f.name .flagArchived) none) := by
  rw [resolveFlag, h]

/-- An active flag is resolved by the walk through its enabled rules. -/
theorem resolveFlag_active (h : f.state = .active) :
    resolveFlag input f = RuleWalk.start.run input f f.enabledRules := by
  rw [resolveFlag, h]
  rfl

/-- How a flag comes to its result. -/
inductive Flag.ResolvesBy (input : ResolveInput) (f : Flag) :
    Except ResolveError FlagOutcome → Prop where
  /-- It is archived. -/
  | archived (hstate : f.state = .archived) :
      ResolvesBy input f (.ok (.resolved (.ofReason f.name .flagArchived) none))
  /-- The walk ends at a rule. -/
  | rule {before after : List FlagRule} {r : FlagRule} {w : RuleWalk}
      {result : Except ResolveError FlagOutcome} (hstate : f.state = .active)
      (hrules : f.enabledRules = before ++ r :: after)
      (hbefore : RuleWalk.start.through input f before = .goesOn w)
      (hstep : w.step input f r = .ends result) : ResolvesBy input f result
  /-- The walk comes to the last rule and is finished behind it. -/
  | finish {w : RuleWalk} (hstate : f.state = .active)
      (hall : RuleWalk.start.through input f f.enabledRules = .goesOn w) :
      ResolvesBy input f (.ok (w.finish f))

theorem resolvesBy (input : ResolveInput) (f : Flag) : f.ResolvesBy input (resolveFlag input f) := by
  cases hstate : f.state with
  | archived =>
    rw [resolveFlag_archived hstate]
    exact .archived hstate
  | active =>
    rw [resolveFlag_active hstate, RuleWalk.run_eq_through]
    cases hall : RuleWalk.start.through input f f.enabledRules with
    | goesOn w => exact .finish hstate hall
    | ends result =>
      obtain ⟨before, r, after, w, hrules, hbefore, hstep⟩ := RuleWalk.through_eq_ends hall
      exact .rule hstate hrules hbefore hstep

/-- A flag lacks records if it is active, its rules look for records that are not at hand, and the
walk goes on to the last of them. -/
theorem resolveFlag_eq_missing_iff {items : List MissingRecord} :
    resolveFlag input f = .ok (.missing items) ↔
      f.state = .active ∧ (∃ w, RuleWalk.start.through input f f.enabledRules = .goesOn w) ∧
        items = f.enabledRules.filterMap (·.absent? input) ∧ items ≠ [] := by
  cases hs : f.state with
  | archived =>
    rw [resolveFlag_archived hs]
    constructor
    · intro h
      cases h
    · rintro ⟨h, -⟩
      cases h
  | active =>
    rw [resolveFlag_active hs, RuleWalk.run_eq_missing_iff]
    exact (and_iff_right rfl).symm

end Flags

/-! ## A rollout -/

namespace Rollout

/-- Every bucket gets one variant. -/
def allocation (id variant : String) : Allocation where
  bucketCount := 1
  assignments := [{ id, kind := .variant variant, ranges := [{ lower := 0, upper := 1 }] }]

/-- All units get the banner, and what they got is remembered. -/
def rule : FlagRule where
  name := "rollout"
  segment := "everyone"
  allocation := allocation "all" "on"
  stickiness := some { read := some "seen", write := some "seen", mode := .default }

def on : Variant := { name := "on", value := [] }

def banner : Flag where
  name := "banner"
  variants := [on, { name := "off", value := [] }]
  rules := [rule]
  clients := ["web"]

def snapshot : Snapshot where
  account := "acme"
  flags := .ofList [("banner", banner)]
  segments := .ofList [("everyone", { name := "everyone" })]
  populations := .ofList [("everyone", .full)]
  expressions := .ofList [("everyone", .always)]
  clients := .ofList [("secret", "web")]
  fingerprint := ""

/-- A visit with the given records at hand. -/
def visit (m : Materializations) : ResolveInput where
  snapshot := snapshot
  config := .default
  context := ⟨[("targeting_key", .string "visitor")], rfl⟩
  materializations := m

/-- All units are in the segment, whatever the flags and the visit. -/
theorem targets_everyone {flags : Dict Flag} {fingerprint : String} {config : Config}
    {context : Context} {materializations : Materializations} {r : FlagRule} {unit : String}
    (h : r.segment = "everyone") :
    r.targets
      { snapshot := { snapshot with flags, fingerprint }, config, context, materializations } unit =
        .ok true := by
  unfold FlagRule.targets
  rw [h]
  show (Snapshot.isMember _ _ "everyone" unit).mapError _ = _
  rw [Snapshot.isMember, Snapshot.isMemberOnPath]
  rfl

example : resolveFlag (visit .empty) banner = .ok (.missing
    [{ unit := "visitor", rule := "rollout", materialization := "seen" }]) := rfl

end Rollout

end FeatureFlags
