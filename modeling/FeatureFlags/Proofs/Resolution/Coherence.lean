import FeatureFlags.Proofs.Resolution.Classes
import FeatureFlags.Proofs.Resolution.Stickiness
import Mathlib.Data.List.Nodup

/-!
# What a resolved flag says hangs together

The value of a flag is put together from the flag, a rule, the context and what is remembered of
the unit, and the client and the token are told parts of it. `ResolvedValue.Coherent` says how the
parts fit: a decision is one of an enabled rule on the unit that the context names for it, its
variant and value are those of the flag, every rule that is said to have fallen through did so, and
what is to be remembered is the decision.

- `FlagRule.Makes`, `FlagRule.LeavesOpen`, `FlagRule.Records`: what a decision, a rule that fell
  through, and a decision to be remembered have to do with a rule.
- `RuleWalk.leavesOpen_of_step`, `RuleWalk.leavesOpen_of_through`: the rules that a walk has noted
  fell through, for a step and for a run.
- `Snapshot.resolved_flag_coherent` puts these together for the flags of a snapshot that was built.
-/

namespace FeatureFlags

/-! ## What results have to do with rules -/

namespace FlagRule

/-- The decision is one of the rule, on the unit that the context names for it. -/
structure Makes (input : ResolveInput) (r : FlagRule) (a : AssignmentMatch) : Prop where
  rule : a.rule = r.name
  segment : a.segment = r.segment
  selector : a.selector = r.targetingKey
  unit : r.HasUnit input a.unit

/-- The bucket of the unit has an assignment of the rule that leaves the decision to later rules. -/
structure LeavesOpen (input : ResolveInput) (r : FlagRule) (entry : Fallthrough) : Prop where
  rule : entry.rule = r.name
  unit : r.HasUnit input entry.unit
  bucket : ∃ bucket assignment,
    Bucket.of? entry.unit r.segment r.allocation.bucketCount = some bucket ∧
      r.allocation.assignmentFor? bucket = some assignment ∧
      assignment.kind = .fallthrough ∧ entry.assignmentId = assignment.id

/-- What is to be remembered is the decision, in the materialization that the rule writes. -/
structure Records (r : FlagRule) (a : AssignmentMatch) (u : StickyUpdate) : Prop where
  unit : u.unit = a.unit
  rule : u.rule = a.rule
  variant : a.variant = some u.variant
  materialization : r.writeMaterialization? = some u.materialization

end FlagRule

/-- The variant of the decision is one of the flag, and its value is what the schema makes of the
value that was delivered. A decision without variant has no value. -/
def AssignmentMatch.GivesVariant (delivered f : Flag) (a : AssignmentMatch) : Prop :=
  match a.variant with
  | none => a.value = none
  | some name => ∃ v given, f.variant? name = some v ∧ delivered.variant? name = some given ∧
      delivered.schema.expand given.value = .ok v.value ∧ a.value = some v.value

/-- What a resolved flag says, and what of it is to be remembered. -/
structure ResolvedValue.Coherent (input : ResolveInput) (delivered f : Flag) (value : ResolvedValue)
    (update : Option StickyUpdate) : Prop where
  flag : value.flag = f.name
  /-- The reason is a match exactly if there is a decision. -/
  reason : value.reason = .matched ↔ value.assignment.isSome = true
  /-- A decision is one of an enabled rule, and this is what there is to remember. -/
  decision : ∀ a, value.assignment = some a → ∃ r ∈ f.enabledRules,
    r.Makes input a ∧ a.GivesVariant delivered f ∧ ∀ u, update = some u → r.Records a u
  /-- Without a decision there is nothing to remember. -/
  undecided : value.assignment = none → update = none
  /-- The rules that are noted fell through. -/
  fallthroughs : ∀ entry ∈ value.fallthroughs, ∃ r ∈ f.enabledRules, r.LeavesOpen input entry
  /-- The client is told whether there is something to report. -/
  told : (ResolvedFlag.ofValue value).shouldApply = value.shouldApply
  /-- And so is the token. -/
  assigned : (AssignedFlag.ofValue value).shouldApply = value.shouldApply

theorem AssignedFlag.shouldApply_ofValue (value : ResolvedValue) :
    (ofValue value).shouldApply = value.shouldApply := by
  rw [shouldApply, ofValue, ResolvedValue.shouldApply, Option.isSome_map]

/-! ## Rules that fall through -/

namespace FlagRule

variable {input : ResolveInput} {f : Flag} {r : FlagRule} {unit : String}
  {sticky : Option (String × UnitRecord)}

theorem hasUnit_of_lookUp (h : r.lookUp input = .ready unit sticky) : r.HasUnit input unit := by
  have hlooksUp := r.looksUp input
  rw [h] at hlooksUp
  cases hlooksUp with
  | readsNothing hget hfits _ => exact ⟨hget, hfits⟩
  | reads hget hfits _ _ => exact ⟨hget, hfits⟩

/-- A sound rule falls through only where the bucket of the unit says so. -/
theorem Sound.leavesOpen (hsound : r.Sound f) (hunit : r.HasUnit input unit) {entry : Fallthrough}
    (h : r.decide input f unit sticky = .fallthrough entry) : r.LeavesOpen input entry := by
  have hdecides := r.decidesBy input f unit sticky
  rw [h] at hdecides
  generalize hverdict : Verdict.fallthrough entry = verdict at hdecides
  cases hdecides with
  | afresh =>
    rw [afresh] at hverdict
    split at hverdict
    · cases hverdict
    · cases hverdict
    · have hbucket := hsound.bucketDecides unit
      rw [← hverdict] at hbucket
      cases hbucket with
      | «fallthrough» hbucket hassigned hkind =>
        exact ⟨rfl, hunit, _, _, hbucket, hassigned, hkind, rfl⟩
  | keep => cases hverdict
  | skipped => cases hverdict
  | failed => cases hverdict

end FlagRule

namespace RuleWalk

variable {input : ResolveInput} {f : Flag} {w w' : RuleWalk}

/-- A step notes the rule if it falls through, and no other. -/
theorem leavesOpen_of_step {r : FlagRule} (hsound : r.Sound f)
    (h : w.step input f r = .goesOn w') :
    ∀ entry ∈ w'.fallthroughs, entry ∈ w.fallthroughs ∨ r.LeavesOpen input entry := by
  intro entry hentry
  unfold step at h
  cases hl : r.lookUp input with
  | noUnit =>
    rw [hl] at h
    cases h
    exact .inl hentry
  | notText =>
    rw [hl] at h
    dsimp only at h
    split at h <;> cases h
    exact .inl hentry
  | tooLong length =>
    rw [hl] at h
    cases h
  | absent item =>
    rw [hl] at h
    cases h
    exact .inl hentry
  | ready unit sticky =>
    rw [hl] at h
    dsimp only at h
    split at h
    · cases hv : r.decide input f unit sticky with
      | skipped => rw [hv] at h; cases h; exact .inl hentry
      | untreated => rw [hv] at h; cases h; exact .inl hentry
      | decided assignment update => rw [hv] at h; cases h
      | failed cause => rw [hv] at h; cases h
      | «fallthrough» noted =>
        rw [hv] at h
        cases h
        rcases List.mem_append.mp hentry with hentry | hentry
        · exact .inl hentry
        · cases List.mem_singleton.mp hentry
          exact .inr (hsound.leavesOpen (FlagRule.hasUnit_of_lookUp hl) hv)
    · cases h
      exact .inl hentry

/-- All rules that a walk has noted fell through. -/
theorem leavesOpen_of_through {rules : List FlagRule} (hsound : ∀ r ∈ rules, r.Sound f)
    (h : through input f w rules = .goesOn w') :
    ∀ entry ∈ w'.fallthroughs,
      entry ∈ w.fallthroughs ∨ ∃ r ∈ rules, r.LeavesOpen input entry := by
  induction rules generalizing w with
  | nil =>
    cases h
    exact fun entry hentry => .inl hentry
  | cons r rest ih =>
    obtain ⟨hr, hrest⟩ := List.forall_mem_cons.mp hsound
    rw [through_cons] at h
    cases hstep : w.step input f r with
    | ends result =>
      rw [hstep] at h
      cases h
    | goesOn w₁ =>
      rw [hstep] at h
      intro entry hentry
      rcases ih hrest h entry hentry with hbefore | ⟨other, hother, hopen⟩
      · rcases leavesOpen_of_step hr hstep entry hbefore with hw | hopen
        · exact .inl hw
        · exact .inr ⟨r, List.mem_cons_self, hopen⟩
      · exact .inr ⟨other, List.mem_cons_of_mem r hother, hopen⟩

end RuleWalk

/-! ## Flags -/

section Flags

variable {input : ResolveInput} {delivered f : Flag} {r : FlagRule}

/-- A decision of a rule is coherent on its own. -/
theorem FlagRule.makes_of_decide (hexpand : Snapshot.expandFlag delivered = .ok f) {unit : String}
    {sticky : Option (String × UnitRecord)} (hunit : r.HasUnit input unit) {a : AssignmentMatch}
    {update : Option StickyUpdate} (h : r.decide input f unit sticky = .decided a update) :
    r.Makes input a ∧ a.GivesVariant delivered f ∧ ∀ u, update = some u → r.Records a u := by
  rcases decision_of_decide h with ⟨id, rfl, rfl⟩ | ⟨v, id, rfl, hdefined, hupdate⟩
  · refine ⟨⟨rfl, rfl, rfl, hunit⟩, rfl, fun u hu => ?_⟩
    cases hu
  · refine ⟨⟨rfl, rfl, rfl, hunit⟩, ?_, fun u hu => ?_⟩
    · obtain ⟨given, hgiven, hvalue⟩ := Snapshot.exists_given_of_variant? hexpand hdefined
      exact ⟨v, given, hdefined, hgiven, hvalue, rfl⟩
    · obtain ⟨m, hwrite, rfl⟩ := hupdate u hu
      exact ⟨rfl, rfl, rfl, hwrite⟩

/-- A value without a decision is coherent if its rules fell through. -/
theorem ResolvedValue.Coherent.of_undecided {reason : ResolveReason} {entries : List Fallthrough}
    (hreason : reason ≠ .matched)
    (hentries : ∀ entry ∈ entries, ∃ r ∈ f.enabledRules, r.LeavesOpen input entry) :
    ResolvedValue.Coherent input delivered f
      { flag := f.name, reason, assignment := none, fallthroughs := entries, error := none }
      none where
  flag := rfl
  reason := iff_of_false hreason Bool.false_ne_true
  decision := fun a ha => by cases ha
  undecided := fun _ => rfl
  fallthroughs := hentries
  told := rfl
  assigned := AssignedFlag.shouldApply_ofValue _

/-- What a flag resolves to is coherent if its rules are sound and its values are filled in. -/
theorem Flag.coherent_of_resolveFlag (hsound : ∀ r ∈ f.rules, r.Sound f)
    (hexpand : Snapshot.expandFlag delivered = .ok f) {value : ResolvedValue}
    {update : Option StickyUpdate} (h : resolveFlag input f = .ok (.resolved value update)) :
    value.Coherent input delivered f update := by
  have henabled : ∀ r ∈ f.enabledRules, r.Sound f := by
    intro r hr
    exact hsound r (List.mem_filter.mp hr).1
  have hresolves := resolvesBy input f
  rw [h] at hresolves
  generalize hresult : Except.ok (FlagOutcome.resolved value update) = result at hresolves
  cases hresolves with
  | archived =>
    cases hresult
    exact .of_undecided (by simp) (List.forall_mem_nil _)
  | @finish w hstate hall =>
    have hentries : ∀ entry ∈ w.fallthroughs, ∃ r ∈ f.enabledRules, r.LeavesOpen input entry := by
      intro entry hentry
      rcases RuleWalk.leavesOpen_of_through henabled hall entry hentry with hstart | hopen
      · cases hstart
      · exact hopen
    rw [Except.ok.injEq, RuleWalk.finish] at hresult
    split at hresult
    · cases hresult
      exact .of_undecided (by split <;> simp) hentries
    · cases hresult
  | @rule before after r w _ hstate hrules hbefore hstep =>
    subst hresult
    have hsplit : ∀ other, other ∈ before ∨ other = r → other ∈ f.enabledRules := by
      rintro other (hother | rfl)
      · rw [hrules]
        exact List.mem_append_left _ hother
      · rw [hrules]
        exact List.mem_append_right _ List.mem_cons_self
    have hentries : ∀ entry ∈ w.fallthroughs, ∃ r ∈ f.enabledRules, r.LeavesOpen input entry := by
      intro entry hentry
      have hsoundBefore : ∀ r ∈ before, r.Sound f := fun r hr => henabled r (hsplit r (.inl hr))
      rcases RuleWalk.leavesOpen_of_through hsoundBefore hbefore entry hentry with
        hstart | ⟨other, hother, hopen⟩
      · cases hstart
      · exact ⟨other, hsplit other (.inl hother), hopen⟩
    cases RuleWalk.step_eq_ends hstep with
    | notText _ _ => exact .of_undecided (by simp) hentries
    | decided _ hlookUp hdecide =>
      have hdecision :=
        FlagRule.makes_of_decide hexpand (FlagRule.hasUnit_of_lookUp hlookUp) hdecide
      exact
        { flag := rfl
          reason := iff_of_true rfl rfl
          decision := fun a ha => by
            cases ha
            exact ⟨r, hsplit r (.inr rfl), hdecision⟩
          undecided := fun hnone => by cases hnone
          fallthroughs := hentries
          told := rfl
          assigned := AssignedFlag.shouldApply_ofValue _ }

/-- **A resolved flag is coherent.** Whatever the flag of a snapshot that was built, the context, the
records at hand and the limits are: what the flag resolves to hangs together, and its values are
those of the one flag that was delivered under its name. -/
theorem Snapshot.resolved_flag_coherent {configuration : SnapshotInput}
    (hbuild : build configuration = .ok input.snapshot) {name : String}
    (hflag : input.snapshot.flags.get? name = some f) {value : ResolvedValue}
    {update : Option StickyUpdate} (h : resolveFlag input f = .ok (.resolved value update)) :
    ∃ delivered, (∀ other, other ∈ configuration.flags ∧ other.name = name ↔ other = delivered) ∧
      value.Coherent input delivered f update := by
  have hbuilt := builtFrom_of_build hbuild
  obtain ⟨delivered, hmem, hname, hexpand⟩ := hbuilt.get?_flags_iff.mp hflag
  have hnodup := (nodup_names_of_gatherFlags hbuilt.flags).2
  refine ⟨delivered, fun other => ⟨?_, ?_⟩, ?_⟩
  · rintro ⟨hother, hsame⟩
    exact List.inj_on_of_nodup_map hnodup hother hmem (hsame.trans hname.symm)
  · rintro rfl
    exact ⟨hmem, hname⟩
  · exact Flag.coherent_of_resolveFlag (fun r hr => (checked_of_build hbuild).sound hflag hr)
      hexpand h

end Flags

/-! ## A promotion -/

namespace Rollout

/-- A flag whose values have a color, which the variant leaves out. -/
def promo : Flag where
  name := "promo"
  schema := ⟨[("color", .string)]⟩
  variants := [on]
  rules := [holdout, carrying]
  clients := ["web"]

def promotion : SnapshotInput := { configuration with flags := [promo] }

/-- The variant with its color filled in. -/
def colored : Variant := { on with value := [("color", .null)] }

def coloredPromo : Flag := { promo with variants := [colored] }

/-- A visitor who saw the promotion earlier. -/
def promotedVisit : ResolveInput :=
  { visit earlierVisit with
    snapshot :=
      { snapshot with
        flags := .ofList [("promo", coloredPromo)]
        fingerprint := promotion.fingerprint } }

theorem build_promotion : Snapshot.build promotion = .ok promotedVisit.snapshot := by
  have hholdout : Snapshot.checkRule promo holdout = .ok () :=
    Snapshot.checkRule_eq_ok_iff.mpr ⟨error?_holdout, by decide⟩
  have hcarrying : Snapshot.checkRule promo carrying = .ok () :=
    Snapshot.checkRule_eq_ok_iff.mpr ⟨error?_whole "all" (.variant "on"), by decide⟩
  have hexpand : Snapshot.expandFlag promo = .ok coloredPromo :=
    Snapshot.expandFlag_eq_ok_iff.mpr
      ⟨List.forall_mem_cons.mpr ⟨hholdout, List.forall_mem_singleton.mpr hcarrying⟩, _, rfl, rfl⟩
  have hflags : Snapshot.gatherFlags .empty promotion.flags =
      .ok promotedVisit.snapshot.flags := Snapshot.gatherFlags_singleton hexpand
  rw [Snapshot.build_eq_map hflags]
  rfl

/-- The promotion goes on being shown, behind a rule that fell through. -/
def promoted : ResolvedValue where
  flag := "promo"
  reason := .matched
  assignment := some (carrying.assignmentMatch "visitor" "all" (some colored))
  fallthroughs := [{ rule := "holdout", assignmentId := "none", unit := "visitor" }]
  error := none

theorem resolveFlag_coloredPromo : resolveFlag promotedVisit coloredPromo =
    .ok (.resolved promoted (some (carrying.stickyUpdate "visitor" "on" "shown"))) := by
  have hholdout := holdout_fallsThrough earlierVisit promotedVisit.snapshot.flags
    promotion.fingerprint coloredPromo
  have hstep : RuleWalk.start.step promotedVisit coloredPromo holdout =
      .goesOn { RuleWalk.start with fallthroughs := promoted.fallthroughs } := hholdout.step_eq rfl
  rw [resolveFlag_active rfl]
  show RuleWalk.start.run promotedVisit coloredPromo [holdout, carrying] = _
  rw [RuleWalk.run_cons, hstep]
  rfl

theorem promo_coherent : Snapshot.build promotion = .ok promotedVisit.snapshot ∧
    promotedVisit.snapshot.flags.get? "promo" = some coloredPromo ∧
    resolveFlag promotedVisit coloredPromo =
      .ok (.resolved promoted (some (carrying.stickyUpdate "visitor" "on" "shown"))) ∧
    ∃ delivered, (∀ other, other ∈ promotion.flags ∧ other.name = "promo" ↔ other = delivered) ∧
      promoted.Coherent promotedVisit delivered coloredPromo
        (some (carrying.stickyUpdate "visitor" "on" "shown")) := by
  have hpromo : promotedVisit.snapshot.flags.get? "promo" = some coloredPromo := rfl
  exact ⟨build_promotion, hpromo, resolveFlag_coloredPromo,
    Snapshot.resolved_flag_coherent build_promotion hpromo resolveFlag_coloredPromo⟩

end Rollout

end FeatureFlags
