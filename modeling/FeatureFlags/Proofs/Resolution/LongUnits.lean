import FeatureFlags.Proofs.Resolution.Request

/-!
# Units that are too long

A rule whose unit is too long makes its flag fail, also while the walk only collects
what is missing. Such a walk forgets what it has collected, so the flag is done although
it was not decided: with the records at hand the walk may end before that rule
(`Flag.Masked`).

- `Flag.told?_withRecords_iff`: for a flag that reports nothing, more records at hand
  change what the client is told exactly if the decision was masked. The error that the
  client gets instead has a text that no other error within a flag has
  (`ResolveError.message_ne_unitTooLong`).
-/

namespace FeatureFlags

/-! ## What clients are told -/

/-- What the client is told about the flag, unless records are missing. -/
def Flag.told? (input : ResolveInput) (f : Flag) : Option ResolvedFlag :=
  match resolveFlag input f with
  | .ok (.resolved value _) => some (.ofValue value)
  | .ok (.missing _) => none
  | .error cause => some (.ofValue (.ofError f.name cause.message))

namespace Findings

variable {input : ResolveInput} {flags : List Flag}

/-- The client is told about the flags in order. -/
theorem map_values_ofFlags (input : ResolveInput) (flags : List Flag) :
    (ofFlags input flags).values.map ResolvedFlag.ofValue = flags.filterMap (·.told? input) := by
  induction flags with
  | nil => rfl
  | cons f rest ih =>
    show ((ofFlag input f).values ++ (ofFlags input rest).values).map _ = _
    rw [List.map_append, ih, List.filterMap_cons, ofFlag, Flag.told?]
    cases resolveFlag input f with
    | error cause => rfl
    | ok outcome => cases outcome <;> rfl

theorem isSome_told?_of_missing (h : (ofFlags input flags).missing = []) :
    ∀ f ∈ flags, (f.told? input).isSome := by
  intro f hf
  have hnone := missing_ofFlags_eq_nil_iff.mp h f hf
  unfold Flag.told?
  split
  · rfl
  · next items hitems => exact absurd hitems (hnone items)
  · rfl

/-- Of flags of which something is known either way, the client is told the same if it is told the
same of each. -/
theorem filterMap_told?_eq_iff {input' : ResolveInput} (h : ∀ f ∈ flags, (f.told? input).isSome)
    (h' : ∀ f ∈ flags, (f.told? input').isSome) :
    flags.filterMap (·.told? input) = flags.filterMap (·.told? input') ↔
      ∀ f ∈ flags, f.told? input = f.told? input' := by
  induction flags with
  | nil => simp
  | cons f rest ih =>
    obtain ⟨hf, hrest⟩ := List.forall_mem_cons.mp h
    obtain ⟨hf', hrest'⟩ := List.forall_mem_cons.mp h'
    obtain ⟨a, ha⟩ := Option.isSome_iff_exists.mp hf
    obtain ⟨a', ha'⟩ := Option.isSome_iff_exists.mp hf'
    rw [List.filterMap_cons_some ha, List.filterMap_cons_some ha', List.cons.injEq,
      ih hrest hrest', List.forall_mem_cons, ha, ha', Option.some.injEq]

end Findings

/-! ## Errors within a flag -/

namespace FlagRule

variable {input : ResolveInput} {f : Flag} {r : FlagRule} {unit : String} {cause : ResolveError}

theorem isBadRequest_of_targets (h : r.targets input unit = .error cause) :
    cause.isBadRequest = false := by
  unfold targets at h
  split at h
  · cases hm : input.snapshot.isMember input.context r.segment unit with
    | error cause' => rw [hm] at h; cases h; rfl
    | ok member => rw [hm] at h; cases h
  · cases h

theorem isBadRequest_of_byBucket (h : r.byBucket f unit = .failed cause) :
    cause.isBadRequest = false := by
  unfold byBucket at h
  split at h
  · cases h
    rfl
  · split at h
    · cases h
    · split at h
      · cases h
      · cases h
      · split at h <;> cases h
        rfl

theorem isBadRequest_of_afresh (h : r.afresh input f unit = .failed cause) :
    cause.isBadRequest = false := by
  unfold afresh at h
  split at h
  · next htargets =>
    cases h
    exact isBadRequest_of_targets htargets
  · cases h
  · exact isBadRequest_of_byBucket h

/-- Where a rule cannot be evaluated, it is not the request that is at fault. -/
theorem isBadRequest_of_decide {sticky : Option (String × UnitRecord)}
    (h : r.decide input f unit sticky = .failed cause) : cause.isBadRequest = false := by
  have hdecides := r.decidesBy input f unit sticky
  rw [h] at hdecides
  generalize hverdict : Verdict.failed cause = verdict at hdecides
  cases hdecides with
  | afresh => exact isBadRequest_of_afresh hverdict.symm
  | keep => cases hverdict
  | skipped => cases hverdict
  | failed htargets =>
    cases hverdict
    exact isBadRequest_of_targets htargets

end FlagRule

/-- A text begins as its first part does. -/
theorem Text.head?_append {a : String} {c : Char} (h : a.toList.head? = some c) (b : String) :
    (a ++ b).toList.head? = some c := by
  rw [String.toList_append, List.head?_append, h, Option.some_or]

namespace ResolveError

theorem head?_message_unitTooLong (length max : Nat) :
    (unitTooLong length max).message.toList.head? = some 'T' := by
  unfold message
  repeat' refine Text.head?_append ?_ _
  rfl

theorem head?_message_of_not_isBadRequest {cause : ResolveError} (h : cause.isBadRequest = false) :
    cause.message.toList.head? ∈ [some 'V', some 'R', some 'C', some 'U'] := by
  cases cause with
  | unknownVariant flag variant =>
    have hfirst : (unknownVariant flag variant).message.toList.head? = some 'V' := by
      unfold message
      repeat' refine Text.head?_append ?_ _
      rfl
    simp [hfirst]
  | emptyBucketSpace flag rule =>
    have hfirst : (emptyBucketSpace flag rule).message.toList.head? = some 'R' := by
      unfold message
      repeat' refine Text.head?_append ?_ _
      rfl
    simp [hfirst]
  | membership cause =>
    cases cause with
    | circular path =>
      have hfirst : (membership (.circular path)).message.toList.head? = some 'C' :=
        Text.head?_append rfl _
      simp [hfirst]
    | unknownSegment name =>
      have hfirst : (membership (.unknownSegment name)).message.toList.head? = some 'U' :=
        Text.head?_append rfl _
      simp [hfirst]
  | _ => cases h

/-- No error that the configuration is to blame for reads like that of a unit that is too long. -/
theorem message_ne_unitTooLong {cause : ResolveError} (h : cause.isBadRequest = false)
    (length max : Nat) : cause.message ≠ (unitTooLong length max).message := by
  intro heq
  -- the texts differ in the first character already
  have hfirst := head?_message_of_not_isBadRequest h
  rw [heq, head?_message_unitTooLong] at hfirst
  revert hfirst
  decide

end ResolveError

/-! ## Decisions that are masked -/

/-- A unit that is too long is one that the rule finds. -/
theorem FlagRule.exists_unit_of_tooLong {input : ResolveInput} {r : FlagRule} {length : Nat}
    (h : r.tooLong? input = some length) :
    ∃ unit, input.context.get r.targetingKey = .string unit ∧ length = unit.length ∧
      input.config.maxUnitLength < unit.length := by
  have hlooksUp := r.looksUp input
  rw [tooLong?_eq_some_iff.mp h] at hlooksUp
  cases hlooksUp with
  | @tooLong unit hget hlong => exact ⟨unit, hget, rfl, hlong⟩

/-- With more records at hand the walk ends before a rule whose unit is too long, and to which it
comes with those at hand. -/
structure Flag.Masked (input : ResolveInput) (more : Materializations) (f : Flag) : Prop where
  active : f.state = .active
  rule : ∃ before r after, f.enabledRules = before ++ r :: after ∧
    (r.tooLong? input).isSome ∧
    (∃ w, RuleWalk.start.through input f before = .goesOn w) ∧
    ∃ result, RuleWalk.start.through (input.withRecords more) f before = .ends result

namespace Flag

variable {input : ResolveInput} {f : Flag} {more : Materializations}

/-- At a rule whose unit is too long, the client is told so. -/
theorem told?_of_tooLong {before after : List FlagRule} {r : FlagRule} {w : RuleWalk}
    {length : Nat} (hactive : f.state = .active) (hrules : f.enabledRules = before ++ r :: after)
    (hlong : r.tooLong? input = some length)
    (hbefore : RuleWalk.start.through input f before = .goesOn w) :
    f.told? input = some (.ofValue (.ofError f.name
      (ResolveError.unitTooLong length input.config.maxUnitLength).message)) := by
  have hresolve : resolveFlag input f =
      .error (.unitTooLong length input.config.maxUnitLength) := by
    rw [resolveFlag_active hactive, hrules, RuleWalk.run_append, hbefore,
      RuleStep.result_goesOn, RuleWalk.run_cons, RuleWalk.step_of_tooLong hlong,
      RuleStep.result_ends]
  rw [told?, hresolve]

/-- A walk that ends before is told of otherwise. -/
theorem told?_ne_of_ends {before after : List FlagRule} {result : Except ResolveError FlagOutcome}
    (hactive : f.state = .active) (hrules : f.enabledRules = before ++ after)
    (hlong : ∀ r ∈ before, r.tooLong? input = none)
    (hends : RuleWalk.start.through input f before = .ends result) (length max : Nat) :
    f.told? input ≠ some (.ofValue (.ofError f.name
      (ResolveError.unitTooLong length max).message)) := by
  have hresolve : resolveFlag input f = result := by
    rw [resolveFlag_active hactive, hrules, RuleWalk.run_append, hends, RuleStep.result_ends]
  obtain ⟨before', r, after', w, rfl, -, hstep⟩ := RuleWalk.through_eq_ends hends
  unfold told?
  rw [hresolve]
  cases RuleWalk.step_eq_ends hstep with
  | tooLong h =>
    rw [hlong r (List.mem_append_right _ List.mem_cons_self)] at h
    cases h
  | notText _ _ =>
    intro h
    cases congrArg (Option.map ResolvedFlag.reason) h
  | decided _ _ _ =>
    intro h
    cases congrArg (Option.map ResolvedFlag.reason) h
  | failed _ _ hv =>
    intro h
    have herror := congrArg (Option.map ResolvedFlag.error) h
    simp only [Option.map_some, ResolvedFlag.ofValue, ResolvedValue.ofError,
      Option.some.injEq] at herror
    exact ResolveError.message_ne_unitTooLong (FlagRule.isBadRequest_of_decide hv) length max herror

/-- **Long units mask decisions**: of a flag that reports nothing the client is told the same with
more records at hand, unless a decision was masked. -/
theorem told?_withRecords_iff (hle : input.materializations ≤ more)
    (hnone : ∀ items, resolveFlag input f ≠ .ok (.missing items)) :
    f.told? (input.withRecords more) = f.told? input ↔ ¬ f.Masked input more := by
  cases hs : f.state with
  | archived =>
    refine iff_of_true ?_ fun hmasked => ?_
    · rw [told?, told?, resolveFlag_archived hs, resolveFlag_archived hs]
    · have := hmasked.active
      rw [hs] at this
      cases this
  | active =>
    constructor
    · rintro hsame ⟨-, before, r, after, hrules, hlong, ⟨w, hbefore⟩, result, hends⟩
      obtain ⟨length, hlong⟩ := Option.isSome_iff_exists.mp hlong
      rw [told?_of_tooLong hs hrules hlong hbefore] at hsame
      refine told?_ne_of_ends hs hrules (fun r hr => ?_) hends _ _ hsame
      rw [FlagRule.tooLong?_withRecords]
      exact (RuleWalk.through_eq_goesOn hbefore).1 r hr
    · intro hmasked
      rw [resolveFlag_active hs] at hnone
      rcases RuleWalk.run_withRecords_or_givesUp hle hnone with hsame | hgivesUp
      · unfold told?
        rw [resolveFlag_active hs, resolveFlag_active hs, hsame]
      · obtain ⟨before, r, after, w, length, hrules, hbefore, -, hlong⟩ := hgivesUp
        -- with more records the walk ends earlier, or it comes to the same rule
        cases hmore : RuleWalk.start.through (input.withRecords more) f before with
        | ends result =>
          exact absurd ⟨hs, before, r, after, hrules, by rw [hlong]; rfl, ⟨w, hbefore⟩, result,
            hmore⟩ hmasked
        | goesOn w' =>
          have hlong' : r.tooLong? (input.withRecords more) = some length := by
            rw [FlagRule.tooLong?_withRecords, hlong]
          rw [told?_of_tooLong hs hrules hlong hbefore, told?_of_tooLong hs hrules hlong' hmore]
          rfl

end Flag

end FeatureFlags
