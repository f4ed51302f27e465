import FeatureFlags.Proofs.Sticky.Rounds

/-!
# How many rounds a resolve needs

One round of loading is enough unless a record was dropped, that is, unless two rules
of one name lack different records of one unit, and the flag of the dropped record
cannot do without it (`one_round_suffices_iff`). What is still missing after a round is
always one of the records that were dropped (`dropped_of_reported_again`).

A resolve that may load only once fails where a record was dropped and is asked for
again (`Rollout.not_converged`).
-/

namespace FeatureFlags

open Relation (ReflTransGen)

/-- The flag asks again for a dropped record: the walk goes on to the last rule, and one of the
rules looks for the record. -/
structure Flag.AsksAgain (input : ResolveInput) (items : List MissingRecord) (f : Flag) : Prop where
  active : f.state = .active
  goesOn : ∃ w, RuleWalk.start.through input f f.enabledRules = .goesOn w
  asks : ∃ r ∈ f.enabledRules, ∃ m, r.lookUp input = .absent m ∧ m.Dropped items

section Reports

variable {s : Snapshot} {config : Config} {request : ResolveRequest} {occasion : Occasion}
  {items : List MissingRecord}

/-- What is missing after a round was missing before and was dropped. -/
theorem dropped_of_reported_again (t : MemoryStore)
    (h : resolve s config request occasion = .ok (.missing items))
    {occasion' : Occasion} {again : List MissingRecord}
    (hagain : resolve s config (request.holding (t.supply request.materializations items))
      occasion' = .ok (.missing again)) :
    ∀ m ∈ again, m.Dropped items := by
  obtain ⟨client, flags, hselection, -, rfl⟩ := resolve_eq_missing_iff.mp hagain
  obtain ⟨client', flags', hselection', -, hitems⟩ := resolve_eq_missing_iff.mp h
  rw [ResolveRequest.selection_holding, hselection'] at hselection
  cases hselection
  intro m hm
  have hmissing := MissingRecord.mem_distinct_iff.mp hm
  have hle := t.le_supply (report_wellFormed h).2.2
  have hreported : m ∈ items := by
    rw [← hitems]
    exact MissingRecord.mem_distinct_iff.mpr (Findings.missing_mono hle hmissing)
  refine ⟨hreported, fun hloads => ?_⟩
  -- what was loaded is at hand
  have hnone : (t.supply request.materializations items).get? m.unit m.materialization = none :=
    Findings.get?_of_mem_missing hmissing
  rw [MemoryStore.get?_supply, if_pos hloads] at hnone
  cases hnone

/-- Records are missing after a round exactly if a flag of the request asks again. -/
theorem reported_again_iff (t : MemoryStore)
    (h : resolve s config request occasion = .ok (.missing items)) (occasion' : Occasion) :
    (∃ again, resolve s config (request.holding (t.supply request.materializations items))
      occasion' = .ok (.missing again)) ↔
      ∃ client flags, s.selection config request = .ok (client, flags) ∧ ∃ f ∈ flags,
        f.AsksAgain ((request.input s config).withRecords
          (t.supply request.materializations items)) items := by
  constructor
  · rintro ⟨again, hagain⟩
    obtain ⟨client, flags, hselection, hne, rfl⟩ := resolve_eq_missing_iff.mp hagain
    obtain ⟨m, hm⟩ := List.exists_mem_of_ne_nil _ hne
    obtain ⟨f, hf, reported, hreported, hmem⟩ := Findings.mem_missing_ofFlags_iff.mp hm
    obtain ⟨hactive, hgoesOn, rfl, -⟩ := resolveFlag_eq_missing_iff.mp hreported
    obtain ⟨r, hr, habsent⟩ := List.mem_filterMap.mp hmem
    exact ⟨client, flags, hselection, f, hf, hactive, hgoesOn, r, hr, m,
      FlagRule.absent?_eq_some_iff.mp habsent,
      dropped_of_reported_again t h hagain m (MissingRecord.mem_distinct_iff.mpr hm)⟩
  · rintro ⟨client, flags, hselection, f, hf, hactive, hgoesOn, r, hr, m, habsent, -⟩
    have hmem : m ∈ f.enabledRules.filterMap (·.absent? ((request.input s config).withRecords
        (t.supply request.materializations items))) :=
      List.mem_filterMap.mpr ⟨r, hr, FlagRule.absent?_eq_some_iff.mpr habsent⟩
    refine ⟨_, resolve_eq_missing_iff.mpr ⟨client, flags, hselection, fun hnil => ?_, rfl⟩⟩
    exact Findings.missing_ofFlags_eq_nil_iff.mp hnil f hf _
      (resolveFlag_eq_missing_iff.mpr ⟨hactive, hgoesOn, rfl, List.ne_nil_of_mem hmem⟩)

end Reports

namespace Coordinator

variable {maxRounds : Nat} {occasion : Nat → Occasion}

/-- The resolve loads at most once, and it does not fail because records are still missing. -/
structure OneRoundSuffices (maxRounds : Nat) (occasion : Nat → Occasion) (request : ResolveRequest)
    (e : LocalEngine) (t : MemoryStore) : Prop where
  rounds : ∀ b, ReflTransGen ((inMemory maxRounds).Round occasion) ⟨maxRounds, request, e, t⟩ b →
    maxRounds ≤ b.left + 1
  answer : ∀ rounds, ((inMemory maxRounds).resolve request occasion e t).1 ≠
    .error (.notConverged rounds)

/-- A resolve whose attempt finds nothing missing is over. -/
theorem not_round_of_not_missing {a b : Attempt LocalEngine MemoryStore} {s : Snapshot}
    (hs : a.engine.snapshot = some s)
    (h : ∀ items, FeatureFlags.resolve s a.engine.config a.request (occasion a.left) ≠
      .ok (.missing items)) :
    ¬ (inMemory maxRounds).Round occasion a b := by
  intro hround
  obtain ⟨s', items, -, hs', hresolve, -⟩ := inMemory_round_iff.mp hround
  rw [hs] at hs'
  cases hs'
  exact h items hresolve

theorem run_ne_notConverged {a : Attempt LocalEngine MemoryStore} {s : Snapshot}
    (hs : a.engine.snapshot = some s)
    (h : ∀ items, FeatureFlags.resolve s a.engine.config a.request (occasion a.left) ≠
      .ok (.missing items)) (rounds : Nat) :
    ((inMemory maxRounds).run occasion a).1 ≠ .error (.notConverged rounds) := by
  intro hrun
  rcases round_or_finishes (c := inMemory maxRounds) rfl occasion a with ⟨b, hround⟩ | hlast
  · exact not_round_of_not_missing hs h hround
  · rw [hrun] at hlast
    cases hlast with
    | @exhausted items hmissing _ =>
      obtain ⟨-, s', hs', hresolve⟩ := LocalEngine.resolve_eq_missing_iff.mp
        (Prod.ext hmissing rfl)
      rw [hs] at hs'
      cases hs'
      exact h items hresolve

/-- Without rounds left, an attempt that lacks records fails. -/
theorem run_of_exhausted {a : Attempt LocalEngine MemoryStore} {s : Snapshot}
    (hs : a.engine.snapshot = some s) (hleft : a.left = 0) {items : List MissingRecord}
    (h : FeatureFlags.resolve s a.engine.config a.request (occasion a.left) =
      .ok (.missing items)) :
    ((inMemory maxRounds).run occasion a).1 = .error (.notConverged maxRounds) := by
  obtain ⟨left, request, e, t⟩ := a
  dsimp only at hleft hs h
  subst hleft
  have hanswer : (inMemory maxRounds).engine.resolve request (occasion 0) e =
      (.ok (.missing items), e) := LocalEngine.resolve_eq_missing_iff.mpr ⟨rfl, s, hs, h⟩
  unfold run
  rw [resolveWithin, hanswer]
  rfl

section OneRound

variable {request : ResolveRequest} {config : Config} {s : Snapshot} {log : Log} {t : MemoryStore}

/-- No round takes place if nothing is missing at first. -/
theorem oneRoundSuffices_of_not_missing
    (h : ∀ items, FeatureFlags.resolve s config request (occasion maxRounds) ≠
      .ok (.missing items)) :
    OneRoundSuffices maxRounds occasion request { config, snapshot := some s, log } t where
  rounds b hb := by
    rcases hb.cases_head with rfl | ⟨_, hround, -⟩
    · exact Nat.le_succ _
    · exact absurd hround (not_round_of_not_missing rfl h)
  answer := run_ne_notConverged (a := ⟨maxRounds, request, _, t⟩) rfl h

/-- If something is missing at first, it comes down to what is missing after one round. -/
theorem oneRoundSuffices_iff_not_missing_again {items : List MissingRecord}
    (h : FeatureFlags.resolve s config request (occasion (maxRounds + 1)) =
      .ok (.missing items)) :
    OneRoundSuffices (maxRounds + 1) occasion request { config, snapshot := some s, log } t ↔
      ∀ again, FeatureFlags.resolve s config
        (request.holding (t.supply request.materializations items)) (occasion maxRounds) ≠
          .ok (.missing again) := by
  have hfirst : ∀ b, (inMemory (maxRounds + 1)).Round occasion
      ⟨maxRounds + 1, request, { config, snapshot := some s, log }, t⟩ b ↔
        b = Attempt.next ⟨maxRounds + 1, request, { config, snapshot := some s, log }, t⟩ items :=
    fun b => round_iff_eq_next rfl (Nat.succ_pos _) h
  have hrun := Round.run_eq ((hfirst _).mpr rfl)
  constructor
  · intro hsuffices again hagain
    cases maxRounds with
    | zero =>
      -- the only round is used up
      refine hsuffices.answer 1 ?_
      show ((inMemory 1).run occasion ⟨1, request, _, t⟩).1 = _
      rw [hrun]
      exact run_of_exhausted rfl rfl hagain
    | succ n =>
      -- another round follows the first one
      have hsecond : (inMemory (n + 2)).Round occasion
          (Attempt.next ⟨n + 2, request, { config, snapshot := some s, log }, t⟩ items) _ :=
        (round_iff_eq_next rfl (Nat.succ_pos n) hagain).mpr rfl
      have hle := hsuffices.rounds _ (.tail (.single ((hfirst _).mpr rfl)) hsecond)
      exact absurd hle (Nat.not_succ_le_self _)
  · intro hnone
    constructor
    · intro b hb
      rcases hb.cases_head with rfl | ⟨second, hround, hrest⟩
      · exact Nat.le_succ _
      · obtain rfl := (hfirst second).mp hround
        rcases hrest.cases_head with rfl | ⟨_, hround', -⟩
        · exact Nat.le_refl _
        · exact absurd hround' (not_round_of_not_missing rfl hnone)
    · intro rounds
      show ((inMemory _).run occasion ⟨maxRounds + 1, request, _, t⟩).1 ≠ _
      rw [hrun]
      exact run_ne_notConverged rfl hnone rounds

end OneRound

/-- **One round is enough** for a resolve that may load exactly if no flag of the request asks again
for a dropped record. -/
theorem one_round_suffices_iff (maxRounds : Nat) (occasion : Nat → Occasion)
    (request : ResolveRequest) (config : Config) (s : Snapshot) (log : Log) (t : MemoryStore) :
    OneRoundSuffices (maxRounds + 1) occasion request { config, snapshot := some s, log } t ↔
      ∀ items, FeatureFlags.resolve s config request (occasion (maxRounds + 1)) =
          .ok (.missing items) →
        ∀ client flags, s.selection config request = .ok (client, flags) →
          ∀ f ∈ flags, ¬ f.AsksAgain ((request.input s config).withRecords
            (t.supply request.materializations items)) items := by
  by_cases hmissing : ∃ items, FeatureFlags.resolve s config request (occasion (maxRounds + 1)) =
      .ok (.missing items)
  · obtain ⟨items, h⟩ := hmissing
    rw [oneRoundSuffices_iff_not_missing_again h, ← not_exists, reported_again_iff t h]
    constructor
    · intro hnot items' h' client flags hselection f hf hasks
      rw [h] at h'
      cases h'
      exact hnot ⟨client, flags, hselection, f, hf, hasks⟩
    · rintro hall ⟨client, flags, hselection, f, hf, hasks⟩
      exact hall items h client flags hselection f hf hasks
  · have hnone := not_exists.mp hmissing
    exact iff_of_true (oneRoundSuffices_of_not_missing hnone)
      fun items h => absurd h (hnone items)

/-- One round is enough where the rules of one name read one materialization, in all flags. -/
theorem one_round_suffices_of_rules_read_alike (maxRounds : Nat) (occasion : Nat → Occasion)
    (request : ResolveRequest) (config : Config) {s : Snapshot} (log : Log) (t : MemoryStore)
    (h : ∀ name f name' f', s.flags.get? name = some f → s.flags.get? name' = some f' →
      ∀ r ∈ f.enabledRules, ∀ r' ∈ f'.enabledRules, r.name = r'.name →
        ∀ m m', r.readMaterialization? = some m → r'.readMaterialization? = some m' → m = m') :
    OneRoundSuffices (maxRounds + 1) occasion request { config, snapshot := some s, log } t := by
  by_cases hmissing : ∃ items, FeatureFlags.resolve s config request (occasion (maxRounds + 1)) =
      .ok (.missing items)
  · obtain ⟨items, hitems⟩ := hmissing
    refine (oneRoundSuffices_iff_not_missing_again hitems).mpr fun again hagain => ?_
    obtain ⟨m, hm⟩ := List.exists_mem_of_ne_nil again (report_wellFormed hagain).1
    have hdropped := dropped_of_reported_again t hitems hagain m hm
    -- the rules of the two records have one name
    obtain ⟨other, hother, -, hrule, hne⟩ := hdropped.exists_clash
    obtain ⟨name, f, hf, r, hr, hname, -, hread⟩ := exists_rule_of_reported hitems hdropped.1
    obtain ⟨name', f', hf', r', hr', hname', -, hread'⟩ := exists_rule_of_reported hitems hother
    refine hne (h name' f' name f hf' hf r' hr' r hr ?_ _ _ hread' hread)
    rw [hname, hname', hrule]
  · exact oneRoundSuffices_of_not_missing (not_exists.mp hmissing)

end Coordinator

namespace Rollout

/-- What a rule does that is for units with an earlier decision only. -/
def returning (materialization : String) : Stickiness where
  read := some materialization
  write := none
  mode := { mustMatch := true, ignoresTargeting := false }

/-- A flag for visitors that were there before. -/
def greeting (name materialization : String) : Flag where
  name := name
  variants := [on]
  rules := [{ rule with stickiness := some (returning materialization) }]
  clients := ["web"]

/-- Two flags whose rules have one name and read different materializations. -/
def greetings : Snapshot :=
  { snapshot with
    flags := .ofList
      [("banner", greeting "banner" "seen"), ("popup", greeting "popup" "opened")] }

/-- One of the two records is dropped, and the only round is over. -/
theorem not_converged :
    ((Coordinator.inMemory 1).resolve visitorRequest (fun _ => visitedAt "visit")
      { config := .default, snapshot := some greetings, log := ∅ } .empty).1 =
        .error (.notConverged 1) := rfl

end Rollout

end FeatureFlags
