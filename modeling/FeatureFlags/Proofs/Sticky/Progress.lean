import FeatureFlags.Proofs.Sticky.Convergence
import Mathlib.Data.List.Perm.Subperm

/-!
# Rounds make progress

Rules of one name can keep a record from being loaded, and then it takes more than one
round to resolve a request. It never takes more rounds than there were records missing
at first, because every round makes progress (`every_round_makes_progress`):

- what is at hand stays at hand, and at least one record comes to hand
  (`Round.le`, `Round.exists_gained`);
- what is missing afterwards was missing before, and something that was missing before
  is missing no more (`Round.subset_of_lacks`).

The measure of the induction over the rounds is the length of the report, which has
each record once (`exists_lacks_of_rounds`).
-/

namespace FeatureFlags

open Relation (ReflTransGen)

namespace Coordinator

/-- Before this attempt the engine lacks the given records. -/
def Lacks {σ τ : Type} (c : Coordinator σ τ) (occasion : Nat → Occasion) (a : Attempt σ τ)
    (items : List MissingRecord) : Prop :=
  (c.engine.resolve a.request (occasion a.left) a.engine).1 = .ok (.missing items)

variable {maxRounds : Nat} {occasion : Nat → Occasion} {a b : Attempt LocalEngine MemoryStore}
  {items again : List MissingRecord}

theorem inMemory_lacks_iff :
    (inMemory maxRounds).Lacks occasion a items ↔
      ∃ s, a.engine.snapshot = some s ∧
        FeatureFlags.resolve s a.engine.config a.request (occasion a.left) =
          .ok (.missing items) := by
  constructor
  · intro h
    exact (LocalEngine.resolve_eq_missing_iff.mp (Prod.ext h rfl)).2
  · intro h
    have hanswer := LocalEngine.resolve_eq_missing_iff.mpr ⟨rfl, h⟩
    exact congrArg Prod.fst hanswer

/-- An attempt lacks the records of one report. -/
theorem Lacks.unique (h : (inMemory maxRounds).Lacks occasion a items)
    (h' : (inMemory maxRounds).Lacks occasion a again) : items = again := by
  unfold Lacks at h h'
  rw [h] at h'
  cases h'
  rfl

theorem Lacks.ne_nil (h : (inMemory maxRounds).Lacks occasion a items) : items ≠ [] := by
  obtain ⟨s, -, hresolve⟩ := inMemory_lacks_iff.mp h
  exact (report_wellFormed hresolve).1

theorem Lacks.nodup (h : (inMemory maxRounds).Lacks occasion a items) : items.Nodup := by
  obtain ⟨s, -, hresolve⟩ := inMemory_lacks_iff.mp h
  exact (report_wellFormed hresolve).2.1.nodup

/-! ## One round -/

/-- A round takes place because records are missing. -/
theorem Round.exists_lacks (h : (inMemory maxRounds).Round occasion a b) :
    ∃ items, (inMemory maxRounds).Lacks occasion a items ∧ b = a.next items := by
  obtain ⟨s, items, -, hs, hresolve, hb⟩ := inMemory_round_iff.mp h
  exact ⟨items, inMemory_lacks_iff.mpr ⟨s, hs, hresolve⟩, hb⟩

/-- A record comes to hand that was not at hand before. -/
theorem Round.exists_gained (h : (inMemory maxRounds).Round occasion a b) :
    ∃ unit name, a.request.materializations.get? unit name = none ∧
      (b.request.materializations.get? unit name).isSome := by
  obtain ⟨s, items, -, -, hresolve, rfl⟩ := inMemory_round_iff.mp h
  obtain ⟨hne, -, habsent⟩ := report_wellFormed hresolve
  obtain ⟨m, hm, hloads⟩ := MissingRecord.exists_loads_of_ne_nil hne
  refine ⟨m.unit, m.materialization, habsent m hm, ?_⟩
  show ((a.store.supply a.request.materializations items).get? m.unit m.materialization).isSome
  rw [MemoryStore.get?_supply, if_pos hloads]
  rfl

/-- What is missing after a round is a proper part of what was missing before. -/
theorem Round.subset_of_lacks (h : (inMemory maxRounds).Round occasion a b)
    (ha : (inMemory maxRounds).Lacks occasion a items)
    (hb : (inMemory maxRounds).Lacks occasion b again) :
    again ⊆ items ∧ ∃ m ∈ items, m ∉ again := by
  obtain ⟨items', ha', rfl⟩ := h.exists_lacks
  obtain rfl := ha.unique ha'
  obtain ⟨s, hs, hresolve⟩ := inMemory_lacks_iff.mp ha
  obtain ⟨s', hs', hagain⟩ := inMemory_lacks_iff.mp hb
  have hsame : s' = s := Option.some.inj (hs'.symm.trans hs)
  subst hsame
  have hdropped : ∀ m ∈ again, m.Dropped items :=
    dropped_of_reported_again a.store hresolve hagain
  -- the record that was loaded is not missing any more
  obtain ⟨m, hm, hloads⟩ := MissingRecord.exists_loads_of_ne_nil ha.ne_nil
  exact ⟨fun m hm => (hdropped m hm).1, m, hm, fun hstill => (hdropped m hstill).2 hloads⟩

theorem Round.length_lt (h : (inMemory maxRounds).Round occasion a b)
    (ha : (inMemory maxRounds).Lacks occasion a items)
    (hb : (inMemory maxRounds).Lacks occasion b again) : again.length < items.length := by
  obtain ⟨hsub, m, hm, hgone⟩ := h.subset_of_lacks ha hb
  have hnodup : (m :: again).Nodup := List.nodup_cons.mpr ⟨hgone, hb.nodup⟩
  have hmore : m :: again ⊆ items := List.cons_subset.mpr ⟨hm, hsub⟩
  exact (List.subperm_of_subset hnodup hmore).length_le

/-! ## All rounds -/

/-- After every number of rounds that many records less are missing than at first. -/
theorem exists_lacks_of_rounds (h : ReflTransGen ((inMemory maxRounds).Round occasion) a b)
    (hb : (inMemory maxRounds).Lacks occasion b again) :
    ∃ items, (inMemory maxRounds).Lacks occasion a items ∧
      again.length + a.left ≤ items.length + b.left := by
  induction h generalizing again with
  | refl => exact ⟨again, hb, Nat.le_refl _⟩
  | tail _ hround ih =>
    obtain ⟨before, hbefore, -⟩ := hround.exists_lacks
    have hlt : again.length < before.length := hround.length_lt hbefore hb
    have hleft := hround.left_eq
    obtain ⟨items, hitems, hle⟩ := ih hbefore
    exact ⟨items, hitems, by omega⟩

/-- A resolve that fails because records are still missing lacked more records at first than it may
make rounds. -/
theorem exists_lacks_of_notConverged {request : ResolveRequest} {e : LocalEngine} {t : MemoryStore}
    {rounds : Nat} (h : ((inMemory maxRounds).resolve request occasion e t).1 =
      .error (.notConverged rounds)) :
    ∃ items, (inMemory maxRounds).Lacks occasion ⟨maxRounds, request, e, t⟩ items ∧
      maxRounds < items.length := by
  obtain ⟨b, hrounds, hlast⟩ :=
    exists_last (c := inMemory maxRounds) rfl occasion ⟨maxRounds, request, e, t⟩
  have hanswer : ((inMemory maxRounds).run occasion ⟨maxRounds, request, e, t⟩).1 =
      .error (.notConverged rounds) := h
  rw [hanswer] at hlast
  cases hlast with
  | @exhausted again hagain hleft =>
    obtain ⟨items, hitems, hle⟩ := exists_lacks_of_rounds hrounds hagain
    have hpos : 0 < again.length := List.length_pos_iff.mpr (Lacks.ne_nil hagain)
    refine ⟨items, hitems, ?_⟩
    dsimp only at hle
    omega

/-- **Every round makes progress.** It leaves at hand what is at hand, with the same record, and
brings another record to hand. What is missing next is a proper part of what was missing before. So
a resolve that may make as many rounds as records were missing at first does not fail because
records are still missing. -/
theorem every_round_makes_progress (maxRounds : Nat) (occasion : Nat → Occasion) :
    (∀ a b, (inMemory maxRounds).Round occasion a b →
      a.request.materializations ≤ b.request.materializations ∧
      (∃ unit name, a.request.materializations.get? unit name = none ∧
        (b.request.materializations.get? unit name).isSome) ∧
      ∃ items, (inMemory maxRounds).Lacks occasion a items ∧
        ∀ again, (inMemory maxRounds).Lacks occasion b again →
          again ⊆ items ∧ ∃ m ∈ items, m ∉ again) ∧
    ∀ request e t,
      (∀ items, (inMemory maxRounds).Lacks occasion ⟨maxRounds, request, e, t⟩ items →
        items.length ≤ maxRounds) →
      ∀ rounds, ((inMemory maxRounds).resolve request occasion e t).1 ≠
        .error (.notConverged rounds) := by
  constructor
  · intro a b hround
    obtain ⟨items, hitems, -⟩ := hround.exists_lacks
    exact ⟨hround.le, hround.exists_gained, items, hitems,
      fun again hagain => hround.subset_of_lacks hitems hagain⟩
  · intro request e t hfew rounds hfailed
    obtain ⟨items, hitems, hlt⟩ := exists_lacks_of_notConverged hfailed
    have hle := hfew items hitems
    omega

end Coordinator

namespace Rollout

/-- Before the first call for the two flags. -/
def greetingsAttempt : Attempt LocalEngine MemoryStore where
  left := 2
  request := visitorRequest
  engine := { config := .default, snapshot := some greetings, log := ∅ }
  store := .empty

/-- What is missing for the two flags at first. -/
def greetingsReport : List MissingRecord :=
  [{ unit := "visitor", rule := "rollout", materialization := "opened" },
    { unit := "visitor", rule := "rollout", materialization := "seen" }]

/-- Two records are missing for the two flags. One of them is loaded in the first round, and the
other one, which is still missing then, in the second. -/
theorem greetings_need_two_rounds :
    (∃ items again b, (Coordinator.inMemory 2).Lacks (fun _ => visitedAt "visit")
        greetingsAttempt items ∧
      (Coordinator.inMemory 2).Lacks (fun _ => visitedAt "visit") b again ∧
      items.length = 2 ∧ again ⊆ items ∧ ∃ m ∈ items, m ∉ again) ∧
    ∀ rounds, ((Coordinator.inMemory 2).resolve visitorRequest (fun _ => visitedAt "visit")
      greetingsAttempt.engine .empty).1 ≠ .error (.notConverged rounds) := by
  obtain ⟨hrounds, hconverges⟩ :=
    Coordinator.every_round_makes_progress 2 fun _ => visitedAt "visit"
  have hlacks : (Coordinator.inMemory 2).Lacks (fun _ => visitedAt "visit") greetingsAttempt
      greetingsReport := rfl
  constructor
  · have hround : (Coordinator.inMemory 2).Round (fun _ => visitedAt "visit") greetingsAttempt
        (greetingsAttempt.next greetingsReport) :=
      Coordinator.inMemory_round_iff.mpr ⟨greetings, greetingsReport, by decide, rfl, rfl, rfl⟩
    obtain ⟨-, -, items, hitems, hless⟩ := hrounds _ _ hround
    obtain rfl := hlacks.unique hitems
    have hagain : (Coordinator.inMemory 2).Lacks (fun _ => visitedAt "visit")
        (greetingsAttempt.next greetingsReport)
        [{ unit := "visitor", rule := "rollout", materialization := "opened" }] := rfl
    exact ⟨_, _, _, hlacks, hagain, rfl, hless _ hagain⟩
  · refine hconverges visitorRequest greetingsAttempt.engine .empty fun items hitems => ?_
    obtain rfl := Coordinator.Lacks.unique (a := greetingsAttempt) hlacks hitems
    exact Nat.le_refl 2

end Rollout

end FeatureFlags
