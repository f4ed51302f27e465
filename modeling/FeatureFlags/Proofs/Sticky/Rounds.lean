import FeatureFlags.Engine.Local
import FeatureFlags.Proofs.Resolution.Reports
import FeatureFlags.Proofs.Sticky.Loading
import Mathlib.Logic.Relation

/-!
# Rounds of loading

A sticky resolve over a store is a sequence of attempts. Between two of them lies one
round of loading (`Coordinator.Round`): the engine reports missing records, and they are
loaded. The answer does not depend on where in the sequence one starts to look
(`Coordinator.run_of_rounds`).

With a local engine and a store in memory a round is a function of the attempt
(`Coordinator.inMemory_round_iff`). It leaves the engine and the records of the store
alone, and everything that was at hand stays at hand (`Coordinator.Round.le`).
-/

namespace FeatureFlags

open Relation (ReflTransGen)

/-- Where a sticky resolve stands before a call of the engine. -/
structure Attempt (σ τ : Type) where
  /-- How many rounds of loading are left. -/
  left : Nat
  /-- The request with the records at hand. -/
  request : ResolveRequest
  /-- The state of the engine. -/
  engine : σ
  /-- The state of the store. -/
  store : τ

namespace Coordinator

section Rounds

variable {σ τ : Type} {c : Coordinator σ τ} {occasion : Nat → Occasion} {a b : Attempt σ τ}

/-- The answer of a resolve that stands before this attempt. -/
def run (c : Coordinator σ τ) (occasion : Nat → Occasion) (a : Attempt σ τ) :
    Except StickyError ResolveResponse × σ × τ :=
  c.resolveWithin occasion a.left a.request a.engine a.store

/-- One round: the engine lacks records, and they are loaded from the store. -/
inductive Round (c : Coordinator σ τ) (occasion : Nat → Occasion) :
    Attempt σ τ → Attempt σ τ → Prop where
  /-- Both calls succeed, and there is a round left. -/
  | intro {store : RecordStore τ} {items : List MissingRecord} {left : Nat}
    {request request' : ResolveRequest} {s s' : σ} {t t' : τ}
    (hstrategy : c.strategy = .repository store)
    (hmissing : c.engine.resolve request (occasion (left + 1)) s = (.ok (.missing items), s'))
    (hload : store.loadMissing request items t = (.ok request', t')) :
    Round c occasion ⟨left + 1, request, s, t⟩ ⟨left, request', s', t'⟩

/-- A round is not seen in the answer. -/
theorem Round.run_eq (h : c.Round occasion a b) : c.run occasion a = c.run occasion b := by
  cases h with
  | intro hstrategy hmissing hload =>
    unfold run
    rw [resolveWithin, hmissing]
    dsimp only
    rw [hstrategy]
    dsimp only
    rw [hload]

theorem run_of_rounds (h : ReflTransGen (c.Round occasion) a b) :
    c.run occasion a = c.run occasion b := by
  induction h with
  | refl => rfl
  | tail _ hround ih => rw [ih, hround.run_eq]

/-- What an attempt comes to if no round follows it. -/
inductive Finishes (c : Coordinator σ τ) (store : RecordStore τ) (occasion : Nat → Occasion)
    (a : Attempt σ τ) : Except StickyError ResolveResponse → Prop where
  /-- The engine fails. -/
  | refused {cause : EngineError}
    (h : (c.engine.resolve a.request (occasion a.left) a.engine).1 = .error cause) :
    Finishes c store occasion a (.error (.engine cause))
  /-- All flags are decided. -/
  | resolved {response : ResolveResponse} {updates : List StickyUpdate}
    (h : (c.engine.resolve a.request (occasion a.left) a.engine).1 =
      .ok (.resolved response updates)) :
    Finishes c store occasion a (.ok response)
  /-- Records are missing, and no round is left. -/
  | exhausted {items : List MissingRecord}
    (h : (c.engine.resolve a.request (occasion a.left) a.engine).1 = .ok (.missing items))
    (hleft : a.left = 0) :
    Finishes c store occasion a (.error (.notConverged c.maxRounds))
  /-- Records are missing, and loading them fails. -/
  | notLoaded {items : List MissingRecord} {cause : StoreError}
    (h : (c.engine.resolve a.request (occasion a.left) a.engine).1 = .ok (.missing items))
    (hload : (store.loadMissing a.request items a.store).1 = .error cause) :
    Finishes c store occasion a (.error (.store cause))

/-- How a resolve ends at an attempt that no round follows: its answer and the states that it
leaves. -/
inductive EndsWith (c : Coordinator σ τ) (store : RecordStore τ) (occasion : Nat → Occasion)
    (a : Attempt σ τ) : Except StickyError ResolveResponse × σ × τ → Prop where
  /-- The engine fails. -/
  | refused {cause : EngineError} {s : σ}
    (h : c.engine.resolve a.request (occasion a.left) a.engine = (.error cause, s)) :
    EndsWith c store occasion a (.error (.engine cause), s, a.store)
  /-- All flags are decided, and what is to be remembered is saved. -/
  | resolved {response : ResolveResponse} {updates : List StickyUpdate} {s : σ}
    (h : c.engine.resolve a.request (occasion a.left) a.engine =
      (.ok (.resolved response updates), s)) :
    EndsWith c store occasion a (.ok response, s, store.saveUpdates updates a.store)
  /-- Records are missing, and no round is left. -/
  | exhausted {items : List MissingRecord} {s : σ}
    (h : c.engine.resolve a.request (occasion a.left) a.engine = (.ok (.missing items), s))
    (hleft : a.left = 0) :
    EndsWith c store occasion a (.error (.notConverged c.maxRounds), s, a.store)
  /-- Records are missing, a round is left, and loading fails. -/
  | notLoaded {items : List MissingRecord} {cause : StoreError} {s : σ} {t : τ}
    (h : c.engine.resolve a.request (occasion a.left) a.engine = (.ok (.missing items), s))
    (hleft : 0 < a.left)
    (hload : store.loadMissing a.request items a.store = (.error cause, t)) :
    EndsWith c store occasion a (.error (.store cause), s, t)

/-- A round follows an attempt, or the resolve ends there. -/
theorem round_or_endsWith {store : RecordStore τ} (hstrategy : c.strategy = .repository store)
    (occasion : Nat → Occasion) (a : Attempt σ τ) :
    (∃ b, c.Round occasion a b) ∨ c.EndsWith store occasion a (c.run occasion a) := by
  obtain ⟨left, request, s, t⟩ := a
  unfold run
  rw [resolveWithin]
  cases hanswer : c.engine.resolve request (occasion left) s with
  | mk answer s' =>
    cases answer with
    | error cause => exact .inr (.refused hanswer)
    | ok answer =>
      cases answer with
      | resolved response updates =>
        have hremember : c.remember updates t = store.saveUpdates updates t := by
          unfold remember
          rw [hstrategy]
        dsimp only
        rw [hremember]
        exact .inr (.resolved hanswer)
      | missing items =>
        dsimp only
        rw [hstrategy]
        cases left with
        | zero => exact .inr (.exhausted hanswer rfl)
        | succ left =>
          dsimp only
          cases hload : store.loadMissing request items t with
          | mk loaded t' =>
            cases loaded with
            | error cause => exact .inr (.notLoaded hanswer (Nat.succ_pos left) hload)
            | ok request' => exact .inl ⟨_, .intro hstrategy hanswer hload⟩

/-- How a resolve ends tells what the attempt comes to. -/
theorem EndsWith.finishes {store : RecordStore τ}
    {result : Except StickyError ResolveResponse × σ × τ}
    (h : c.EndsWith store occasion a result) : c.Finishes store occasion a result.1 := by
  cases h with
  | refused h => exact .refused (congrArg Prod.fst h)
  | resolved h => exact .resolved (congrArg Prod.fst h)
  | exhausted h hleft => exact .exhausted (congrArg Prod.fst h) hleft
  | notLoaded h _ hload => exact .notLoaded (congrArg Prod.fst h) (congrArg Prod.fst hload)

/-- A round follows an attempt, or the answer is what the attempt comes to. -/
theorem round_or_finishes {store : RecordStore τ} (hstrategy : c.strategy = .repository store)
    (occasion : Nat → Occasion) (a : Attempt σ τ) :
    (∃ b, c.Round occasion a b) ∨ c.Finishes store occasion a (c.run occasion a).1 :=
  (round_or_endsWith hstrategy occasion a).imp_right EndsWith.finishes

theorem Round.left_eq (h : c.Round occasion a b) : a.left = b.left + 1 := by
  cases h
  rfl

/-- The rounds of a resolve come to an end. -/
theorem exists_final (c : Coordinator σ τ) (occasion : Nat → Occasion) (a : Attempt σ τ) :
    ∃ b, ReflTransGen (c.Round occasion) a b ∧ ¬ ∃ next, c.Round occasion b next := by
  -- every round uses up one of those that are left
  induction hn : a.left generalizing a with
  | zero =>
    refine ⟨a, .refl, ?_⟩
    rintro ⟨b, hround⟩
    have := hround.left_eq
    omega
  | succ n ih =>
    by_cases hround : ∃ b, c.Round occasion a b
    · obtain ⟨b, hround⟩ := hround
      obtain ⟨last, hrounds, hfinal⟩ := ih b (by have := hround.left_eq; omega)
      exact ⟨last, .head hround hrounds, hfinal⟩
    · exact ⟨a, .refl, hround⟩

/-- Every resolve over a store comes to a last attempt. -/
theorem exists_last {store : RecordStore τ} (hstrategy : c.strategy = .repository store)
    (occasion : Nat → Occasion) (a : Attempt σ τ) :
    ∃ b, ReflTransGen (c.Round occasion) a b ∧
      c.Finishes store occasion b (c.run occasion a).1 := by
  obtain ⟨b, hrounds, hfinal⟩ := exists_final c occasion a
  refine ⟨b, hrounds, ?_⟩
  rw [run_of_rounds hrounds]
  exact (round_or_finishes hstrategy occasion b).resolve_left hfinal

end Rounds

/-! ## A local engine and a store in memory -/

/-- The coordinator that loads from memory for a local engine. -/
def inMemory (maxRounds : Nat) : Coordinator LocalEngine MemoryStore :=
  { engine := LocalEngine.engine, strategy := .repository MemoryStore.store, maxRounds }

end Coordinator

/-- A local engine reports what its snapshot lacks, and does not change. -/
theorem LocalEngine.resolve_eq_missing_iff {e e' : LocalEngine} {request : ResolveRequest}
    {occasion : Occasion} {items : List MissingRecord} :
    e.resolve request occasion = (.ok (.missing items), e') ↔
      e' = e ∧ ∃ s, e.snapshot = some s ∧
        FeatureFlags.resolve s e.config request occasion = .ok (.missing items) := by
  unfold resolve
  cases e.snapshot with
  | none => simp
  | some s =>
    simp only [Option.some.injEq, exists_eq_left']
    cases FeatureFlags.resolve s e.config request occasion with
    | error cause => simp
    | ok outcome => cases outcome <;> simp [eq_comm, and_comm]

/-- A local engine answers what its snapshot decides. -/
theorem LocalEngine.exists_resolution {e : LocalEngine} {request : ResolveRequest}
    {occasion : Occasion} {response : ResolveResponse} {updates : List StickyUpdate}
    (h : (e.resolve request occasion).1 = .ok (.resolved response updates)) :
    ∃ s resolution, e.snapshot = some s ∧
      FeatureFlags.resolve s e.config request occasion = .ok (.resolved resolution) ∧
      resolution.response = response ∧ resolution.updates = updates := by
  unfold resolve at h
  cases hs : e.snapshot with
  | none => rw [hs] at h; cases h
  | some s =>
    rw [hs] at h
    dsimp only at h
    cases hresolve : FeatureFlags.resolve s e.config request occasion with
    | error cause => rw [hresolve] at h; cases h
    | ok outcome =>
      rw [hresolve] at h
      cases outcome with
      | missing items => cases h
      | resolved resolution =>
        cases h
        exact ⟨s, resolution, rfl, hresolve, rfl, rfl⟩

namespace Attempt

/-- The attempt after one round from memory. -/
def next (a : Attempt LocalEngine MemoryStore) (items : List MissingRecord) :
    Attempt LocalEngine MemoryStore where
  left := a.left - 1
  request := a.request.holding (a.store.supply a.request.materializations items)
  engine := a.engine
  store := { a.store with loads := a.store.loads + (MissingRecord.readsByUnit items).size }

end Attempt

namespace Coordinator

variable {maxRounds : Nat} {occasion : Nat → Occasion} {a b : Attempt LocalEngine MemoryStore}

/-- A round takes place exactly if records are missing and a round is left. -/
theorem inMemory_round_iff :
    (inMemory maxRounds).Round occasion a b ↔
      ∃ s items, a.left = b.left + 1 ∧ a.engine.snapshot = some s ∧
        FeatureFlags.resolve s a.engine.config a.request (occasion a.left) =
          .ok (.missing items) ∧
        b = a.next items := by
  constructor
  · rintro ⟨hstrategy, hmissing, hload⟩
    obtain ⟨rfl, s, hs, hresolve⟩ := LocalEngine.resolve_eq_missing_iff.mp hmissing
    cases hstrategy
    rw [RecordStore.loadMissing_memory] at hload
    cases hload
    exact ⟨s, _, rfl, hs, hresolve, rfl⟩
  · obtain ⟨left, request, e, t⟩ := a
    rintro ⟨s, items, hleft, hs, hresolve, rfl⟩
    obtain ⟨n, rfl⟩ : ∃ n, left = n + 1 := ⟨_, hleft⟩
    exact .intro rfl (LocalEngine.resolve_eq_missing_iff.mpr ⟨rfl, s, hs, hresolve⟩)
      (RecordStore.loadMissing_memory request items t)

/-- Where records are missing and a round is left, it leads to one attempt. -/
theorem round_iff_eq_next {s : Snapshot} (hs : a.engine.snapshot = some s) (hleft : 0 < a.left)
    {items : List MissingRecord}
    (h : FeatureFlags.resolve s a.engine.config a.request (occasion a.left) =
      .ok (.missing items)) :
    (inMemory maxRounds).Round occasion a b ↔ b = a.next items := by
  rw [inMemory_round_iff]
  constructor
  · rintro ⟨s', items', -, hs', h', rfl⟩
    rw [hs] at hs'
    cases hs'
    rw [h] at h'
    cases h'
    rfl
  · rintro rfl
    exact ⟨s, items, (Nat.sub_add_cancel hleft).symm, hs, h, rfl⟩

/-- What is at hand stays at hand. -/
theorem Round.le (h : (inMemory maxRounds).Round occasion a b) :
    a.request.materializations ≤ b.request.materializations := by
  obtain ⟨s, items, -, -, hresolve, rfl⟩ := inMemory_round_iff.mp h
  exact a.store.le_supply (report_wellFormed hresolve).2.2

end Coordinator

end FeatureFlags
