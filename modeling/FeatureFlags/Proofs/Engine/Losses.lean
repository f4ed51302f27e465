import FeatureFlags.Proofs.Engine.Local

/-!
# What a rotator loses

The logs of a rotator leave it by three doors: rotations, flushes, and the engine that answers. To
see that nothing is lost on the way, books are kept on the engines (`Engine.Journal`): what each of
them has noted and not handed over. Any engine may be kept books on that keeps its log when it
fails to hand it over; it may refuse snapshots and flushes as it likes.

Entries are lost in two ways (`Rotator.Turn.lost`). A fresh engine takes over before the engine
that it replaces is asked for its log, so if that one refuses, its log is dropped with it. And what
is kept of retired engines is given up before the current one is asked, so it is lost if that one
refuses. `Rotator.failures_accounted`: a failure loses nothing exactly if it is neither of the two,
and all that is noted is handed over or lost, each entry once.
-/

namespace FeatureFlags

namespace Log

/-- The logs one after the other. -/
def all (logs : List Log) : Log := logs.foldr (· ++ ·) ∅

@[simp] theorem all_nil : all [] = ∅ := rfl

@[simp] theorem all_cons (l : Log) (rest : List Log) : all (l :: rest) = l ++ all rest := rfl

/-- The same has been done, in whatever order. -/
structure Perm (a b : Log) : Prop where
  resolves : a.resolves.Perm b.resolves
  assignments : a.assignments.Perm b.assignments

namespace Perm

variable {a b c d : Log}

theorem refl (a : Log) : Perm a a := ⟨.refl _, .refl _⟩

theorem of_eq (h : a = b) : Perm a b := h ▸ refl a

theorem symm (h : Perm a b) : Perm b a := ⟨h.1.symm, h.2.symm⟩

theorem trans (h : Perm a b) (h' : Perm b c) : Perm a c := ⟨h.1.trans h'.1, h.2.trans h'.2⟩

theorem append (h : Perm a b) (h' : Perm c d) : Perm (a ++ c) (b ++ d) :=
  ⟨h.1.append h'.1, h.2.append h'.2⟩

theorem append_comm (a b : Log) : Perm (a ++ b) (b ++ a) :=
  ⟨List.perm_append_comm, List.perm_append_comm⟩

instance : Trans Perm Perm Perm := ⟨trans⟩

/-- Two accounts, of which the second one starts with the balance of the first. -/
theorem chain {old done handed balance lost done' handed' balance' lost' : Log}
    (first : Perm (handed ++ balance ++ lost) (old ++ done))
    (second : Perm (handed' ++ balance' ++ lost') (balance ++ done')) :
    Perm (handed ++ handed' ++ balance' ++ (lost ++ lost')) (old ++ (done ++ done')) :=
  calc Perm (handed ++ handed' ++ balance' ++ (lost ++ lost'))
        (handed ++ handed' ++ balance' ++ (lost' ++ lost)) :=
        append (refl _) (append_comm lost lost')
    _ = handed ++ (handed' ++ balance' ++ lost') ++ lost := by simp only [append_assoc]
    Perm _ (handed ++ (balance ++ done') ++ lost) := append (append (refl _) second) (refl _)
    _ = handed ++ balance ++ (done' ++ lost) := by simp only [append_assoc]
    Perm _ (handed ++ balance ++ (lost ++ done')) := append (refl _) (append_comm done' lost)
    _ = handed ++ balance ++ lost ++ done' := by simp only [append_assoc]
    Perm _ (old ++ done ++ done') := append first (refl _)
    _ = old ++ (done ++ done') := append_assoc old done done'

/-- What comes on top of all that has been done is nothing. -/
theorem eq_empty_of_append (h : Perm (a ++ b) a) : b = ∅ := by
  have hresolves := h.resolves.length_eq
  have hassignments := h.assignments.length_eq
  rw [resolves_append, List.length_append] at hresolves
  rw [assignments_append, List.length_append] at hassignments
  ext1
  · exact List.eq_nil_of_length_eq_zero (by omega)
  · exact List.eq_nil_of_length_eq_zero (by omega)

end Perm

end Log

/-! ## Books on engines -/

/-- Books on an engine: what it has noted and not handed over. An engine that fails to hand over
its log keeps it. -/
structure Engine.Journal {σ : Type} (engine : Engine σ) where
  /-- What the engine has noted and not handed over. -/
  pending : σ → Log
  /-- What the engine notes of a request. -/
  resolved : ResolveRequest → Occasion → σ → Log
  /-- What the engine notes of a report. -/
  applied : ApplyRequest → σ → Log
  load : ∀ delivery e, pending (engine.load delivery e).2 = pending e
  resolve : ∀ request occasion e,
    pending (engine.resolve request occasion e).2 = pending e ++ resolved request occasion e
  apply : ∀ request e, pending (engine.apply request e).2 = pending e ++ applied request e
  flush_ok : ∀ {e log e'}, engine.flush e = (.ok log, e') → log = pending e ∧ pending e' = ∅
  flush_error : ∀ {e cause e'}, engine.flush e = (.error cause, e') → pending e' = pending e

/-- The log is handed over, or is still to be handed over. -/
theorem Engine.Journal.flush_cases {σ : Type} {engine : Engine σ} (j : engine.Journal) (e : σ) :
    (∃ e', engine.flush e = (.ok (j.pending e), e') ∧ j.pending e' = ∅) ∨
    (∃ cause e', engine.flush e = (.error cause, e') ∧ j.pending e' = j.pending e) := by
  cases h : engine.flush e with
  | mk answer e' =>
    cases answer with
    | ok log =>
      obtain ⟨rfl, hempty⟩ := j.flush_ok h
      exact .inl ⟨e', rfl, hempty⟩
    | error cause => exact .inr ⟨cause, e', rfl, j.flush_error h⟩

/-- The configuration that a rotator is told to take. -/
def RotatorCommand.delivery? : RotatorCommand → Option Delivery
  | rotate delivery => some delivery
  | asEngine (.load delivery) => some delivery
  | _ => none

namespace Rotator

variable {σ : Type} {engine : Engine σ} (j : engine.Journal)

/-- What has been done and was not handed over: what is kept of retired engines, and what the
current one has noted. -/
def pending (r : Rotator σ) : Log := r.retired ++ j.pending r.current

namespace Turn

/-- What is noted of the command. -/
def noted (t : Turn σ) : Log :=
  match t.command with
  | .asEngine (.resolve request occasion) => j.resolved request occasion t.before.current
  | .asEngine (.apply request) => j.applied request t.before.current
  | _ => ∅

variable (engine) in
/-- Whether a fresh engine takes the place of the current one. -/
def swaps (t : Turn σ) : Bool :=
  t.command.delivery?.any fun delivery => (engine.load delivery t.fresh).1.isOk

variable (engine) in
/-- Whether the current engine would fail to hand over its log. -/
def refusesFlush (t : Turn σ) : Bool := !(engine.flush t.before.current).1.isOk

/-- What nobody will be handed over after the command. -/
def lost (t : Turn σ) : Log :=
  match t.command with
  | .asEngine .flush => bif t.refusesFlush engine then t.before.retired else ∅
  | _ => bif t.swaps engine && t.refusesFlush engine then j.pending t.before.current else ∅

/-- The command leaves the rotator as it was: the same engine answers, which may have been asked for
its log in vain, and all that was to be handed over still is. -/
structure LosesNothing (t : Turn σ) : Prop where
  generation : (t.after engine).generation = t.before.generation
  current : (t.after engine).current = t.before.current ∨
    (t.after engine).current = (engine.flush t.before.current).2
  pending : (Rotator.pending j (t.after engine)).Perm (Rotator.pending j t.before)

end Turn

/-! ## One command -/

/-- What a command can do to a rotator: the log that is handed over, whether a failure is told, the
state after, whether a fresh engine took over, what is noted and what is lost. -/
inductive Effect (r : Rotator σ) : Log → Bool → Rotator σ → Bool → Log → Log → Prop
  /-- The fresh engine refuses the snapshot. -/
  | refused : Effect r ∅ true r false ∅ ∅
  /-- The log of the retired engine is handed over. -/
  | rotated {next : σ} (hnext : j.pending next = ∅) : Effect r (j.pending r.current) false
      { r with current := next, generation := r.generation + 1 } true ∅ ∅
  /-- The log of the retired engine is kept. -/
  | kept {next : σ} (hnext : j.pending next = ∅) : Effect r ∅ false
      { current := next, generation := r.generation + 1,
        retired := r.retired ++ j.pending r.current } true ∅ ∅
  /-- The retired engine refuses to hand over its log. -/
  | dropped {next : σ} (hnext : j.pending next = ∅) : Effect r ∅ true
      { r with current := next, generation := r.generation + 1 } true ∅ (j.pending r.current)
  /-- A request or a report is answered. -/
  | answered {e : σ} {done : Log} (he : j.pending e = j.pending r.current ++ done) :
      Effect r ∅ false { r with current := e } false done ∅
  /-- All logs are handed over. -/
  | flushed {e : σ} (he : j.pending e = ∅) :
      Effect r (pending j r) false { r with current := e, retired := ∅ } false ∅ ∅
  /-- The current engine refuses to hand over its log, and what was kept is given up. -/
  | givenUp (he : j.pending (engine.flush r.current).2 = j.pending r.current) :
      Effect r ∅ true { r with current := (engine.flush r.current).2, retired := ∅ } false ∅
        r.retired

section Commands

variable {j} {t : Turn σ}

/-- A rotation is refused with the snapshot, or a fresh engine takes over, whatever becomes of the
log of the current one. -/
theorem rotate_cases (engine : Engine σ) (fresh : σ) (delivery : Delivery) (r : Rotator σ) :
    (∃ cause, (engine.load delivery fresh).1 = .error cause ∧
      rotate engine fresh delivery r = (.error cause, r)) ∨
    ((engine.load delivery fresh).1 = .ok () ∧ rotate engine fresh delivery r =
      ((engine.flush r.current).1,
        { r with current := (engine.load delivery fresh).2, generation := r.generation + 1 })) := by
  rw [rotate]
  cases engine.load delivery fresh with
  | mk answer next =>
    cases answer with
    | error cause => exact .inl ⟨cause, rfl, rfl⟩
    | ok _ => exact .inr ⟨rfl, rfl⟩

/-- **A command has one of these effects**. -/
theorem Turn.effect (hfresh : j.pending t.fresh = ∅) :
    Effect j t.before (t.reply engine).handedOver (t.reply engine).tellsFailure (t.after engine)
      (t.swaps engine) (t.noted j) (t.lost j) := by
  obtain ⟨fresh, command, r⟩ := t
  have hnext (delivery : Delivery) : j.pending (engine.load delivery fresh).2 = ∅ :=
    (j.load delivery fresh).trans hfresh
  -- whichever way a snapshot is delivered, it is refused, or the old log is asked for too late
  cases command with
  | rotate delivery =>
    simp only [reply, after, perform, swaps, noted, lost, refusesFlush, RotatorCommand.delivery?,
      Option.any]
    rcases rotate_cases engine fresh delivery r with ⟨cause, hload, hrotate⟩ | ⟨hload, hrotate⟩
    · rw [hload, hrotate]
      exact .refused
    · rw [hload, hrotate]
      rcases j.flush_cases r.current with ⟨e, hflush, -⟩ | ⟨cause, e, hflush, -⟩
      · rw [hflush]
        exact .rotated (hnext delivery)
      · rw [hflush]
        exact .dropped (hnext delivery)
  | asEngine command =>
    cases command with
    | load delivery =>
      simp only [reply, after, perform, Engine.perform, toEngine, Rotator.load, swaps, noted, lost,
        refusesFlush, RotatorCommand.delivery?, Option.any]
      rcases rotate_cases engine fresh delivery r with ⟨cause, hload, hrotate⟩ | ⟨hload, hrotate⟩
      · rw [hload, hrotate]
        exact .refused
      · rw [hload, hrotate]
        rcases j.flush_cases r.current with ⟨e, hflush, -⟩ | ⟨cause, e, hflush, -⟩
        · rw [hflush]
          exact .kept (hnext delivery)
        · rw [hflush]
          exact .dropped (hnext delivery)
    | resolve request occasion => exact .answered (j.resolve request occasion r.current)
    | apply request => exact .answered (j.apply request r.current)
    | flush =>
      have hperform : perform engine fresh (.asEngine .flush) r =
          (.asEngine (.flushed ((engine.flush r.current).1.map (r.retired ++ ·))),
            { r with current := (engine.flush r.current).2, retired := ∅ }) := rfl
      simp only [reply, after, hperform, swaps, noted, lost, refusesFlush, RotatorCommand.delivery?,
        Option.any]
      rcases j.flush_cases r.current with ⟨e, hflush, hpending⟩ | ⟨cause, e, hflush, hpending⟩
      · rw [hflush]
        exact .flushed hpending
      · have hkeeps : j.pending (engine.flush r.current).2 = j.pending r.current := by
          rw [hflush]
          exact hpending
        have hgivenUp := Effect.givenUp hkeeps
        rw [hflush] at hgivenUp ⊢
        exact hgivenUp

end Commands

namespace Effect

variable {j} {r r' : Rotator σ} {handedOver noted lost : Log} {fails swaps : Bool}

theorem balance (h : Effect j r handedOver fails r' swaps noted lost) :
    (handedOver ++ pending j r' ++ lost).Perm (pending j r ++ noted) := by
  cases h with
  | refused => exact .of_eq (by simp)
  | rotated hnext =>
    -- the log of the retired engine overtakes what was kept before
    simp only [pending, hnext, Log.append_empty]
    exact .append_comm _ _
  | kept hnext => exact .of_eq (by simp [pending, hnext])
  | dropped hnext => exact .of_eq (by simp [pending, hnext])
  | answered he => exact .of_eq (by simp [pending, he, Log.append_assoc])
  | flushed he => exact .of_eq (by simp [pending, he])
  | givenUp he =>
    simp only [pending, he, Log.append_empty, Log.empty_append]
    exact .append_comm _ _

theorem generation (h : Effect j r handedOver fails r' swaps noted lost) :
    r'.generation = r.generation + swaps.toNat := by
  cases h <;> rfl

/-- Nothing is handed over or noted when a failure is told. -/
theorem of_failure (h : Effect j r handedOver true r' swaps noted lost) :
    handedOver = ∅ ∧ noted = ∅ ∧ (swaps = false →
      r'.current = r.current ∨ r'.current = (engine.flush r.current).2) := by
  cases h with
  | refused => exact ⟨rfl, rfl, fun _ => .inl rfl⟩
  | dropped hnext => exact ⟨rfl, rfl, nofun⟩
  | givenUp he => exact ⟨rfl, rfl, fun _ => .inr rfl⟩

end Effect

/-- The log of an engine that is retired is lost if it is refused. -/
theorem Turn.lost_of_swaps {j : engine.Journal} {t : Turn σ} (hswaps : t.swaps engine = true)
    (hrefuses : t.refusesFlush engine = true) : t.lost j = j.pending t.before.current := by
  rw [lost, hswaps, hrefuses]
  split
  · next hcommand =>
    rw [swaps, hcommand] at hswaps
    cases hswaps
  · rfl

/-- A failure loses nothing exactly if no fresh engine took over and nothing was given up. -/
theorem Turn.losesNothing_iff {j : engine.Journal} {t : Turn σ} (hfresh : j.pending t.fresh = ∅)
    (hfails : (t.reply engine).tellsFailure = true) :
    t.LosesNothing j ↔ t.swaps engine = false ∧ t.lost j = ∅ := by
  have heffect := t.effect hfresh
  rw [hfails] at heffect
  obtain ⟨hhanded, hnoted, hcurrent⟩ := heffect.of_failure
  have hgeneration := heffect.generation
  have hbalance := heffect.balance
  rw [hhanded, hnoted, Log.empty_append, Log.append_empty] at hbalance
  constructor
  · -- a swap shows in the generation, a loss in what is to be handed over
    intro h
    refine ⟨?_, Log.Perm.eq_empty_of_append (hbalance.trans h.pending.symm)⟩
    rw [h.generation] at hgeneration
    cases hswaps : t.swaps engine with
    | false => rfl
    | true =>
      rw [hswaps, Bool.toNat_true] at hgeneration
      omega
  · rintro ⟨hswaps, hlost⟩
    rw [hswaps] at hgeneration
    rw [hlost, Log.append_empty] at hbalance
    exact { generation := hgeneration, current := hcurrent hswaps, pending := hbalance }

/-! ## Runs -/

section Runs

variable {j} {fresh : Nat → σ}

theorem exists_fresh_of_mem_turns {commands : List RotatorCommand} {r : Rotator σ} {t : Turn σ}
    (h : t ∈ turns engine fresh commands r) : ∃ n, t.fresh = fresh n := by
  induction commands generalizing fresh r with
  | nil => cases h
  | cons command rest ih =>
    rcases List.mem_cons.mp h with rfl | h
    · exact ⟨0, rfl⟩
    · obtain ⟨n, hn⟩ := ih h
      exact ⟨n + 1, hn⟩

/-- The books of a run balance: by induction on the commands, the fresh engines with them. -/
theorem run_balance (hfresh : ∀ n, j.pending (fresh n) = ∅) (commands : List RotatorCommand)
    (r : Rotator σ) :
    (Log.all ((turns engine fresh commands r).map fun t => (t.reply engine).handedOver) ++
        pending j (run engine fresh commands r) ++
        Log.all ((turns engine fresh commands r).map (·.lost j))).Perm
      (pending j r ++ Log.all ((turns engine fresh commands r).map (·.noted j))) := by
  induction commands generalizing fresh r with
  | nil => exact .of_eq (by simp [turns, run])
  | cons command rest ih =>
    simp only [turns, run, List.map_cons, Log.all_cons]
    exact .chain (Turn.effect (t := { fresh := fresh 0, command, before := r }) (hfresh 0)).balance
      (ih (fun n => hfresh (n + 1)) _)

/-- A flush that succeeds hands over all that is to be handed over. -/
theorem eq_pending_of_flush {r : Rotator σ} {log : Log} (h : (flush engine r).1 = .ok log) :
    log = pending j r := by
  have hflush : (flush engine r).1 = (engine.flush r.current).1.map (r.retired ++ ·) := rfl
  rw [hflush] at h
  rcases j.flush_cases r.current with ⟨e, hcurrent, -⟩ | ⟨cause, e, hcurrent, -⟩
  · rw [hcurrent] at h
    exact (Except.ok.inj h).symm
  · rw [hcurrent] at h
    cases h

/-- **Failures are accounted for**. A rotation, a load or a flush that fails loses nothing exactly
if no fresh engine took over and nothing was given up. When a flush succeeds in the end, all that
was done has been handed over or was lost, each entry once. -/
theorem failures_accounted (j : engine.Journal) {fresh : Nat → σ}
    (hfresh : ∀ n, j.pending (fresh n) = ∅) (commands : List RotatorCommand) (r : Rotator σ) :
    (∀ t ∈ turns engine fresh commands r, (t.reply engine).tellsFailure = true →
      (t.LosesNothing j ↔ t.swaps engine = false ∧ t.lost j = ∅)) ∧
    ∀ log, (flush engine (run engine fresh commands r)).1 = .ok log →
      (Log.all ((turns engine fresh commands r).map fun t => (t.reply engine).handedOver) ++ log ++
        Log.all ((turns engine fresh commands r).map (·.lost j))).Perm
      (pending j r ++ Log.all ((turns engine fresh commands r).map (·.noted j))) := by
  constructor
  · intro t ht hfails
    obtain ⟨n, hn⟩ := exists_fresh_of_mem_turns ht
    exact t.losesNothing_iff (by rw [hn]; exact hfresh n) hfails
  · intro log hlog
    rw [eq_pending_of_flush (j := j) hlog]
    exact run_balance hfresh commands r

end Runs

end Rotator

/-! ## Engines that refuse to hand over their log -/

namespace LocalEngine

/-- The books on a local engine are its log. -/
def journal : engine.Journal where
  pending := log
  resolved request occasion := noted (.resolve request occasion)
  applied request := noted (.apply request)
  load delivery e := (load_keeps delivery e).1
  resolve request occasion e := congrArg (·.2.log) (resolve_eq request occasion e)
  apply request e := congrArg (·.2.log) (apply_eq request e)
  flush_ok h := by
    cases h
    exact ⟨rfl, rfl⟩
  flush_error h := by cases h

end LocalEngine

/-- A local engine that refuses to hand over its log for some times. -/
structure Reluctant where
  inner : LocalEngine
  refusals : Nat

namespace Reluctant

/-- An engine without a snapshot, with the default configuration. -/
def start (refusals : Nat) : Reluctant := { inner := .start .default, refusals }

/-- Why the log is not handed over. -/
def reluctance : EngineError := .unavailable "not now"

/-- Let the local engine answer. -/
def delegate {α : Type} (call : LocalEngine → α × LocalEngine) (e : Reluctant) : α × Reluctant :=
  Prod.map id ({ e with inner := · }) (call e.inner)

def flush (e : Reluctant) : Except EngineError Log × Reluctant :=
  match e.refusals with
  | 0 => delegate LocalEngine.flush e
  | n + 1 => (.error reluctance, { e with refusals := n })

def engine : Engine Reluctant :=
  { load := fun delivery => delegate (LocalEngine.load delivery)
    resolve := fun request occasion => delegate (LocalEngine.resolve request occasion)
    apply := fun request => delegate (LocalEngine.apply request)
    flush }

/-- A log that is not handed over is kept. -/
def journal : engine.Journal where
  pending e := e.inner.log
  resolved request occasion e := e.inner.noted (.resolve request occasion)
  applied request e := e.inner.noted (.apply request)
  load delivery e := LocalEngine.journal.load delivery e.inner
  resolve request occasion e := LocalEngine.journal.resolve request occasion e.inner
  apply request e := LocalEngine.journal.apply request e.inner
  flush_ok {e log e'} h := by
    obtain ⟨inner, refusals⟩ := e
    cases refusals <;> cases h
    exact ⟨rfl, rfl⟩
  flush_error {e cause e'} h := by
    obtain ⟨inner, refusals⟩ := e
    cases refusals <;> cases h
    rfl

end Reluctant

namespace Rollout

/-- A rotator that answers from the configuration by an engine that refuses so many flushes. -/
def reluctantly (refusals : Nat) (log : Log) : Rotator Reluctant :=
  { current :=
      { inner := { config := .default, snapshot := some (besideSnapshot []), log }, refusals }
    generation := 0
    retired := ∅ }

theorem perform_visit (fresh : Reluctant) (resolveId : String) (refusals : Nat) (log : Log) :
    ∃ response updates, Rotator.perform Reluctant.engine fresh (.asEngine (visitAs resolveId))
        (reluctantly refusals log) =
      (.asEngine (.resolved (.ok (.resolved response updates))),
        reluctantly refusals (log ++ visitLog resolveId)) := by
  obtain ⟨response, updates, hanswer, -⟩ := exists_visit resolveId
  refine ⟨response, updates, ?_⟩
  have hresolve : LocalEngine.resolve (asking ["banner"]) (visitedAt resolveId)
      (reluctantly refusals log).current.inner = (.ok (.resolved response updates),
        (reluctantly refusals (log ++ visitLog resolveId)).current.inner) := by
    rw [LocalEngine.resolve_eq]
    exact congrArg (·, _) hanswer
  simp only [visitAs, Rotator.perform, Engine.perform, Rotator.toEngine, Rotator.resolve,
    Reluctant.engine, Reluctant.delegate, hresolve]
  rfl

/-- The visitor is shown the banner, and a configuration is delivered again. -/
def redelivery (delivery : Delivery) : List RotatorCommand :=
  [.asEngine (visitAs "morning"), .rotate delivery, .asEngine .flush]

/-- The delivery, with the visit noted. -/
def lateRefusal (delivery : Delivery) : Rotator.Turn Reluctant where
  fresh := .start 0
  command := .rotate delivery
  before := reluctantly 1 (∅ ++ visitLog "morning")

theorem lateRefusal_mem_turns (delivery : Delivery) : lateRefusal delivery ∈
    Rotator.turns Reluctant.engine (fun _ => .start 0) (redelivery delivery) (reluctantly 1 ∅) := by
  obtain ⟨response, updates, hvisit⟩ := perform_visit (.start 0) "morning" 1 ∅
  simp only [redelivery, Rotator.turns, hvisit]
  exact List.mem_cons_of_mem _ List.mem_cons_self

section Deliveries

-- the delivery is a variable here, so that no proof comes to read the configuration anew
variable {delivery : Delivery} (hs : Snapshot.ofDelivery delivery = .ok (besideSnapshot []))
include hs

theorem load_reluctantly (refusals : Nat) : Reluctant.engine.load delivery (.start refusals) =
    (.ok (), (reluctantly refusals ∅).current) := by
  show Reluctant.delegate (LocalEngine.load delivery) (.start refusals) = _
  rw [Reluctant.delegate, LocalEngine.load_eq_ok hs]
  rfl

theorem start_reluctantly (refusals : Nat) :
    Rotator.start Reluctant.engine (.start refusals) delivery = .ok (reluctantly refusals ∅) := by
  rw [Rotator.start, load_reluctantly hs]
  rfl

/-- The configuration is delivered again, and the engine that it retires refuses its flush. -/
theorem rotate_reluctantly (log : Log) :
    Rotator.perform Reluctant.engine (.start 0) (.rotate delivery) (reluctantly 1 log) =
      (.rotated (.error Reluctant.reluctance), { reluctantly 0 ∅ with generation := 1 }) := by
  rw [Rotator.perform, Rotator.rotate, load_reluctantly hs]
  rfl

theorem run_redelivery : ∃ response updates,
    Rotator.replies Reluctant.engine (fun _ => .start 0) (redelivery delivery) (reluctantly 1 ∅) =
      [.asEngine (.resolved (.ok (.resolved response updates))),
        .rotated (.error Reluctant.reluctance), .asEngine (.flushed (.ok ∅))] ∧
    (Rotator.run Reluctant.engine (fun _ => .start 0) (redelivery delivery)
      (reluctantly 1 ∅)).generation = 1 := by
  obtain ⟨response, updates, hvisit⟩ := perform_visit (.start 0) "morning" 1 ∅
  refine ⟨response, updates, ?_, ?_⟩
  · simp only [Rotator.replies, redelivery, Rotator.turns, List.map_cons, List.map_nil,
      Rotator.Turn.reply, hvisit, rotate_reluctantly hs]
    rfl
  · simp only [redelivery, Rotator.run, hvisit, rotate_reluctantly hs]
    rfl

theorem reply_lateRefusal : (lateRefusal delivery).reply Reluctant.engine =
    .rotated (.error Reluctant.reluctance) := by
  simp only [Rotator.Turn.reply, lateRefusal, rotate_reluctantly hs]

theorem swaps_lateRefusal : (lateRefusal delivery).swaps Reluctant.engine = true := by
  simp only [Rotator.Turn.swaps, lateRefusal, RotatorCommand.delivery?, Option.any,
    load_reluctantly hs]
  rfl

end Deliveries

/-- The rotation is refused, yet a fresh engine answers, and the visit is not handed over. -/
theorem visit_lost : ∃ response updates,
    Rotator.start Reluctant.engine (.start 1) keptText = .ok (reluctantly 1 ∅) ∧
    Rotator.replies Reluctant.engine (fun _ => .start 0) (redelivery keptText) (reluctantly 1 ∅) =
      [.asEngine (.resolved (.ok (.resolved response updates))),
        .rotated (.error Reluctant.reluctance), .asEngine (.flushed (.ok ∅))] ∧
    (Rotator.run Reluctant.engine (fun _ => .start 0) (redelivery keptText)
      (reluctantly 1 ∅)).generation = 1 := by
  obtain ⟨response, updates, hrun⟩ := run_redelivery ofDelivery_keptText
  exact ⟨response, updates, start_reluctantly ofDelivery_keptText 1, hrun⟩

/-- The rotation fails and loses something, that is, the visit. -/
theorem lateRefusal_accounted :
    (∀ n : Nat, Reluctant.journal.pending ((fun _ => Reluctant.start 0) n) = ∅) ∧
    lateRefusal keptText ∈ Rotator.turns Reluctant.engine (fun _ => .start 0)
      (redelivery keptText) (reluctantly 1 ∅) ∧
    ((lateRefusal keptText).reply Reluctant.engine).tellsFailure = true ∧
    ¬ (lateRefusal keptText).LosesNothing Reluctant.journal ∧
    ((lateRefusal keptText).lost Reluctant.journal).resolves.map (·.resolveId) = ["morning"] := by
  have hfresh (n : Nat) : Reluctant.journal.pending ((fun _ => Reluctant.start 0) n) = ∅ := rfl
  have hfails : ((lateRefusal keptText).reply Reluctant.engine).tellsFailure = true := by
    rw [reply_lateRefusal ofDelivery_keptText]
    rfl
  have hswaps := swaps_lateRefusal ofDelivery_keptText
  obtain ⟨-, -, -, hvisit⟩ := exists_visit "morning"
  refine ⟨hfresh, lateRefusal_mem_turns _, hfails, ?_, ?_⟩
  · intro h
    have hsafe := (Rotator.failures_accounted Reluctant.journal hfresh (redelivery keptText) _).1 _
      (lateRefusal_mem_turns _) hfails
    rw [(hsafe.mp h).1] at hswaps
    cases hswaps
  · rw [Rotator.Turn.lost_of_swaps hswaps rfl]
    exact hvisit

end Rollout

end FeatureFlags
