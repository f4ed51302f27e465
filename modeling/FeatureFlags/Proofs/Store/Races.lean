import FeatureFlags.Proofs.Store.Cache
import Mathlib.Logic.Function.Basic

/-!
# Loads and saves that race

Calls of a cached store may overlap. A load looks into the cache, reads the store behind it, and
puts what was read into the cache; a save merges its records into the store behind the cache, and
drops them from the cache. Each of these steps is taken at once, and between any two of them the
steps of other calls may be taken (`SharedStore.Step`).

While a save has been merged and its records have not been dropped, the cache may be out of date for
them (`SharedStore.HalfSaved`). For all other records it tells the truth, and so does every load that
is under way and may still put something into the cache (`SharedStore.Coherent`). The generation of
the cache is what carries this: when a save drops its records, the loads that have begun before can
no longer put anything into the cache.

`SharedStore.races_coherent` draws the conclusions: the cache is right, and so is every load that
begins when all saves of a record have come to an end.
-/

namespace FeatureFlags

/-- A call that is under way, between two of its steps. -/
inductive StoreTask where
  /-- A load has looked into the cache. -/
  | reading (load : PendingLoad)
  /-- A load has read the store behind the cache. -/
  | settling (load : PendingLoad) (loaded : UnitRecords)
  /-- A save has merged the records of these names into the store behind the cache. -/
  | merged (unit : String) (names : List String)

/-- A cached store over memory with the calls that are under way, by number. -/
structure SharedStore where
  store : CachedStore MemoryStore
  tasks : Nat → Option StoreTask

/-- What is seen of a step. -/
inductive StoreStep where
  /-- A load finds everything in the cache, and comes to an end. -/
  | found (unit : String) (reads : Reads) (records : UnitRecords)
  /-- A load looks into the cache, and has to go on. -/
  | begun (task : Nat) (unit : String) (reads : Reads)
  /-- A load reads the store behind the cache. -/
  | read (task : Nat)
  /-- A load comes to an end. -/
  | settled (task : Nat) (records : UnitRecords)
  /-- A save merges its records into the store behind the cache. -/
  | merged (task : Nat) (unit : String) (records : UnitRecords)
  /-- A save comes to an end. -/
  | invalidated (task : Nat)
  /-- The cache is cleared. -/
  | cleared

/-- Whether the step merges something into the record. -/
def StoreStep.Merges (key : RecordKey) : StoreStep → Prop
  | merged _ unit records => key.1 = unit ∧ key.2 ∈ records.keys
  | _ => False

namespace SharedStore

open Function (update)

/-- The store with nothing in its cache and no call under way. -/
def start (config : CacheConfig) (t : MemoryStore)
    (walks : Nat → Dict.Walk String := fun _ => .ascending) : SharedStore :=
  { store := .ofBackend config t walks, tasks := fun _ => none }

/-- What the store behind the cache says about the record. -/
def truth (r : SharedStore) (key : RecordKey) : UnitRecord :=
  r.store.backend.recordOf key.1 key.2

/-- A save of the record has been merged, and has not come to an end. -/
def HalfSaved (r : SharedStore) (key : RecordKey) : Prop :=
  ∃ task unit names, r.tasks task = some (.merged unit names) ∧ key.1 = unit ∧ key.2 ∈ names

/-- One step of a call. -/
inductive Step (r : SharedStore) : StoreStep → SharedStore → Prop where
  | found {unit : String} {reads : Reads} {records : UnitRecords}
    (hstart : r.store.beginLoad unit reads = .done records) :
    Step r (.found unit reads records) r
  | begun {task : Nat} {unit : String} {reads : Reads} {p : PendingLoad}
    (hfree : r.tasks task = none) (hstart : r.store.beginLoad unit reads = .pending p) :
    Step r (.begun task unit reads)
      { r with tasks := update r.tasks task (some (.reading p)) }
  | read {task : Nat} {p : PendingLoad} (htask : r.tasks task = some (.reading p)) :
    Step r (.read task)
      { store := { r.store with
          backend := (MemoryStore.load p.unit p.missed r.store.backend).2 }
        tasks := update r.tasks task
          (some (.settling p (MemoryStore.load p.unit p.missed r.store.backend).1)) }
  | settled {task : Nat} {p : PendingLoad} {loaded : UnitRecords}
    (htask : r.tasks task = some (.settling p loaded)) :
    Step r (.settled task (CachedStore.endLoad p loaded r.store).1)
      { store := (CachedStore.endLoad p loaded r.store).2, tasks := update r.tasks task none }
  | merged {task : Nat} {unit : String} {records : UnitRecords} (hfree : r.tasks task = none) :
    Step r (.merged task unit records)
      { store := { r.store with backend := r.store.backend.save unit records }
        tasks := update r.tasks task (some (.merged unit records.keys)) }
  | invalidated {task : Nat} {unit : String} {names : List String}
    (htask : r.tasks task = some (.merged unit names)) :
    Step r (.invalidated task)
      { store := { r.store with cache := r.store.cache.map (·.invalidate unit names) }
        tasks := update r.tasks task none }
  | cleared : Step r .cleared { r with store := r.store.clear }

/-- Steps one after the other. -/
inductive Run : SharedStore → List StoreStep → SharedStore → Prop where
  | nil {r : SharedStore} : Run r [] r
  | cons {r r' r'' : SharedStore} {step : StoreStep} {rest : List StoreStep}
    (hstep : Step r step r') (hrest : Run r' rest r'') : Run r (step :: rest) r''

section Runs

variable {r r' : SharedStore} {step : StoreStep} {steps : List StoreStep} {key : RecordKey}
  {task : Nat}

theorem exists_of_run_append {before after : List StoreStep} (h : Run r (before ++ after) r') :
    ∃ middle, Run r before middle ∧ Run middle after r' := by
  induction before generalizing r with
  | nil => exact ⟨r, .nil, h⟩
  | cons step rest ih =>
    obtain _ | ⟨hstep, hrest⟩ := h
    obtain ⟨middle, hbefore, hafter⟩ := ih hrest
    exact ⟨middle, .cons hstep hbefore, hafter⟩

/-- What every step preserves, every run does. -/
theorem Run.preserves (P : SharedStore → Prop) (allowed : StoreStep → Prop)
    (hpreserved : ∀ {r step r'}, Step r step r' → allowed step → P r → P r')
    (h : Run r steps r') (hallowed : ∀ step ∈ steps, allowed step) (hr : P r) : P r' := by
  induction h with
  | nil => exact hr
  | cons hstep _ ih =>
    obtain ⟨hfirst, hrest⟩ := List.forall_mem_cons.mp hallowed
    exact ih hrest (hpreserved hstep hfirst hr)

/-! ## Calls that nothing interrupts -/

/-- The steps of a load, if nothing comes between them, are the load of the cached store. -/
theorem exists_run_load (r : SharedStore) (hfree : r.tasks task = none) (unit : String)
    (reads : Reads) :
    ∃ records steps,
      (CachedStore.load MemoryStore.store unit reads r.store).1 = .ok records ∧
      (steps = [.found unit reads records] ∨
        steps = [.begun task unit reads, .read task, .settled task records]) ∧
      Run r steps
        { r with store := (CachedStore.load MemoryStore.store unit reads r.store).2 } := by
  rw [CachedStore.load]
  cases hstart : r.store.beginLoad unit reads with
  | done records => exact ⟨records, _, rfl, .inl rfl, .cons (.found hstart) .nil⟩
  | pending p =>
    have hbegins := r.store.begins_beginLoad unit reads
    rw [hstart] at hbegins
    obtain rfl := hbegins.unit_eq
    let loaded := (MemoryStore.load p.unit p.missed r.store.backend).1
    have hreading : update r.tasks task (some (.reading p)) task = some (.reading p) :=
      Function.update_self ..
    have hsettling : update (update r.tasks task (some (.reading p))) task
        (some (.settling p loaded)) task = some (.settling p loaded) := Function.update_self ..
    -- the load leaves no trace among the calls that are under way
    have htasks : update (update (update r.tasks task (some (.reading p))) task
        (some (.settling p loaded))) task none = r.tasks := by
      rw [Function.update_idem, Function.update_idem, Function.update_eq_self_iff, hfree]
    refine ⟨_, _, rfl, .inr rfl, ?_⟩
    refine .cons (.begun hfree hstart) (.cons (.read hreading) (.cons (.settled hsettling) ?_))
    dsimp only
    rw [htasks]
    exact .nil

/-- So are the steps of a save. -/
theorem run_save (r : SharedStore) (hfree : r.tasks task = none) (unit : String)
    (records : UnitRecords) :
    Run r [.merged task unit records, .invalidated task]
      { r with store := (CachedStore.save MemoryStore.store unit records r.store).2 } := by
  have htasks : update (update r.tasks task (some (.merged unit records.keys))) task none =
      r.tasks := by
    rw [Function.update_idem, Function.update_eq_self_iff, hfree]
  have hmerged : update r.tasks task (some (.merged unit records.keys)) task =
      some (.merged unit records.keys) := Function.update_self ..
  refine .cons (.merged hfree) (.cons (.invalidated hmerged) ?_)
  rw [htasks]
  exact .nil

/-! ## What a step changes -/

theorem HalfSaved.update {s : CachedStore MemoryStore} {call? : Option StoreTask}
    (h : r.HalfSaved key)
    (hother : ∀ unit names, r.tasks task = some (.merged unit names) →
      ¬ (key.1 = unit ∧ key.2 ∈ names)) :
    HalfSaved { store := s, tasks := Function.update r.tasks task call? } key := by
  obtain ⟨id, unit, names, hid, hnamed⟩ := h
  have hne : id ≠ task := by
    rintro rfl
    exact hother unit names hid hnamed
  exact ⟨id, unit, names, (Function.update_of_ne hne ..).trans hid, hnamed⟩

theorem halfSaved_of_update {s : CachedStore MemoryStore} {call? : Option StoreTask}
    (h : HalfSaved { store := s, tasks := update r.tasks task call? } key) :
    r.HalfSaved key ∨
      ∃ unit names, call? = some (.merged unit names) ∧ key.1 = unit ∧ key.2 ∈ names := by
  obtain ⟨id, unit, names, hid, hnamed⟩ := h
  dsimp only at hid
  by_cases htask : id = task
  · subst htask
    rw [Function.update_self] at hid
    exact .inr ⟨unit, names, hid, hnamed⟩
  · rw [Function.update_of_ne htask] at hid
    exact .inl ⟨id, unit, names, hid, hnamed⟩

/-- Only a save that is merged makes a record half saved. -/
theorem Step.halfSaved_of (h : Step r step r') (hstep : ¬ step.Merges key)
    (hhalf : r'.HalfSaved key) : r.HalfSaved key := by
  cases h with
  | found => exact hhalf
  | cleared => exact hhalf
  | merged hfree =>
    rcases halfSaved_of_update hhalf with hhalf | ⟨unit, names, hnew, hnamed⟩
    · exact hhalf
    · cases hnew
      exact absurd hnamed hstep
  | _ =>
    rcases halfSaved_of_update hhalf with hhalf | ⟨unit, names, hnew, -⟩
    · exact hhalf
    · cases hnew

/-- Only a save that is merged changes a record. -/
theorem Step.truth_eq (h : Step r step r') (hstep : ¬ step.Merges key) :
    r'.truth key = r.truth key := by
  cases h with
  | merged => exact MemoryStore.recordOf_save_of_not_named hstep
  | settled => rw [truth, CachedStore.backend_endLoad, truth]
  | _ => rfl

/-- There is a cache from the start or never. -/
theorem Step.isSome_cache (h : Step r step r') :
    r'.store.cache.isSome = r.store.cache.isSome := by
  cases h with
  | settled =>
    rw [CachedStore.endLoad]
    cases hcache : r.store.cache with
    | none => exact congrArg Option.isSome hcache
    | some c => rfl
  | invalidated => exact Option.isSome_map
  | cleared => exact Option.isSome_map
  | _ => rfl

/-- While the generation of the cache stays, no save comes to an end, and what is not half saved
stays the same. -/
theorem Step.generation (h : Step r step r') {c' : RecordCache}
    (hc' : r'.store.cache = some c') : ∃ c, r.store.cache = some c ∧
      (c.generation < c'.generation ∨ c.generation = c'.generation ∧
        ∀ key, r'.HalfSaved key ∨ ¬ r.HalfSaved key ∧ r'.truth key = r.truth key) := by
  have hkept {s : CachedStore MemoryStore} {task : Nat} {call? : Option StoreTask}
      (hslot : ∀ unit names, r.tasks task ≠ some (.merged unit names)) (key : RecordKey) :
      HalfSaved { store := s, tasks := update r.tasks task call? } key ∨ ¬ r.HalfSaved key := by
    by_cases hhalf : r.HalfSaved key
    · exact .inl (hhalf.update fun unit names hmerged => absurd hmerged (hslot unit names))
    · exact .inr hhalf
  cases h with
  | found =>
    refine ⟨c', hc', .inr ⟨rfl, fun key => ?_⟩⟩
    exact (em (r.HalfSaved key)).imp_right fun hhalf => ⟨hhalf, rfl⟩
  | begun hfree =>
    refine ⟨c', hc', .inr ⟨rfl, fun key => ?_⟩⟩
    exact (hkept (by simp [hfree]) key).imp_right fun hhalf => ⟨hhalf, rfl⟩
  | read htask =>
    refine ⟨c', hc', .inr ⟨rfl, fun key => ?_⟩⟩
    exact (hkept (by simp [htask]) key).imp_right fun hhalf => ⟨hhalf, rfl⟩
  | @settled task p loaded htask =>
    obtain ⟨c, hc, hgeneration⟩ := CachedStore.exists_cache_of_endLoad hc'
    refine ⟨c, hc, .inr ⟨hgeneration, fun key => ?_⟩⟩
    refine (hkept (by simp [htask]) key).imp_right fun hhalf => ⟨hhalf, ?_⟩
    rw [truth, CachedStore.backend_endLoad, truth]
  | @merged task unit records hfree =>
    refine ⟨c', hc', .inr ⟨rfl, fun key => ?_⟩⟩
    by_cases hnamed : key.1 = unit ∧ key.2 ∈ records.keys
    · exact .inl ⟨task, unit, records.keys, Function.update_self .., hnamed⟩
    · exact (hkept (by simp [hfree]) key).imp_right fun hhalf =>
        ⟨hhalf, MemoryStore.recordOf_save_of_not_named hnamed⟩
  | invalidated =>
    obtain ⟨c, hc, rfl⟩ := Option.map_eq_some_iff.mp hc'
    exact ⟨c, hc, .inl (Nat.lt_succ_self c.generation)⟩
  | cleared =>
    obtain ⟨c, hc, rfl⟩ := Option.map_eq_some_iff.mp hc'
    refine ⟨c, hc, .inr ⟨rfl, fun key => ?_⟩⟩
    exact (em (r.HalfSaved key)).imp_right fun hhalf => ⟨hhalf, rfl⟩

end Runs

/-! ## Coherence -/

/-- What a load that is under way may still put into the cache is right, or a save of it is half
done. A load from an earlier generation puts nothing into the cache. -/
def Sound (r : SharedStore) : StoreTask → Prop
  | .reading p => ∀ c, r.store.cache = some c → p.generation ≤ c.generation
  | .settling p loaded => ∀ c, r.store.cache = some c → p.generation ≤ c.generation ∧
      (c.generation = p.generation → ∀ name ∈ p.missed.materializations,
        r.HalfSaved (p.unit, name) ∨ loaded.getD name .empty = r.truth (p.unit, name))
  | .merged _ _ => True

/-- What holds between any two steps. -/
structure Coherent (r : SharedStore) : Prop where
  /-- The cache is right where no save is half done. -/
  tells : ∀ key, r.HalfSaved key ∨ r.store.Tells key (r.truth key)
  sound : ∀ task call, r.tasks task = some call → r.Sound call

section Coherence

variable {r r' : SharedStore} {step : StoreStep} {steps : List StoreStep} {key : RecordKey}
  {task : Nat}

theorem coherent_start (config : CacheConfig) (t : MemoryStore)
    (walks : Nat → Dict.Walk String) : (start config t walks).Coherent where
  tells _ := .inr (CachedStore.tells_ofBackend config t walks)
  sound task call h := by cases h

/-- A step of another call does not harm a load. -/
theorem Step.sound {call : StoreTask} (hstep : Step r step r') (h : r.Sound call) :
    r'.Sound call := by
  cases call with
  | reading p =>
    intro c' hc'
    obtain ⟨c, hc, hgeneration⟩ := hstep.generation hc'
    have hle : p.generation ≤ c.generation := h c hc
    omega
  | settling p loaded =>
    intro c' hc'
    obtain ⟨c, hc, hgeneration⟩ := hstep.generation hc'
    obtain ⟨hle, hright⟩ := h c hc
    refine ⟨by omega, ?_⟩
    intro hcurrent name hname
    -- the generation is still the one of the load, so it was before the step
    rcases hgeneration with hlt | ⟨heq, hkept⟩
    · omega
    · rcases hkept (p.unit, name) with hhalf | ⟨hnothalf, htruth⟩
      · exact .inl hhalf
      · rw [htruth]
        exact .inr ((hright (heq.trans hcurrent) name hname).resolve_left hnothalf)
  | merged unit names => trivial

theorem sound_update {call? : Option StoreTask}
    (hothers : ∀ id call, r.tasks id = some call → r'.Sound call)
    (hnew : ∀ call, call? = some call → r'.Sound call) (id : Nat) (call : StoreTask)
    (h : update r.tasks task call? id = some call) : r'.Sound call := by
  by_cases htask : id = task
  · subst htask
    rw [Function.update_self] at h
    exact hnew call h
  · rw [Function.update_of_ne htask] at h
    exact hothers id call h

/-- What is new among the calls that are under way is sound. -/
theorem Step.sound_tasks (hstep : Step r step r') (h : r.Coherent) (task : Nat)
    (call : StoreTask) (hcall : r'.tasks task = some call) : r'.Sound call := by
  have hothers (id : Nat) (call : StoreTask) (hid : r.tasks id = some call) : r'.Sound call :=
    hstep.sound (h.sound id call hid)
  cases hstep with
  | found => exact hothers task call hcall
  | cleared => exact hothers task call hcall
  | @begun id unit reads p hfree hstart =>
    refine sound_update hothers ?_ task call hcall
    rintro _ ⟨⟩
    intro c hc
    have hbegins := r.store.begins_beginLoad unit reads
    rw [hstart] at hbegins
    exact (hbegins.generation_eq hc).le
  | @read id p htask =>
    refine sound_update hothers ?_ task call hcall
    rintro _ ⟨⟩
    intro c hc
    refine ⟨h.sound id (.reading p) htask c hc, ?_⟩
    intro _ name hname
    exact .inr (MemoryStore.getD_load _ _ hname)
  | @merged id unit records hfree =>
    refine sound_update hothers ?_ task call hcall
    rintro _ ⟨⟩
    trivial
  | _ =>
    refine sound_update hothers ?_ task call hcall
    rintro _ ⟨⟩

/-- Every step keeps the store coherent. -/
theorem Step.coherent (hstep : Step r step r') (h : r.Coherent) : r'.Coherent := by
  refine ⟨?_, hstep.sound_tasks h⟩
  intro key
  have hslot {s : CachedStore MemoryStore} {task : Nat} {call? : Option StoreTask}
      (hother : ∀ unit names, r.tasks task ≠ some (.merged unit names)) :
      HalfSaved { store := s, tasks := update r.tasks task call? } key ∨
        r.store.Tells key (r.truth key) :=
    (h.tells key).imp_left fun hhalf =>
      hhalf.update fun unit names hmerged => absurd hmerged (hother unit names)
  cases hstep with
  | found => exact h.tells key
  | begun hfree => exact hslot (by simp [hfree])
  | read htask => exact hslot (by simp [htask])
  | @settled task p loaded htask =>
    by_cases hhalf : r.HalfSaved key
    · refine .inl (hhalf.update ?_)
      simp [htask]
    · refine .inr ?_
      rw [truth, CachedStore.backend_endLoad]
      refine ((h.tells key).resolve_left hhalf).endLoad ?_
      -- what the load puts into the cache is right, because its generation is the current one
      intro c hc hcurrent hunit hmissed
      have hkey : (p.unit, key.2) = key := Prod.ext hunit rfl
      have hright := (h.sound task _ htask c hc).2 hcurrent key.2 hmissed
      rw [hkey] at hright
      exact hright.resolve_left hhalf
  | @merged task unit records hfree =>
    by_cases hnamed : key.1 = unit ∧ key.2 ∈ records.keys
    · exact .inl ⟨task, unit, records.keys, Function.update_self .., hnamed⟩
    · refine (hslot (by simp [hfree])).imp_right fun htells => ?_
      rw [truth, MemoryStore.recordOf_save_of_not_named hnamed]
      exact htells
  | @invalidated task unit names htask =>
    by_cases hnamed : key.1 = unit ∧ key.2 ∈ names
    · refine .inr fun c' hc' => ?_
      obtain ⟨c, -, rfl⟩ := Option.map_eq_some_iff.mp hc'
      exact RecordCache.Tells.invalidate fun hnot => absurd hnamed hnot
    · rcases h.tells key with hhalf | htells
      · refine .inl (hhalf.update ?_)
        rintro unit' names' hmerged
        rw [htask] at hmerged
        cases hmerged
        exact hnamed
      · refine .inr fun c' hc' => ?_
        obtain ⟨c, hc, rfl⟩ := Option.map_eq_some_iff.mp hc'
        exact RecordCache.Tells.invalidate fun _ => htells c hc
  | cleared => exact .inr r.store.tells_clear

theorem Run.coherent (h : Run r steps r') (hr : r.Coherent) : r'.Coherent :=
  h.preserves Coherent (fun _ => True) (fun hstep _ => hstep.coherent) (fun _ _ => trivial) hr

end Coherence

/-! ## Loads of a record that is not being saved -/

/-- The store is coherent, and no save of the record is half done. -/
structure Quiet (r : SharedStore) (key : RecordKey) (record : UnitRecord) : Prop where
  coherent : r.Coherent
  notHalfSaved : ¬ r.HalfSaved key
  truth_eq : r.truth key = record

/-- The load of this number is going to tell the truth about the record. -/
def Awaits (r : SharedStore) (task : Nat) (key : RecordKey) (record : UnitRecord) : Prop :=
  ∃ p, PendingLoad.Foresees p key record r.store.cache.isSome ∧
    (r.tasks task = some (.reading p) ∨
      ∃ loaded, r.tasks task = some (.settling p loaded) ∧
        (key.2 ∈ p.missed.materializations → loaded.getD key.2 .empty = record))

section Loads

variable {r r' : SharedStore} {step : StoreStep} {steps : List StoreStep} {key : RecordKey}
  {record : UnitRecord} {task : Nat}

theorem Quiet.tells (h : r.Quiet key record) : r.store.Tells key record := by
  rw [← h.truth_eq]
  exact (h.coherent.tells key).resolve_left h.notHalfSaved

theorem Step.quiet (hstep : Step r step r') (hother : ¬ step.Merges key)
    (h : r.Quiet key record) : r'.Quiet key record where
  coherent := hstep.coherent h.coherent
  notHalfSaved hhalf := h.notHalfSaved (hstep.halfSaved_of hother hhalf)
  truth_eq := (hstep.truth_eq hother).trans h.truth_eq

theorem Run.quiet (h : Run r steps r') (hothers : ∀ step ∈ steps, ¬ step.Merges key)
    (hr : r.Quiet key record) : r'.Quiet key record :=
  h.preserves (Quiet · key record) (¬ ·.Merges key) Step.quiet hothers hr

/-- A load goes on to tell the truth while the record is not saved. -/
theorem Step.awaits (hstep : Step r step r') (hrunning : ∀ records, step ≠ .settled task records)
    (hquiet : r.Quiet key record) (h : r.Awaits task key record) : r'.Awaits task key record := by
  obtain ⟨p, hforesees, hcall⟩ := h
  have hforesees' : p.Foresees key record r'.store.cache.isSome := by
    rw [hstep.isSome_cache]
    exact hforesees
  refine ⟨p, hforesees', ?_⟩
  have hother {id : Nat} {call? : Option StoreTask} (hne : task ≠ id) :
      update r.tasks id call? task = some (.reading p) ∨ ∃ loaded,
        update r.tasks id call? task = some (.settling p loaded) ∧
        (key.2 ∈ p.missed.materializations → loaded.getD key.2 .empty = record) := by
    rw [Function.update_of_ne hne]
    exact hcall
  have hne_of {id : Nat} (h : r.tasks id = none ∨ ∃ unit names,
      r.tasks id = some (.merged unit names)) : task ≠ id := by
    rintro rfl
    rcases hcall with hcall | ⟨loaded, hcall, -⟩ <;>
      rcases h with hnone | ⟨unit, names, hmerged⟩ <;> simp_all
  cases hstep with
  | found => exact hcall
  | cleared => exact hcall
  | begun hfree => exact hother (hne_of (.inl hfree))
  | merged hfree => exact hother (hne_of (.inl hfree))
  | invalidated htask => exact hother (hne_of (.inr ⟨_, _, htask⟩))
  | @settled id p' loaded htask =>
    refine hother ?_
    rintro rfl
    exact hrunning _ rfl
  | @read id p' htask =>
    by_cases hsame : task = id
    · subst hsame
      -- the load reads the record as it is, and it stays so
      rcases hcall with hcall | ⟨loaded, hcall, -⟩
      · rw [htask] at hcall
        cases hcall
        refine .inr ⟨_, Function.update_self .., ?_⟩
        intro hmissed
        rw [MemoryStore.getD_load _ _ hmissed, hforesees.unit]
        exact hquiet.truth_eq
      · rw [htask] at hcall
        cases hcall
    · exact hother hsame

/-- A load that has begun awaits the truth about every record that it is to read. -/
theorem Step.awaits_of_begun {reads : Reads} (hstep : Step r (.begun task key.1 reads) r')
    (hquiet : r.Quiet key record) (hname : key.2 ∈ reads.materializations) :
    r'.Awaits task key record := by
  cases hstep with
  | @begun _ _ _ p hfree hstart =>
    exact ⟨p, CachedStore.foresees_of_pending hstart hname hquiet.tells,
      .inl (Function.update_self ..)⟩

/-- A load that comes to an end tells the truth that it awaits. -/
theorem Step.getD_of_settled {records : UnitRecords} (hstep : Step r (.settled task records) r')
    (h : r.Awaits task key record) : records.getD key.2 .empty = record := by
  obtain ⟨p, hforesees, hcall⟩ := h
  cases hstep with
  | @settled _ p' loaded htask =>
    rcases hcall with hcall | ⟨loaded', hcall, hloaded⟩
    · rw [htask] at hcall
      cases hcall
    · rw [htask] at hcall
      cases hcall
      exact CachedStore.getD_endLoad hforesees hloaded

theorem Run.awaits (h : Run r steps r') (hothers : ∀ step ∈ steps, ¬ step.Merges key)
    (hrunning : ∀ records, StoreStep.settled task records ∉ steps)
    (hquiet : r.Quiet key record) (hawaits : r.Awaits task key record) :
    r'.Quiet key record ∧ r'.Awaits task key record := by
  refine h.preserves (fun r => r.Quiet key record ∧ r.Awaits task key record)
    (fun step => ¬ step.Merges key ∧ ∀ records, step ≠ .settled task records)
    ?_ ?_ ⟨hquiet, hawaits⟩
  case refine_1 =>
    rintro r step r' hstep ⟨hother, hrunning⟩ ⟨hquiet, hawaits⟩
    exact ⟨hstep.quiet hother hquiet, hstep.awaits hrunning hquiet hawaits⟩
  case refine_2 =>
    intro step hstep
    refine ⟨hothers step hstep, ?_⟩
    rintro records rfl
    exact hrunning records hstep

/-- A load begins within the steps and comes to an end within them, with these records. -/
inductive Answers (unit : String) (reads : Reads) (records : UnitRecords) :
    List StoreStep → Prop where
  | found {before after : List StoreStep} :
    Answers unit reads records (before ++ .found unit reads records :: after)
  | settled {task : Nat} {before between after : List StoreStep}
    (hrunning : ∀ records', StoreStep.settled task records' ∉ between) :
    Answers unit reads records
      (before ++ .begun task unit reads :: (between ++ .settled task records :: after))

/-- A load tells the truth about a record that is not saved from when it begins. -/
theorem Answers.getD_eq {reads : Reads} {records : UnitRecords}
    (h : Answers key.1 reads records steps) (hname : key.2 ∈ reads.materializations)
    (hrun : Run r steps r') (hothers : ∀ step ∈ steps, ¬ step.Merges key)
    (hquiet : r.Quiet key record) : records.getD key.2 .empty = record := by
  cases h with
  | found =>
    obtain ⟨r₁, hbefore, hrest⟩ := exists_of_run_append hrun
    obtain ⟨hothers, -⟩ := List.forall_mem_append.mp hothers
    have hquiet := hbefore.quiet hothers hquiet
    obtain _ | ⟨hfound, -⟩ := hrest
    cases hfound with
    | found hstart => rw [Dict.getD, CachedStore.get?_of_done hstart hname hquiet.tells]; rfl
  | settled hrunning =>
    obtain ⟨r₁, hbefore, hrest⟩ := exists_of_run_append hrun
    obtain ⟨hothers, hothers'⟩ := List.forall_mem_append.mp hothers
    have hquiet₁ := hbefore.quiet hothers hquiet
    obtain _ | ⟨hbegun, hrest⟩ := hrest
    obtain ⟨hother, hothers''⟩ := List.forall_mem_cons.mp hothers'
    have hawaits := hbegun.awaits_of_begun hquiet₁ hname
    obtain ⟨r₂, hbetween, hrest⟩ := exists_of_run_append hrest
    obtain ⟨-, hawaits₂⟩ := hbetween.awaits (List.forall_mem_append.mp hothers'').1 hrunning
      (hbegun.quiet hother hquiet₁) hawaits
    obtain _ | ⟨hsettled, -⟩ := hrest
    exact hsettled.getD_of_settled hawaits₂

end Loads

/-- **Racing loads never leave a stale cache**, whatever the orders in which they fill it. What is
cached is right, unless a save of it is half done. When none is, and until the next one is merged,
every load that begins tells what the store behind the cache has. -/
theorem races_coherent {config : CacheConfig} {t : MemoryStore} {walks : Nat → Dict.Walk String}
    {steps : List StoreStep} {r : SharedStore} (h : Run (start config t walks) steps r) :
    (∀ key c record, r.store.cache = some c → c.get? key = some record →
      record = r.truth key ∨ r.HalfSaved key) ∧
    ∀ key, ¬ r.HalfSaved key → ∀ later r', Run r later r' →
      (∀ step ∈ later, ¬ step.Merges key) →
      ∀ reads records, Answers key.1 reads records later → key.2 ∈ reads.materializations →
        records.getD key.2 .empty = r'.truth key := by
  have hcoherent := h.coherent (coherent_start config t walks)
  constructor
  · intro key c record hc hrecord
    rcases hcoherent.tells key with hhalf | htells
    · exact .inr hhalf
    · exact .inl (htells c hc record hrecord)
  · intro key hhalf later r' hlater hothers reads records hanswers hname
    have hquiet : r.Quiet key (r.truth key) :=
      { coherent := hcoherent, notHalfSaved := hhalf, truth_eq := rfl }
    rw [(hlater.quiet hothers hquiet).truth_eq]
    exact hanswers.getD_eq hname hlater hothers hquiet

end SharedStore

namespace Rollout

open SharedStore

/-- What a rule reads about a visitor. -/
def visitReads : Reads := .ofList [("banner", "visits")]

/-- The visitor has been shown the banner. -/
def visitRecords : UnitRecords := .ofList [("visits", .assigned "banner" "shown")]

/-- A save is merged and comes to an end while a load is under way that has read before. -/
def shadowedLoad (records : UnitRecords) : List StoreStep :=
  [.begun 0 "visitor" visitReads, .read 0, .merged 1 "visitor" visitRecords, .invalidated 1,
    .settled 0 records]

theorem exists_run_shadowedLoad : ∃ records r,
    Run (start .default .empty) (shadowedLoad records) r ∧ (∀ task, r.tasks task = none) ∧
    r.truth ("visitor", "visits") = .assigned "banner" "shown" := by
  refine ⟨_, _, .cons (.begun rfl rfl) (.cons (.read rfl) (.cons (.merged rfl)
    (.cons (.invalidated rfl) (.cons (.settled rfl) .nil)))), ?_, ?_⟩
  · intro task
    by_cases hload : task = 0 <;> by_cases hsave : task = 1 <;>
      simp [Function.update, start, hload, hsave]
  · rfl

/-- What the overtaken load has read does not get into the cache, and the next load tells what was
saved. -/
theorem shadowedLoad_current : ∃ records r later r' answer,
    Run (start .default .empty) (shadowedLoad records) r ∧ Run r later r' ∧
    Answers "visitor" visitReads answer later ∧
    answer.getD "visits" .empty = .assigned "banner" "shown" := by
  obtain ⟨records, r, hrun, htasks, htruth⟩ := exists_run_shadowedLoad
  obtain ⟨answer, later, -, hlater, hrest⟩ := exists_run_load r (htasks 2) "visitor" visitReads
  have hhalf : ¬ r.HalfSaved ("visitor", "visits") := by
    rintro ⟨task, unit, names, htask, -⟩
    rw [htasks task] at htask
    cases htask
  have hothers : ∀ step ∈ later, ¬ step.Merges ("visitor", "visits") := by
    rcases hlater with rfl | rfl <;> simp [StoreStep.Merges]
  have hanswers : Answers "visitor" visitReads answer later := by
    rcases hlater with rfl | rfl
    · exact @Answers.found _ _ _ [] []
    · exact @Answers.settled _ _ _ 2 [] [.read 2] [] (by simp)
  have hquiet : r.Quiet ("visitor", "visits") (.assigned "banner" "shown") :=
    { coherent := hrun.coherent (coherent_start _ _ _), notHalfSaved := hhalf, truth_eq := htruth }
  refine ⟨records, r, later, _, answer, hrun, hrest, hanswers, ?_⟩
  rw [(races_coherent hrun).2 _ hhalf later _ hrest hothers visitReads answer hanswers (by decide)]
  exact (hrest.quiet hothers hquiet).truth_eq

end Rollout

end FeatureFlags
