import FeatureFlags.Proofs.Engine.Runs
import FeatureFlags.Proofs.Store.Cache
import Mathlib.Data.List.Forall2

/-!
# A cache is not seen

A cached store over a store in memory covers the bare store if both have the same records and the
cache tells the truth about them (`CachedStore.Covers`). Then both load the same, where a record
that is left out counts as the empty one (`Reads.Answered`), and whatever they are told to do, the
one still covers the other (`CachedStore.Covers.perform`).

A sticky resolve fills in the records that are left out, so it cannot tell two stores apart that
answer alike (`RecordStore.Mirrors`). From outside, a coordinator is a session: resolves, calls of
its engine and calls of its store, in any order (`Session`).

`CachedStore.cache_transparent` puts the two together.
-/

namespace FeatureFlags

/-! ## Stores that answer alike -/

/-- The records tell the truth about all that is to be read, and nothing about anything else. A
record that is left out counts as the empty one. -/
structure Reads.Answered (reads : Reads) (truth : String → UnitRecord) (records : UnitRecords) :
    Prop where
  told : ∀ name ∈ reads.materializations, records.getD name .empty = truth name
  nothingElse : ∀ name, name ∉ reads.materializations → records.get? name = none

namespace Reads.Answered

variable {reads : Reads} {truth : String → UnitRecord} {a b : UnitRecords}

theorem getD_eq (ha : reads.Answered truth a) (hb : reads.Answered truth b) (name : String) :
    a.getD name .empty = b.getD name .empty := by
  by_cases hname : name ∈ reads.materializations
  · rw [ha.told name hname, hb.told name hname]
  · rw [Dict.getD, ha.nothingElse name hname, Dict.getD, hb.nothingElse name hname]

theorem get?_filled (h : reads.Answered truth a) (name : String) :
    (reads.blank.union a).get? name =
      if name ∈ reads.materializations then some (truth name) else none := by
  rw [Dict.get?_union, Reads.get?_blank]
  by_cases hname : name ∈ reads.materializations
  · rw [if_pos hname, if_pos hname, ← h.told name hname, Dict.getD]
    cases a.get? name <;> rfl
  · rw [if_neg hname, if_neg hname, h.nothingElse name hname]
    rfl

/-- Once the empty records are filled in, there is only one answer. -/
theorem filled_eq (ha : reads.Answered truth a) (hb : reads.Answered truth b) :
    reads.blank.union a = reads.blank.union b := by
  ext1 name
  rw [ha.get?_filled, hb.get?_filled]

end Reads.Answered

theorem MemoryStore.answered_load (t : MemoryStore) (unit : String) (reads : Reads) :
    reads.Answered (t.recordOf unit) (load unit reads t).1 where
  told _ hname := t.getD_load unit hname
  nothingElse _ hname := t.get?_load_of_not_mem unit hname

/-- A store answers as another one does, up to records that are left out for empty ones, as long as
their states stay related. -/
structure RecordStore.Mirrors {σ τ : Type} (store : RecordStore σ) (other : RecordStore τ)
    (Related : σ → τ → Prop) : Prop where
  load : ∀ unit reads s t, Related s t →
    (store.load unit reads s).1.map reads.blank.union =
      (other.load unit reads t).1.map reads.blank.union ∧
    Related (store.load unit reads s).2 (other.load unit reads t).2
  save : ∀ unit records s t, Related s t →
    Related (store.save unit records s).2 (other.save unit records t).2

namespace RecordStore.Mirrors

variable {σ τ ε : Type} {store : RecordStore σ} {other : RecordStore τ} {Related : σ → τ → Prop}
  {s : σ} {t : τ}

theorem loadAll (h : store.Mirrors other Related) (hs : Related s t) (request : ResolveRequest)
    (entries : List (String × Reads)) :
    (store.loadAll request entries s).1 = (other.loadAll request entries t).1 ∧
      Related (store.loadAll request entries s).2 (other.loadAll request entries t).2 := by
  induction entries generalizing request s t with
  | nil => exact ⟨rfl, hs⟩
  | cons entry rest ih =>
    obtain ⟨unit, reads⟩ := entry
    obtain ⟨hanswer, hafter⟩ := h.load unit reads s t hs
    rw [RecordStore.loadAll, RecordStore.loadAll]
    rcases hload : store.load unit reads s with ⟨cause | loaded, s'⟩ <;>
      rcases hload' : other.load unit reads t with ⟨cause' | loaded', t'⟩ <;>
      rw [hload, hload'] at hanswer hafter
    · cases hanswer
      exact ⟨rfl, hafter⟩
    · cases hanswer
    · cases hanswer
    · have hfilled : reads.blank.union loaded = reads.blank.union loaded' := Except.ok.inj hanswer
      dsimp only
      rw [hfilled]
      exact ih hafter _

theorem saveUpdates (h : store.Mirrors other Related) (hs : Related s t)
    (updates : List StickyUpdate) :
    Related (store.saveUpdates updates s) (other.saveUpdates updates t) := by
  unfold RecordStore.saveUpdates
  induction (StickyUpdate.grouped updates).toList generalizing s t with
  | nil => exact hs
  | cons entry rest ih => exact ih (h.save entry.1 entry.2 s t hs)

/-- A sticky resolve comes to the same over both stores. -/
theorem resolveWithin (h : store.Mirrors other Related) (engine : Engine ε) (maxRounds : Nat)
    (occasion : Nat → Occasion) (left : Nat) (request : ResolveRequest) (e : ε)
    (hs : Related s t) :
    let c : Coordinator ε σ := { engine, strategy := .repository store, maxRounds }
    let d : Coordinator ε τ := { engine, strategy := .repository other, maxRounds }
    (c.resolveWithin occasion left request e s).1 = (d.resolveWithin occasion left request e t).1 ∧
    (c.resolveWithin occasion left request e s).2.1 =
      (d.resolveWithin occasion left request e t).2.1 ∧
    Related (c.resolveWithin occasion left request e s).2.2
      (d.resolveWithin occasion left request e t).2.2 := by
  dsimp only
  induction left generalizing request e s t with
  | zero =>
    rw [Coordinator.resolveWithin, Coordinator.resolveWithin]
    rcases engine.resolve request (occasion 0) e with ⟨cause | ⟨response, updates⟩ | items, e'⟩
    case error => exact ⟨rfl, rfl, hs⟩
    case ok.resolved => exact ⟨rfl, rfl, h.saveUpdates hs updates⟩
    case ok.missing => exact ⟨rfl, rfl, hs⟩
  | succ left ih =>
    rw [Coordinator.resolveWithin, Coordinator.resolveWithin]
    rcases engine.resolve request (occasion (left + 1)) e with
      ⟨cause | ⟨response, updates⟩ | items, e'⟩
    case error => exact ⟨rfl, rfl, hs⟩
    case ok.resolved => exact ⟨rfl, rfl, h.saveUpdates hs updates⟩
    case ok.missing =>
      dsimp only
      obtain ⟨hanswer, hafter⟩ :=
        h.loadAll hs request (MissingRecord.readsByUnit items).toList
      rw [loadMissing, loadMissing]
      rcases hload : store.loadAll request (MissingRecord.readsByUnit items).toList s with
        ⟨answer, s'⟩
      rcases hload' : other.loadAll request (MissingRecord.readsByUnit items).toList t with
        ⟨answer', t'⟩
      rw [hload, hload'] at hanswer hafter
      dsimp only at hanswer hafter
      subst hanswer
      -- both go on with the same request, or with the same error
      cases answer with
      | error cause => exact ⟨rfl, rfl, hafter⟩
      | ok request' => exact ih request' e' hafter

end RecordStore.Mirrors

/-! ## What stores are told to do -/

/-- What a store is told to do. A store without a cache has nothing to clear. -/
inductive StoreCommand where
  | load (unit : String) (reads : Reads)
  | save (unit : String) (records : UnitRecords)
  | clear

/-- What a store replies. -/
inductive StoreReply where
  | loaded (answer : Except StoreError UnitRecords)
  | saved (answer : Except StoreError Unit)
  | cleared

namespace RecordStore

variable {τ : Type} (store : RecordStore τ) (clear : τ → τ)

/-- Do what the command says. -/
def perform : StoreCommand → τ → StoreReply × τ
  | .load unit reads, t => Prod.map .loaded id (store.load unit reads t)
  | .save unit records, t => Prod.map .saved id (store.save unit records t)
  | .clear, t => (.cleared, clear t)

/-- Do what the commands say in turn. -/
def run : List StoreCommand → τ → List StoreReply × τ
  | [], t => ([], t)
  | command :: rest, t =>
    Prod.map ((store.perform clear command t).1 :: ·) id
      (run rest (store.perform clear command t).2)

end RecordStore

/-- Both replies are a success and say the same, where a record that is left out counts as the empty
one. -/
inductive StoreReply.Alike : StoreReply → StoreReply → Prop where
  | loaded {a b : UnitRecords} (h : ∀ name, a.getD name .empty = b.getD name .empty) :
    Alike (.loaded (.ok a)) (.loaded (.ok b))
  | saved : Alike (.saved (.ok ())) (.saved (.ok ()))
  | cleared : Alike .cleared .cleared

/-! ## A cache over memory -/

namespace CachedStore

/-- The store behind the cache has the records of the bare store, and the cache tells the truth
about them. -/
structure Covers (s : CachedStore MemoryStore) (t : MemoryStore) : Prop where
  records : s.backend.records = t.records
  tells : ∀ key : RecordKey, s.Tells key (t.recordOf key.1 key.2)

section Commands

variable {s : CachedStore MemoryStore} {t : MemoryStore}

theorem covers_ofBackend (config : CacheConfig) (t : MemoryStore)
    (walks : Nat → Dict.Walk String) : (ofBackend config t walks).Covers t :=
  { records := rfl, tells := fun _ => tells_ofBackend config t walks }

theorem Covers.recordOf_eq (h : s.Covers t) (unit name : String) :
    s.backend.recordOf unit name = t.recordOf unit name :=
  congrArg (fun m : Materializations => (m.get? unit name).getD .empty) h.records

theorem Covers.clear (h : s.Covers t) : s.clear.Covers t :=
  { records := h.records, tells := fun _ => s.tells_clear }

/-- A load tells the truth, whether the cache has a part of it or not, and the cache still does. -/
theorem Covers.load (h : s.Covers t) (unit : String) (reads : Reads) :
    ∃ records after, CachedStore.load MemoryStore.store unit reads s = (.ok records, after) ∧
      reads.Answered (t.recordOf unit) records ∧ after.Covers t := by
  have hbegins := s.begins_beginLoad unit reads
  rw [CachedStore.load]
  cases hstart : s.beginLoad unit reads with
  | done records =>
    refine ⟨records, s, rfl, ?_, h⟩
    constructor
    case told =>
      intro name hname
      rw [Dict.getD, get?_of_done hstart hname (h.tells (unit, name))]
      rfl
    case nothingElse =>
      intro name hname
      rw [hstart] at hbegins
      cases hbegins with
      | found => rw [RecordCache.get?_found_lookUp, if_neg hname]
  | pending p =>
    rw [hstart] at hbegins
    have hunit := hbegins.unit_eq
    let loaded := (MemoryStore.load unit p.missed s.backend).1
    let behind : CachedStore MemoryStore :=
      { s with backend := (MemoryStore.load unit p.missed s.backend).2 }
    refine ⟨(endLoad p loaded behind).1, (endLoad p loaded behind).2, rfl, ?_, ?_⟩
    case refine_1 =>
      constructor
      case told =>
        intro name hname
        have hforesees : p.Foresees (unit, name) (t.recordOf unit name) behind.cache.isSome :=
          foresees_of_pending hstart hname (h.tells (unit, name))
        refine getD_endLoad hforesees ?_
        intro hmissed
        rw [MemoryStore.getD_load _ _ hmissed, h.recordOf_eq]
      case nothingElse =>
        intro name hname
        refine get?_endLoad_of_not_mem hstart hname ?_
        exact MemoryStore.get?_load_of_not_mem _ _ fun hmissed =>
          hname (hbegins.mem_of_missed hmissed)
    case refine_2 =>
      constructor
      case records =>
        rw [backend_endLoad]
        exact h.records
      case tells =>
        intro key
        refine Tells.endLoad (h.tells key) ?_
        intro c _ _ hkey hmissed
        rw [MemoryStore.getD_load _ _ hmissed, h.recordOf_eq, ← hunit, hkey]

/-- What is saved is dropped from the cache, and nothing else has changed. -/
theorem Covers.save (h : s.Covers t) (unit : String) (records : UnitRecords) :
    (CachedStore.save MemoryStore.store unit records s).2.Covers (t.save unit records) := by
  constructor
  case records => exact congrArg (·.merge unit records) h.records
  case tells =>
    intro key c hc
    obtain ⟨cache, hcache, rfl⟩ := Option.map_eq_some_iff.mp hc
    refine RecordCache.Tells.invalidate fun hnamed => ?_
    rw [MemoryStore.recordOf_save_of_not_named hnamed]
    exact h.tells key cache hcache

/-- Whatever both stores are told to do, they reply alike, and the one still covers the other. -/
theorem Covers.perform (h : s.Covers t) (command : StoreCommand) :
    ((store MemoryStore.store).perform CachedStore.clear command s).1.Alike
        (MemoryStore.store.perform id command t).1 ∧
      ((store MemoryStore.store).perform CachedStore.clear command s).2.Covers
        (MemoryStore.store.perform id command t).2 := by
  cases command with
  | load unit reads =>
    obtain ⟨records, after, hload, hanswered, hafter⟩ := h.load unit reads
    have hperform : (store MemoryStore.store).perform CachedStore.clear (.load unit reads) s =
        (.loaded (.ok records), after) := congrArg (Prod.map StoreReply.loaded id) hload
    rw [hperform]
    exact ⟨.loaded (hanswered.getD_eq (t.answered_load unit reads)), hafter.records, hafter.tells⟩
  | save unit records => exact ⟨.saved, h.save unit records⟩
  | clear => exact ⟨.cleared, h.clear⟩

theorem mirrors_memory : (store MemoryStore.store).Mirrors MemoryStore.store Covers where
  load unit reads s t h := by
    obtain ⟨records, after, hload, hanswered, hafter⟩ := h.load unit reads
    show ((CachedStore.load MemoryStore.store unit reads s).1.map _ = _) ∧
      (CachedStore.load MemoryStore.store unit reads s).2.Covers _
    rw [hload]
    refine ⟨congrArg Except.ok ?_, hafter.records, hafter.tells⟩
    exact hanswered.filled_eq (t.answered_load unit reads)
  save unit records s t h := h.save unit records

theorem Covers.run (h : s.Covers t) (commands : List StoreCommand) :
    List.Forall₂ StoreReply.Alike
        ((store MemoryStore.store).run CachedStore.clear commands s).1
        (MemoryStore.store.run id commands t).1 ∧
      ((store MemoryStore.store).run CachedStore.clear commands s).2.Covers
        (MemoryStore.store.run id commands t).2 := by
  induction commands generalizing s t with
  | nil => exact ⟨.nil, h⟩
  | cons command rest ih =>
    obtain ⟨halike, hafter⟩ := h.perform command
    obtain ⟨hrest, hcovers⟩ := ih hafter
    exact ⟨.cons halike hrest, hcovers⟩

end Commands

end CachedStore

/-! ## Sessions -/

/-- What happens in a session. -/
inductive SessionCommand where
  /-- A sticky resolve. -/
  | resolve (request : ResolveRequest) (occasion : Nat → Occasion)
  | engine (command : EngineCommand)
  | store (command : StoreCommand)

/-- What is replied in a session. -/
inductive SessionReply where
  | resolved (answer : Except StickyError ResolveResponse)
  | engine (reply : EngineReply)
  | store (reply : StoreReply)

/-- A coordinator over an engine and a store, with the way to clear what the store has cached. -/
structure Session (ε τ : Type) where
  engine : Engine ε
  store : RecordStore τ
  clear : τ → τ
  maxRounds : Nat

namespace Session

variable {ε τ : Type} (x : Session ε τ)

def coordinator : Coordinator ε τ :=
  { engine := x.engine, strategy := .repository x.store, maxRounds := x.maxRounds }

/-- Do what the command says. -/
def perform : SessionCommand → ε → τ → SessionReply × ε × τ
  | .resolve request occasion, e, t =>
    Prod.map .resolved id (x.coordinator.resolve request occasion e t)
  | .engine command, e, t =>
    (.engine (x.engine.perform command e).1, (x.engine.perform command e).2, t)
  | .store command, e, t =>
    (.store (x.store.perform x.clear command t).1, e, (x.store.perform x.clear command t).2)

/-- Do what the commands say in turn. -/
def run : List SessionCommand → ε → τ → List SessionReply × ε × τ
  | [], e, t => ([], e, t)
  | command :: rest, e, t =>
    Prod.map ((x.perform command e t).1 :: ·) id
      (run rest (x.perform command e t).2.1 (x.perform command e t).2.2)

/-- A session over a cached store. -/
def cached (engine : Engine ε) (maxRounds : Nat) : Session ε (CachedStore MemoryStore) :=
  { engine, store := CachedStore.store MemoryStore.store, clear := CachedStore.clear, maxRounds }

/-- A session over the store in memory alone. -/
def bare (engine : Engine ε) (maxRounds : Nat) : Session ε MemoryStore :=
  { engine, store := MemoryStore.store, clear := id, maxRounds }

end Session

/-- The replies are the same, apart from records that a store leaves out for empty ones. -/
inductive SessionReply.Alike : SessionReply → SessionReply → Prop where
  | resolved (answer : Except StickyError ResolveResponse) :
    Alike (.resolved answer) (.resolved answer)
  | engine (reply : EngineReply) : Alike (.engine reply) (.engine reply)
  | store {a b : StoreReply} (h : a.Alike b) : Alike (.store a) (.store b)

namespace CachedStore

section Sessions

variable {ε : Type} {s : CachedStore MemoryStore} {t : MemoryStore}

/-- What happens in a session leaves no trace of the cache. -/
theorem Covers.session_perform (h : s.Covers t) (engine : Engine ε) (maxRounds : Nat)
    (command : SessionCommand) (e : ε) :
    ((Session.cached engine maxRounds).perform command e s).1.Alike
        ((Session.bare engine maxRounds).perform command e t).1 ∧
      ((Session.cached engine maxRounds).perform command e s).2.1 =
        ((Session.bare engine maxRounds).perform command e t).2.1 ∧
      ((Session.cached engine maxRounds).perform command e s).2.2.Covers
        ((Session.bare engine maxRounds).perform command e t).2.2 := by
  cases command with
  | resolve request occasion =>
    obtain ⟨hanswer, hengine, hafter⟩ :=
      mirrors_memory.resolveWithin engine maxRounds occasion maxRounds request e h
    refine ⟨?_, hengine, hafter⟩
    have hsame : ((Session.cached engine maxRounds).coordinator.resolve request occasion e s).1 =
        ((Session.bare engine maxRounds).coordinator.resolve request occasion e t).1 := hanswer
    show SessionReply.Alike
      (.resolved ((Session.cached engine maxRounds).coordinator.resolve request occasion e s).1) _
    rw [hsame]
    exact .resolved _
  | engine command => exact ⟨.engine _, rfl, h⟩
  | store command =>
    obtain ⟨halike, hafter⟩ := h.perform command
    exact ⟨.store halike, rfl, hafter⟩

theorem Covers.session_run (h : s.Covers t) (engine : Engine ε) (maxRounds : Nat)
    (commands : List SessionCommand) (e : ε) :
    List.Forall₂ SessionReply.Alike ((Session.cached engine maxRounds).run commands e s).1
        ((Session.bare engine maxRounds).run commands e t).1 ∧
      ((Session.cached engine maxRounds).run commands e s).2.1 =
        ((Session.bare engine maxRounds).run commands e t).2.1 ∧
      ((Session.cached engine maxRounds).run commands e s).2.2.Covers
        ((Session.bare engine maxRounds).run commands e t).2.2 := by
  induction commands generalizing e s t with
  | nil => exact ⟨.nil, rfl, h⟩
  | cons command rest ih =>
    obtain ⟨halike, hengine, hafter⟩ := h.session_perform engine maxRounds command e
    obtain ⟨hrest, hend, hcovers⟩ :=
      ih hafter ((Session.cached engine maxRounds).perform command e s).2.1
    rw [hengine] at hrest hend hcovers
    rw [Session.run, Session.run, hengine]
    exact ⟨.cons halike hrest, hend, hcovers⟩

end Sessions

/-- **A cache is not seen**, whatever its size and whatever the orders in which it is filled:
neither in what the store replies, nor in what it keeps, nor in a session over it. -/
theorem cache_transparent (config : CacheConfig) (t : MemoryStore)
    (walks : Nat → Dict.Walk String) :
    let fresh := ofBackend config t walks
    (∀ commands : List StoreCommand,
      List.Forall₂ StoreReply.Alike
        ((store MemoryStore.store).run clear commands fresh).1
        (MemoryStore.store.run id commands t).1 ∧
      ((store MemoryStore.store).run clear commands fresh).2.backend.records =
        (MemoryStore.store.run id commands t).2.records) ∧
    ∀ (ε : Type) (engine : Engine ε) (maxRounds : Nat) (commands : List SessionCommand) (e : ε),
      List.Forall₂ SessionReply.Alike
        ((Session.cached engine maxRounds).run commands e fresh).1
        ((Session.bare engine maxRounds).run commands e t).1 ∧
      ((Session.cached engine maxRounds).run commands e fresh).2.1 =
        ((Session.bare engine maxRounds).run commands e t).2.1 ∧
      ((Session.cached engine maxRounds).run commands e fresh).2.2.backend.records =
        ((Session.bare engine maxRounds).run commands e t).2.2.records := by
  have hcovers := covers_ofBackend config t walks
  constructor
  · intro commands
    obtain ⟨halike, hafter⟩ := hcovers.run commands
    exact ⟨halike, hafter.records⟩
  · intro ε engine maxRounds commands e
    obtain ⟨halike, hengine, hafter⟩ := hcovers.session_run engine maxRounds commands e
    exact ⟨halike, hengine, hafter.records⟩

end CachedStore

end FeatureFlags
