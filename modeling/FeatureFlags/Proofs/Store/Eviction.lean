import FeatureFlags.Proofs.Sticky.Calls
import FeatureFlags.Proofs.Store.Cache
import Mathlib.Data.Finset.Card
import Mathlib.Data.List.Infix

/-!
# Which records leave a full cache

`CachedStore.cache_keeps_last_fetched`: if single records are loaded one after the other, a cache of
size `n` has the `n` records that were fetched last from the store behind it, and just the others
are fetched. A record that is found in the cache does not become younger by it. So the cache has the
`n` records that were loaded last exactly if none that has left it was loaded later than one that
stays.

The store behind may answer anything, and may fail. It notes its calls, and so does the cached store
(`RecordStore.recorded`): the notes of the first say what was fetched, and those of the second say
what was loaded, which is everything if the store behind does not fail
(`CachedStore.pairs_loadEach`). A load either finds its record, or is refused, or fetches it
(`LoadOutcome`), and in each case what the cache has follows the notes
(`CachedStore.FollowsNotes.loadNext`).
-/

namespace FeatureFlags

/-! ## The order of loads -/

section Recency

variable {n : Nat} {history keys : List RecordKey} {key kept left : RecordKey}

/-- The place is one of the `n` that were loaded last: since some load of it, no more than `n` were
loaded. -/
def Recent (n : Nat) (history : List RecordKey) (key : RecordKey) : Prop :=
  ∃ last, last <:+ history ∧ key ∈ last ∧ last.toFinset.card ≤ n

/-- The first place was loaded after the last load of the second one. -/
def LoadedAfter (history : List RecordKey) (kept left : RecordKey) : Prop :=
  ∃ last, last <:+ history ∧ kept ∈ last ∧ left ∉ last

/-- What was loaded at all was loaded for the last time. -/
theorem exists_last_load (h : key ∈ history) :
    ∃ last, last <:+ history ∧ key ∈ last ∧ ∀ other, other <:+ history → key ∈ other →
      last <:+ other := by
  -- the first occurrence from behind
  obtain ⟨before, after, hsplit, hafter⟩ : ∃ before after,
      history = before ++ key :: after ∧ key ∉ after := by
    obtain ⟨after, before, hsplit, hnot⟩ := List.eq_append_cons_of_mem (List.mem_reverse.mpr h)
    refine ⟨before.reverse, after.reverse, ?_, fun h => hnot (List.mem_reverse.mp h)⟩
    rw [← List.reverse_reverse history, hsplit]
    simp
  refine ⟨key :: after, ⟨before, hsplit.symm⟩, List.mem_cons_self, ?_⟩
  intro other hother hkey
  have hsuffix : key :: after <:+ history := ⟨before, hsplit.symm⟩
  rcases List.suffix_or_suffix_of_suffix hsuffix hother with hlonger | hshorter
  · exact hlonger
  · rcases List.suffix_cons_iff.mp hshorter with rfl | hlater
    · exact List.suffix_refl _
    · exact absurd (hlater.subset hkey) hafter

/-- Places of which as many as possible are kept are those that were loaded last exactly if each of
them was loaded after every place that is not kept. -/
theorem recent_iff_loadedAfter (hnodup : keys.Nodup) (hsub : ∀ key ∈ keys, key ∈ history)
    (hsize : keys.length = min n history.toFinset.card) :
    (∀ key, key ∈ keys ↔ Recent n history key) ↔
      ∀ kept ∈ keys, ∀ left ∈ history, left ∉ keys → LoadedAfter history kept left := by
  have hcard : keys.toFinset.card = min n history.toFinset.card := by
    rw [List.toFinset_card_of_nodup hnodup, hsize]
  constructor
  · intro hrecent kept hkept left _ hleft
    obtain ⟨last, hlast, hmem, hfew⟩ := (hrecent kept).mp hkept
    exact ⟨last, hlast, hmem, fun h => hleft ((hrecent left).mpr ⟨last, hlast, h, hfew⟩)⟩
  · intro hafter key
    constructor
    · intro hkey
      obtain ⟨last, hlast, hmem, hleast⟩ := exists_last_load (hsub key hkey)
      -- nothing that has left was loaded since the last load of the place
      have hsubset : last.toFinset ⊆ keys.toFinset := by
        intro other hother
        rw [List.mem_toFinset] at hother ⊢
        by_contra hgone
        obtain ⟨since, hsince, hin, hout⟩ := hafter key hkey other (hlast.subset hother) hgone
        exact hout ((hleast since hsince hin).subset hother)
      exact ⟨last, hlast, hmem, (Finset.card_le_card hsubset).trans (by omega)⟩
    · rintro ⟨last, hlast, hmem, hfew⟩
      by_contra hgone
      -- with all that are kept there would be one too many since then
      have hsubset : insert key keys.toFinset ⊆ last.toFinset := by
        intro other hother
        rw [Finset.mem_insert, List.mem_toFinset] at hother
        rw [List.mem_toFinset]
        rcases hother with rfl | hkept
        · exact hmem
        · obtain ⟨since, hsince, hin, hout⟩ := hafter other hkept key (hlast.subset hmem) hgone
          rcases List.suffix_or_suffix_of_suffix hsince hlast with hshorter | hlonger
          · exact hshorter.subset hin
          · exact absurd (hlonger.subset hmem) hout
      have hmore : keys.toFinset.card + 1 ≤ last.toFinset.card := by
        rw [← Finset.card_insert_of_notMem (fun h => hgone (List.mem_toFinset.mp h))]
        exact Finset.card_le_card hsubset
      have hall : last.toFinset.card ≤ history.toFinset.card :=
        Finset.card_le_card fun _ h => List.mem_toFinset.mpr (hlast.subset (List.mem_toFinset.mp h))
      omega

theorem toFinset_append_singleton (history : List RecordKey) (key : RecordKey) :
    (history ++ [key]).toFinset = insert key history.toFinset := by
  rw [List.toFinset_append, List.toFinset_cons, List.toFinset_nil, insert_empty_eq,
    Finset.union_comm, Finset.singleton_union]

/-- If a place that was not kept is kept now, as many as possible are kept again. -/
theorem length_take_cons (hnodup : keys.Nodup) (hsub : ∀ key ∈ keys, key ∈ history)
    (hsize : keys.length = min n history.toFinset.card) (hkey : key ∉ keys) :
    ((key :: keys).take n).length = min n (history ++ [key]).toFinset.card := by
  rw [List.length_take, List.length_cons, toFinset_append_singleton]
  by_cases hold : key ∈ history
  · rw [Finset.insert_eq_of_mem (List.mem_toFinset.mpr hold)]
    have hsubset : (key :: keys).toFinset ⊆ history.toFinset := by
      intro other hother
      rw [List.mem_toFinset] at hother ⊢
      exact List.forall_mem_cons.mpr ⟨hold, hsub⟩ other hother
    have hcard := Finset.card_le_card hsubset
    rw [List.toFinset_card_of_nodup (List.nodup_cons.mpr ⟨hkey, hnodup⟩), List.length_cons] at hcard
    omega
  · rw [Finset.card_insert_of_notMem fun h => hold (List.mem_toFinset.mp h)]
    omega

end Recency

/-! ## The places in a cache -/

namespace RecordCache

variable {c : RecordCache} {key : RecordKey} {unit : String}

theorem mem_keys_iff : key ∈ c.keys ↔ c.get? key ≠ none := by
  rw [get?, Ne, Option.map_eq_none_iff, List.find?_eq_none, keys, List.mem_map]
  simp only [decide_eq_true_eq, not_forall, not_not, exists_prop]

theorem keys_put (c : RecordCache) (key : RecordKey) (record : UnitRecord) :
    (c.put key record).keys = (key :: c.keys.filter (· ≠ key)).take c.capacity := by
  simp only [keys, put, erase, List.map_take, List.map_cons, List.filter_map]
  rfl

theorem keys_put_of_not_mem (h : key ∉ c.keys) (record : UnitRecord) :
    (c.put key record).keys = (key :: c.keys).take c.capacity := by
  rw [keys_put, List.filter_eq_self.mpr]
  intro other hother
  exact decide_eq_true fun heq => h (heq ▸ hother)

/-- Of two records that are put into one place, the second one counts. -/
theorem put_put (c : RecordCache) (key : RecordKey) (record record' : UnitRecord) :
    (c.put key record).put key record' = c.put key record' := by
  unfold put erase
  cases c.capacity with
  | zero => simp
  | succ m =>
    -- the first put has left no other record in that place
    have hothers : ∀ entry ∈ (c.entries.filter (·.1 ≠ key)).take m, decide (entry.1 ≠ key) = true :=
      fun entry hentry => (List.mem_filter.mp (List.mem_of_mem_take hentry)).2
    simp only [List.take_succ_cons, List.filter_cons, ne_eq, not_true_eq_false, decide_false,
      Bool.false_eq_true, ↓reduceIte]
    rw [List.filter_eq_self.mpr hothers, List.take_take, Nat.min_self]

/-- If there is one place to put records into, only the last one counts. -/
theorem exists_foldl_put_eq {name : String} {entries : List (String × UnitRecord)}
    (h : ∀ entry ∈ entries, entry.1 = name) (record : UnitRecord) :
    ∃ last, entries.foldl (fun c entry => c.put (unit, entry.1) entry.2)
      (c.put (unit, name) record) = c.put (unit, name) last := by
  induction entries generalizing record with
  | nil => exact ⟨record, rfl⟩
  | cons entry rest ih =>
    obtain ⟨hentry, hrest⟩ := List.forall_mem_cons.mp h
    rw [List.foldl_cons, hentry, put_put]
    exact ih hrest entry.2

/-- What is read for a single record is one put. -/
theorem exists_settle_eq_put {p : PendingLoad} {name : String}
    (hgeneration : c.generation = p.generation) (hnonempty : p.missed.materializations ≠ [])
    (hsingle : ∀ other ∈ p.missed.materializations, other = name) (walk : Dict.Walk String)
    (loaded : UnitRecords) : ∃ record, c.settle p walk loaded = c.put (p.unit, name) record := by
  have hwalk : ∀ read ∈ walk.entries p.missed, read.2 = name := fun read hread =>
    hsingle read.2 (Reads.mem_materializations_of_walk hread)
  rw [settle, if_pos hgeneration, PendingLoad.fetched]
  cases hentries : walk.entries p.missed with
  | nil =>
    have hperm := Reads.perm_materializations_of_walk walk p.missed
    rw [hentries] at hperm
    exact absurd hperm.nil_eq.symm hnonempty
  | cons first rest =>
    rw [hentries] at hwalk
    obtain ⟨hfirst, hrest⟩ := List.forall_mem_cons.mp hwalk
    rw [List.map_cons, List.foldl_cons, hfirst]
    exact exists_foldl_put_eq (List.forall_mem_map.mpr hrest) _

/-- The cache has the `n` places that were fetched last, and as many of those that were loaded as
there is room for. -/
structure Follows (n : Nat) (fetched loaded : List RecordKey) (c : RecordCache) : Prop where
  capacity : c.capacity = n
  keys : c.keys = fetched.reverse.take n
  nodup : c.keys.Nodup
  subset : ∀ key ∈ c.keys, key ∈ loaded
  size : c.keys.length = min n loaded.toFinset.card

variable {n : Nat} {fetched loaded : List RecordKey}

theorem follows_empty (hn : 1 ≤ n) : Follows n [] [] (.empty n) where
  capacity := max_eq_left hn
  keys := List.take_nil.symm
  nodup := List.nodup_nil
  subset _ h := by cases h
  size := (Nat.min_zero n).symm

/-- A place that the cache has may be loaded again. -/
theorem Follows.found (h : c.Follows n fetched loaded) (hkey : key ∈ c.keys) :
    c.Follows n fetched (loaded ++ [key]) where
  capacity := h.capacity
  keys := h.keys
  nodup := h.nodup
  subset other hother := List.mem_append_left _ (h.subset other hother)
  size := by
    rw [toFinset_append_singleton,
      Finset.insert_eq_of_mem (List.mem_toFinset.mpr (h.subset key hkey))]
    exact h.size

/-- A place that the cache does not have is put in front of the others. -/
theorem Follows.put (hn : 1 ≤ n) (h : c.Follows n fetched loaded) (hkey : key ∉ c.keys)
    (record : UnitRecord) : (c.put key record).Follows n (fetched ++ [key]) (loaded ++ [key]) := by
  have hkeys : (c.put key record).keys = (key :: c.keys).take n := by
    rw [keys_put_of_not_mem hkey, h.capacity]
  refine ⟨h.capacity, ?_, ?_, ?_, ?_⟩
  · obtain ⟨m, rfl⟩ := Nat.exists_eq_add_of_le' hn
    rw [hkeys, h.keys, List.reverse_append, List.reverse_singleton, List.singleton_append,
      List.take_succ_cons, List.take_succ_cons, List.take_take, Nat.min_eq_left (Nat.le_succ m)]
  · rw [hkeys]
    exact (List.nodup_cons.mpr ⟨hkey, h.nodup⟩).sublist (List.take_sublist _ _)
  · rw [hkeys]
    intro other hother
    rcases List.mem_cons.mp (List.mem_of_mem_take hother) with rfl | hbefore
    · exact List.mem_append_right _ List.mem_cons_self
    · exact List.mem_append_left _ (h.subset other hbefore)
  · rw [hkeys]
    exact length_take_cons h.nodup h.subset h.size hkey

end RecordCache

/-! ## Loads of single records -/

/-- A load of a single record: all rules for which something is read read the same materialization,
and there is such a rule. -/
structure PairLoad where
  unit : String
  name : String
  reads : Reads
  nonempty : reads.materializations ≠ []
  single : ∀ other ∈ reads.materializations, other = name

/-- The place of the record. -/
def PairLoad.key (l : PairLoad) : RecordKey := (l.unit, l.name)

/-- A load for one rule. -/
def PairLoad.ofRule (unit rule name : String) : PairLoad where
  unit := unit
  name := name
  reads := .ofList [(rule, name)]
  nonempty := List.cons_ne_nil name []
  single _ hother := List.mem_singleton.mp hother

/-- The place of the first record that the call has loaded. -/
def HelperCall.pair? : HelperCall → Option RecordKey
  | load unit reads (.ok _) => reads.materializations.head?.map (unit, ·)
  | _ => none

@[simp] theorem HelperCall.pair?_load_error (unit : String) (reads : Reads) (cause : StoreError) :
    (load unit reads (.error cause)).pair? = none := rfl

theorem HelperCall.pair?_load_ok (unit : String) {name : String} {reads : Reads}
    (records : UnitRecords) (hnonempty : reads.materializations ≠ [])
    (hsingle : ∀ other ∈ reads.materializations, other = name) :
    (load unit reads (.ok records)).pair? = some (unit, name) := by
  rw [pair?, List.head?_eq_some_head hnonempty, hsingle _ (List.head_mem hnonempty)]
  rfl

/-- The places that are loaded by calls that succeed, in their order. -/
def Recorded.pairs {τ : Type} (r : Recorded τ HelperCall) : List RecordKey :=
  r.calls.filterMap HelperCall.pair?

theorem Recorded.pairs_append {τ : Type} (r : Recorded τ HelperCall) (t : τ) (call : HelperCall) :
    ({ state := t, calls := r.calls ++ [call] } : Recorded τ HelperCall).pairs =
      r.pairs ++ call.pair?.toList := by
  rw [pairs, List.filterMap_append, ← pairs]
  cases h : call.pair? <;> simp [h]

namespace CachedStore

/-- A cached store that notes its calls, over a store that notes its calls. -/
abbrev Noted (τ : Type) := Recorded (CachedStore (Recorded τ HelperCall)) HelperCall

variable {τ : Type} {backend : RecordStore τ} {l : PairLoad} {c : RecordCache}
  {s : CachedStore (Recorded τ HelperCall)}

/-- What a load of a single record does, by what the cache has. -/
inductive LoadOutcome (backend : RecordStore τ) (l : PairLoad)
    (s : CachedStore (Recorded τ HelperCall)) (c : RecordCache) :
    Except StoreError UnitRecords × CachedStore (Recorded τ HelperCall) → Prop where
  /-- The cache has the record, and everything stays as it is. -/
  | found {records : UnitRecords} (hkey : l.key ∈ c.keys) :
    LoadOutcome backend l s c (.ok records, s)
  /-- The store behind fails, and nothing is put into the cache. -/
  | refused {reads : Reads} {cause : StoreError} {t : τ} (hkey : l.key ∉ c.keys) :
    LoadOutcome backend l s c (.error cause,
      { s with
        backend := ⟨t, s.backend.calls ++ [.load l.unit reads (.error cause)]⟩
        cache := some c })
  /-- The store behind answers, and the record is put into the cache. -/
  | fetched {call : HelperCall} {answer : UnitRecords} {record : UnitRecord} {t : τ}
    {walks : Nat → Dict.Walk String} (hkey : l.key ∉ c.keys) (hcall : call.pair? = some l.key) :
    LoadOutcome backend l s c (.ok answer,
      { backend := ⟨t, s.backend.calls ++ [call]⟩, cache := some (c.put l.key record), walks })

theorem loadOutcome (backend : RecordStore τ) (l : PairLoad) (hcache : s.cache = some c) :
    LoadOutcome backend l s c (load backend.recorded l.unit l.reads s) := by
  rw [load, beginLoad, hcache]
  dsimp only
  by_cases hempty : (c.lookUp l.unit l.reads).missed.isEmpty
  · rw [if_pos hempty]
    refine .found (RecordCache.mem_keys_iff.mpr fun hnone => ?_)
    have hname : l.name ∈ l.reads.materializations := by
      rw [← l.single _ (List.head_mem l.nonempty)]
      exact List.head_mem l.nonempty
    have hmem := RecordCache.mem_missed_lookUp.mpr ⟨hname, hnone⟩
    have hnil : (c.lookUp l.unit l.reads).missed.toList = [] := List.isEmpty_iff.mp hempty
    rw [Reads.materializations, hnil] at hmem
    cases hmem
  · rw [if_neg hempty]
    -- something is missed, and it can only be the one record
    have hnonempty : (c.lookUp l.unit l.reads).missed.materializations ≠ [] :=
      fun hnil => hempty (List.isEmpty_iff.mpr (List.map_eq_nil_iff.mp hnil))
    have hsingle : ∀ other ∈ (c.lookUp l.unit l.reads).missed.materializations, other = l.name :=
      fun other hother => l.single other (RecordCache.mem_missed_lookUp.mp hother).1
    have hkey : l.key ∉ c.keys := by
      have hhead := List.head_mem hnonempty
      rw [hsingle _ hhead] at hhead
      exact fun h => RecordCache.mem_keys_iff.mp h (RecordCache.mem_missed_lookUp.mp hhead).2
    dsimp only [RecordStore.recorded, Recorded.note]
    cases backend.load l.unit (c.lookUp l.unit l.reads).missed s.backend.state with
    | mk answer t =>
      cases answer with
      | error cause => exact .refused hkey
      | ok loaded =>
        obtain ⟨record, hput⟩ :=
          RecordCache.exists_settle_eq_put rfl hnonempty hsingle (s.walks 0) loaded
        dsimp only [endLoad]
        rw [hput]
        exact .fetched hkey (HelperCall.pair?_load_ok l.unit loaded hnonempty hsingle)

/-! ## Loads one after the other -/

/-- The next load of a single record. -/
def loadNext (backend : RecordStore τ) (r : Noted τ) (l : PairLoad) : Noted τ :=
  ((store backend.recorded).recorded.load l.unit l.reads r).2

/-- Loads of single records, one after the other, with a cache of size `n` that is empty at
first. -/
def loadEach (backend : RecordStore τ) (n : Nat) (t : τ) (loads : List PairLoad)
    (walks : Nat → Dict.Walk String := fun _ => .ascending) : Noted τ :=
  loads.foldl (loadNext backend)
    (.start (.ofBackend { maxEntries := n, enabled := true } (.start t) walks))

variable {n : Nat} {r : Noted τ} {walks : Nat → Dict.Walk String}

theorem state_loadNext (backend : RecordStore τ) (r : Noted τ) (l : PairLoad) :
    (loadNext backend r l).state = (load backend.recorded l.unit l.reads r.state).2 := rfl

theorem pairs_loadNext (backend : RecordStore τ) (r : Noted τ) (l : PairLoad) :
    (loadNext backend r l).pairs = r.pairs ++ (HelperCall.load l.unit l.reads
      (load backend.recorded l.unit l.reads r.state).1).pair?.toList :=
  r.pairs_append _ _

/-- What the cache has follows the notes. -/
def FollowsNotes (n : Nat) (r : Noted τ) : Prop :=
  ∃ c, r.state.cache = some c ∧ c.Follows n r.state.backend.pairs r.pairs

/-- **A load keeps to the notes.** -/
theorem FollowsNotes.loadNext (hn : 1 ≤ n) (h : FollowsNotes n r) (backend : RecordStore τ)
    (l : PairLoad) : FollowsNotes n (CachedStore.loadNext backend r l) := by
  obtain ⟨c, hcache, hfollows⟩ := h
  have hanswered (records : UnitRecords) :=
    HelperCall.pair?_load_ok l.unit records l.nonempty l.single
  have houtcome := loadOutcome backend l hcache
  unfold FollowsNotes
  rw [pairs_loadNext, state_loadNext]
  generalize CachedStore.load backend.recorded l.unit l.reads r.state = outcome at houtcome
  cases houtcome with
  | found hkey =>
    rw [hanswered]
    exact ⟨c, hcache, hfollows.found hkey⟩
  | refused hkey =>
    rw [Recorded.pairs_append, HelperCall.pair?_load_error, HelperCall.pair?_load_error,
      Option.toList_none, List.append_nil, List.append_nil]
    exact ⟨c, rfl, hfollows⟩
  | @fetched call answer record t walks hkey hcall =>
    rw [Recorded.pairs_append, hcall, hanswered]
    exact ⟨c.put l.key record, rfl, hfollows.put hn hkey record⟩

/-- Whatever is loaded, what the cache has follows the notes. -/
theorem followsNotes_loadEach (hn : 1 ≤ n) (backend : RecordStore τ) (t : τ)
    (loads : List PairLoad) : FollowsNotes n (loadEach backend n t loads walks) := by
  induction loads using List.reverseRecOn with
  | nil => exact ⟨.empty n, rfl, RecordCache.follows_empty hn⟩
  | append_singleton loads l ih =>
    rw [loadEach, List.foldl_concat, ← loadEach]
    exact ih.loadNext hn backend l

/-- If the store behind does not fail, a load does not. -/
theorem exists_load_eq_ok
    (hanswers : ∀ unit reads t, ∃ records, (backend.load unit reads t).1 = .ok records)
    (unit : String) (reads : Reads) (s : CachedStore (Recorded τ HelperCall)) :
    ∃ records, (load backend.recorded unit reads s).1 = .ok records := by
  rw [load]
  cases s.beginLoad unit reads with
  | done records => exact ⟨records, rfl⟩
  | pending p =>
    obtain ⟨records, hrecords⟩ := hanswers unit p.missed s.backend.state
    dsimp only [RecordStore.recorded, Recorded.note]
    rw [hrecords]
    exact ⟨_, rfl⟩

/-- If the store behind does not fail, everything that is loaded is noted as loaded. -/
theorem pairs_loadEach
    (hanswers : ∀ unit reads t, ∃ records, (backend.load unit reads t).1 = .ok records)
    (n : Nat) (t : τ) (loads : List PairLoad) :
    (loadEach backend n t loads walks).pairs = loads.map PairLoad.key := by
  induction loads using List.reverseRecOn with
  | nil => rfl
  | append_singleton loads l ih =>
    obtain ⟨records, hrecords⟩ := exists_load_eq_ok hanswers l.unit l.reads
      (loadEach backend n t loads walks).state
    rw [loadEach, List.foldl_concat, ← loadEach, pairs_loadNext, ih, hrecords,
      HelperCall.pair?_load_ok l.unit records l.nonempty l.single, List.map_append]
    rfl

theorem pairs_loadEach_memory (n : Nat) (t : MemoryStore) (loads : List PairLoad) :
    (loadEach MemoryStore.store n t loads).pairs = loads.map PairLoad.key :=
  pairs_loadEach (fun unit reads t => ⟨(MemoryStore.load unit reads t).1, rfl⟩) n t loads

/-! ## What is fetched again -/

/-- The next load of a single record asks the store behind. -/
def Reaches (backend : RecordStore τ) (r : Noted τ) (l : PairLoad) : Prop :=
  (loadNext backend r l).state.backend.calls ≠ r.state.backend.calls

/-- The cache has just these records, and a load asks the store behind just for the others. -/
structure Caches (backend : RecordStore τ) (r : Noted τ) (Kept : RecordKey → Prop) : Prop where
  cached : ∃ c, r.state.cache = some c ∧ ∀ key, key ∈ c.keys ↔ Kept key
  reaches : ∀ l, Reaches backend r l ↔ ¬ Kept l.key

theorem reaches_iff (hcache : r.state.cache = some c) : Reaches backend r l ↔ l.key ∉ c.keys := by
  have houtcome := loadOutcome backend l hcache
  rw [Reaches, state_loadNext]
  generalize load backend.recorded l.unit l.reads r.state = outcome at houtcome
  cases houtcome with
  | found hkey => simp [hkey]
  | refused hkey => simp [hkey]
  | fetched hkey => simp [hkey]

theorem caches_iff {Kept : RecordKey → Prop} (hcache : r.state.cache = some c) :
    Caches backend r Kept ↔ ∀ key, key ∈ c.keys ↔ Kept key := by
  constructor
  · rintro ⟨⟨c', hcache', hkept⟩, -⟩
    rw [hcache] at hcache'
    cases hcache'
    exact hkept
  · intro hkept
    refine ⟨⟨c, hcache, hkept⟩, fun l => ?_⟩
    rw [reaches_iff hcache, hkept]

/-- **Which records a cache keeps**, whatever the orders in which it is filled. After loads of
single records one after the other, the cache has the `n` records that were fetched last, and a load
asks the store behind just for the others. These are the `n` that were loaded last exactly if no
record that has left the cache was loaded later than one that stays. -/
theorem cache_keeps_last_fetched (hn : 1 ≤ n) (backend : RecordStore τ) (t : τ)
    (loads : List PairLoad) (walks : Nat → Dict.Walk String) :
    let r := loadEach backend n t loads walks
    let fetched := r.state.backend.pairs.reverse.take n
    Caches backend r (· ∈ fetched) ∧
      (Caches backend r (Recent n r.pairs) ↔
        ∀ kept ∈ fetched, ∀ left ∈ r.pairs, left ∉ fetched → LoadedAfter r.pairs kept left) := by
  intro r fetched
  obtain ⟨c, hcache, hfollows⟩ := followsNotes_loadEach hn backend t loads
  have hkeys : c.keys = fetched := hfollows.keys
  rw [caches_iff hcache, caches_iff hcache, ← hkeys]
  exact ⟨fun key => Iff.rfl,
    recent_iff_loadedAfter hfollows.nodup hfollows.subset hfollows.size⟩

/-- Loads of records of one unit, for one rule each. -/
private def loadsOf (names : List String) : List PairLoad := names.map (PairLoad.ofRule "alice" "r")

/-- A record that is loaded twice in a row may as well have been loaded once. -/
theorem repeated_load_recent : 1 ≤ 2 ∧
    Caches MemoryStore.store (loadEach MemoryStore.store 2 .empty (loadsOf ["a", "b", "b", "c"]))
      (Recent 2 ((loadsOf ["a", "b", "b", "c"]).map PairLoad.key)) := by
  have hfetched : (loadEach MemoryStore.store 2 .empty
      (loadsOf ["a", "b", "b", "c"])).state.backend.pairs.reverse.take 2 =
        [("alice", "c"), ("alice", "b")] := by decide +kernel
  have hkeeps := cache_keeps_last_fetched (n := 2) (by decide) MemoryStore.store .empty
    (loadsOf ["a", "b", "b", "c"]) fun _ => .ascending
  dsimp only at hkeeps
  rw [pairs_loadEach_memory, hfetched] at hkeeps
  refine ⟨by decide, hkeeps.2.mpr ?_⟩
  intro kept hkept left _ hleft
  refine ⟨[("alice", "b"), ("alice", "c")], ⟨[("alice", "a"), ("alice", "b")], rfl⟩, ?_, ?_⟩
  · simpa [or_comm] using hkept
  · simpa [and_comm] using hleft

/-- A record that is loaded again and again leaves the cache, and one that was loaded once stays. -/
theorem repeated_load_not_recent :
    ¬ Caches MemoryStore.store (loadEach MemoryStore.store 2 .empty (loadsOf ["a", "b", "a", "c"]))
      (Recent 2 ((loadsOf ["a", "b", "a", "c"]).map PairLoad.key)) := by
  rintro ⟨-, hreaches⟩
  refine (hreaches (.ofRule "alice" "r" "a")).mp ?_ ?_
  · intro hcalls
    exact absurd (congrArg List.length hcalls) (by decide +kernel)
  · exact ⟨[("alice", "a"), ("alice", "c")], ⟨[("alice", "a"), ("alice", "b")], rfl⟩, by decide,
      by decide⟩

end CachedStore

end FeatureFlags
