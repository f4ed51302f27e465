import FeatureFlags.Dict

/-!
# Look-ups in dictionaries

What each operation does to the look-ups, and that a dictionary is nothing but its
look-ups: `Dict.ext`. What a fold over the entries does is told name by name
(`Dict.observe_foldl`), because each name comes once.
-/

namespace FeatureFlags

universe u v w

namespace Entries

variable {α : Type u} {β : Type v}

theorem get?_erase (name other : String) (entries : List (String × α)) :
    get? other (erase name entries) = if other = name then none else get? other entries := by
  induction entries with
  | nil => simp [erase, get?]
  | cons e rest ih =>
    obtain ⟨k, v⟩ := e
    simp only [erase, ne_eq, decide_not] at ih ⊢
    by_cases hk : k = name
    · subst hk
      by_cases ho : other = k
      · simpa [ho] using ih
      · simp [ih, get?, ho, Ne.symm ho]
    · by_cases ho : k = other
      · subst ho; simp [hk, get?]
      · simp [hk, ho, get?, ih]

theorem get?_map (f : α → β) (name : String) (entries : List (String × α)) :
    get? name (map f entries) = (get? name entries).map f := by
  induction entries with
  | nil => rfl
  | cons e rest ih =>
    obtain ⟨k, v⟩ := e
    unfold map at ih ⊢
    by_cases hk : k = name <;> simp [get?, hk, ih]

theorem get?_eq_none_of_forall_lt {name : String} {entries : List (String × α)}
    (h : ∀ e ∈ entries, name < e.1) : get? name entries = none := by
  induction entries with
  | nil => rfl
  | cons e rest ih =>
    obtain ⟨k, v⟩ := e
    have hk : k ≠ name := fun heq => String.lt_irrefl name (heq ▸ h _ List.mem_cons_self)
    simpa [get?, hk] using ih fun e he => h e (List.mem_cons_of_mem _ he)

theorem mem_of_get?_eq_some {name : String} {value : α} {entries : List (String × α)}
    (h : get? name entries = some value) : (name, value) ∈ entries := by
  induction entries with
  | nil => cases h
  | cons e rest ih =>
    obtain ⟨k, v⟩ := e
    by_cases hk : k = name
    · simp only [get?, hk, ↓reduceIte, Option.some.injEq] at h
      simp [hk, h]
    · simp only [get?, hk, ↓reduceIte] at h
      exact List.mem_cons_of_mem _ (ih h)

theorem isSome_get?_iff {name : String} {entries : List (String × α)} :
    (get? name entries).isSome = true ↔ name ∈ entries.map (·.1) := by
  induction entries with
  | nil => simp
  | cons e rest ih =>
    obtain ⟨k, v⟩ := e
    rw [get?, List.map_cons, List.mem_cons, ← ih]
    by_cases hk : k = name
    · simp [hk]
    · simp [hk, Ne.symm hk]

/-- In an ascending listing every entry is found under its name. -/
theorem Ascending.get?_eq_some_iff {entries : List (String × α)} (h : Ascending entries)
    {name : String} {value : α} : get? name entries = some value ↔ (name, value) ∈ entries := by
  refine ⟨mem_of_get?_eq_some, fun hmem => ?_⟩
  induction entries with
  | nil => cases hmem
  | cons e rest ih =>
    obtain ⟨k, v⟩ := e
    have hrest := List.pairwise_cons.1 h
    rcases List.mem_cons.1 hmem with heq | hmem
    · cases heq; simp [get?]
    · have hk : k ≠ name := fun heq => String.lt_irrefl k (heq ▸ hrest.1 _ hmem)
      simpa [get?, hk] using ih hrest.2 hmem

private theorem Ascending.observe_foldl {σ : Type v} {ω : Type w} {entries : List (String × α)}
    (h : Ascending entries) {name : String} (observe : σ → ω) {step : σ → String × α → σ}
    (change : α → ω → ω)
    (hself : ∀ s value, observe (step s (name, value)) = change value (observe s))
    (hother : ∀ s e, e.1 ≠ name → observe (step s e) = observe s) (s : σ) :
    observe (entries.foldl step s) =
      match get? name entries with
      | some value => change value (observe s)
      | none => observe s := by
  induction entries generalizing s with
  | nil => rfl
  | cons e rest ih =>
    obtain ⟨k, value⟩ := e
    obtain ⟨hlt, hrest⟩ := List.pairwise_cons.1 h
    rw [List.foldl_cons, ih hrest, get?]
    by_cases hk : k = name
    · -- the name does not come again
      subst hk
      rw [get?_eq_none_of_forall_lt hlt, if_pos rfl]
      exact hself s value
    · rw [if_neg hk, hother s (k, value) hk]

/-- Two ascending listings with the same look-ups are one. -/
theorem Ascending.ext {a b : List (String × α)} (ha : Ascending a) (hb : Ascending b)
    (h : ∀ name, get? name a = get? name b) : a = b := by
  induction a generalizing b with
  | nil =>
    cases b with
    | nil => rfl
    | cons e _ => obtain ⟨k, v⟩ := e; simpa [get?] using h k
  | cons e as ih =>
    obtain ⟨k, v⟩ := e
    have has := List.pairwise_cons.1 ha
    cases b with
    | nil => simpa [get?] using h k
    | cons e' bs =>
      obtain ⟨k', v'⟩ := e'
      have hbs := List.pairwise_cons.1 hb
      have hkey : k = k' := by
        refine String.le_antisymm (fun hlt => ?_) (fun hlt => ?_)
        · have hnone : get? k' ((k, v) :: as) = none :=
            get?_eq_none_of_forall_lt fun e he => by
              rcases List.mem_cons.1 he with rfl | he
              · exact hlt
              · exact String.lt_trans hlt (has.1 e he)
          rw [h k'] at hnone
          simp [get?] at hnone
        · have hnone : get? k ((k', v') :: bs) = none :=
            get?_eq_none_of_forall_lt fun e he => by
              rcases List.mem_cons.1 he with rfl | he
              · exact hlt
              · exact String.lt_trans hlt (hbs.1 e he)
          rw [← h k] at hnone
          simp [get?] at hnone
      subst hkey
      have hvalue : v = v' := by simpa [get?] using h k
      subst hvalue
      have hsame : as = bs := ih has.2 hbs.2 fun name => by
        by_cases hn : k = name
        · subst hn
          rw [get?_eq_none_of_forall_lt has.1, get?_eq_none_of_forall_lt hbs.1]
        · simpa [get?, hn] using h name
      rw [hsame]

theorem mem_of_mem_ofList {entries : List (String × α)} {e : String × α}
    (h : e ∈ ofList entries) : e ∈ entries := by
  suffices hfold : ∀ acc : List (String × α),
      e ∈ entries.foldl (fun acc e => insert e.1 e.2 acc) acc → e ∈ entries ∨ e ∈ acc by
    exact (hfold [] h).resolve_right List.not_mem_nil
  clear h
  induction entries with
  | nil => exact fun acc h => .inr h
  | cons head entries ih =>
    intro acc h
    obtain h | h := ih _ h
    · exact .inl (List.mem_cons_of_mem _ h)
    · obtain rfl | h := mem_insert h
      · exact .inl List.mem_cons_self
      · exact .inr h

/-- A listing that ascends already stays as it is. -/
theorem Ascending.ofList_eq {entries : List (String × α)} (h : Ascending entries) :
    ofList entries = entries := by
  refine (ascending_ofList entries).ext h fun name => ?_
  have hfold := h.observe_foldl (get? name) (fun value _ => some value)
    (fun acc value => get?_insert_self name value acc)
    (fun acc e hne => get?_insert_of_ne hne.symm e.2 acc) []
  rw [ofList, hfold]
  cases get? name entries <;> rfl

end Entries

namespace Dict

variable {α : Type u} {β : Type v}

/-- Dictionaries with the same look-ups are equal. -/
@[ext] theorem ext {d e : Dict α} (h : ∀ name, d.get? name = e.get? name) : d = e := by
  obtain ⟨entries, ha⟩ := d
  obtain ⟨entries', hb⟩ := e
  cases Entries.Ascending.ext ha hb h
  rfl

theorem get?_erase (d : Dict α) (name other : String) :
    (d.erase name).get? other = if other = name then none else d.get? other :=
  Entries.get?_erase name other d.entries

@[simp] theorem get?_map (f : α → β) (d : Dict α) (name : String) :
    (d.map f).get? name = (d.get? name).map f :=
  Entries.get?_map f name d.entries

theorem get?_eq_some_iff (d : Dict α) {name : String} {value : α} :
    d.get? name = some value ↔ (name, value) ∈ d.toList :=
  d.ascending.get?_eq_some_iff

/-- Of two values put under one name the later one stays. -/
theorem insert_insert_self (d : Dict α) (name : String) (value later : α) :
    (d.insert name value).insert name later = d.insert name later := by
  ext1 other
  simp only [get?_insert]
  split <;> rfl

/-- Under two names values are put in either order. -/
theorem insert_comm (d : Dict α) {name other : String} (h : name ≠ other) (value value' : α) :
    (d.insert name value).insert other value' = (d.insert other value').insert name value := by
  ext1 key
  simp only [get?_insert]
  split
  · next heq => rw [if_neg (heq ▸ h.symm)]
  · rfl

theorem mem_keys_iff (d : Dict α) {name : String} : name ∈ d.keys ↔ (d.get? name).isSome := by
  rw [Option.isSome_iff_exists]
  constructor
  · intro h
    obtain ⟨⟨_, value⟩, hentry, rfl⟩ := List.mem_map.mp h
    exact ⟨value, d.get?_eq_some_iff.mpr hentry⟩
  · rintro ⟨value, hvalue⟩
    exact List.mem_map.mpr ⟨(name, value), d.get?_eq_some_iff.mp hvalue, rfl⟩

/-- Names come in ascending order, so none comes twice. -/
theorem pairwise_keys (d : Dict α) : d.keys.Pairwise (· < ·) := List.pairwise_map.mpr d.ascending

theorem nodup_keys (d : Dict α) : d.keys.Nodup := by
  refine d.pairwise_keys.imp fun hlt heq => ?_
  rw [heq] at hlt
  exact String.lt_irrefl _ hlt

/-- Where something is put under a name in each step, there are the names of all steps. -/
theorem isSome_get?_foldl_insert {ι : Type w} (name : ι → String) (value : Dict α → ι → α)
    (l : List ι) (key : String) :
    ((l.foldl (fun d i => d.insert (name i) (value d i)) empty).get? key).isSome ↔
      ∃ i ∈ l, name i = key := by
  have hreverse : (∃ i ∈ l, name i = key) ↔ ∃ i ∈ l.reverse, name i = key := by
    simp only [List.mem_reverse]
  -- from the back: what is put there last is found first
  rw [List.foldl_eq_foldr_reverse, hreverse]
  generalize l.reverse = back
  clear hreverse
  induction back with
  | nil => simp
  | cons i rest ih =>
    simp only [List.foldr_cons, get?_insert, List.mem_cons, exists_eq_or_imp]
    by_cases hkey : key = name i
    · rw [if_pos hkey]
      exact iff_of_true rfl (.inl hkey.symm)
    · rw [if_neg hkey, or_iff_right fun h => hkey h.symm]
      exact ih

/-- A fold over the entries, of which only what becomes of one name is observed: the entry under that
name counts, and no other does. -/
theorem observe_foldl {σ : Type v} {ω : Type w} (d : Dict α) {name : String} (observe : σ → ω)
    {step : σ → String × α → σ} (change : α → ω → ω)
    (hself : ∀ s value, observe (step s (name, value)) = change value (observe s))
    (hother : ∀ s e, e.1 ≠ name → observe (step s e) = observe s) (s : σ) :
    observe (d.toList.foldl step s) =
      match d.get? name with
      | some value => change value (observe s)
      | none => observe s :=
  d.ascending.observe_foldl observe change hself hother s

/-- The entries may be gone through in any order, because no name comes twice. -/
theorem observe_foldl_perm {σ : Type v} {ω : Type w} (d : Dict α) {entries : List (String × α)}
    (hperm : entries.Perm d.toList) {name : String} (observe : σ → ω) {step : σ → String × α → σ}
    (change : α → ω → ω)
    (hself : ∀ s value, observe (step s (name, value)) = change value (observe s))
    (hother : ∀ s e, e.1 ≠ name → observe (step s e) = observe s) (s : σ) :
    observe (entries.foldl step s) =
      match d.get? name with
      | some value => change value (observe s)
      | none => observe s := by
  have hskip : ∀ (l : List (String × α)) (s : σ), (∀ e ∈ l, e.1 ≠ name) →
      observe (l.foldl step s) = observe s := by
    intro l
    induction l with
    | nil => exact fun s _ => rfl
    | cons e l ih =>
      intro s hl
      obtain ⟨he, hl⟩ := List.forall_mem_cons.mp hl
      rw [List.foldl_cons, ih _ hl, hother s e he]
  cases hfound : d.get? name with
  | none =>
    refine hskip entries s fun e he heq => ?_
    have hmem := d.get?_eq_some_iff.mpr (hperm.mem_iff.mp he)
    rw [heq, hfound] at hmem
    cases hmem
  | some value =>
    -- before and behind the entry of the name nothing changes what is observed
    obtain ⟨before, after, rfl⟩ :=
      List.append_of_mem (hperm.mem_iff.mpr (d.get?_eq_some_iff.mp hfound))
    have hnodup : ((before ++ (name, value) :: after).map (·.1)).Nodup :=
      (hperm.map _).nodup_iff.mpr d.nodup_keys
    rw [List.map_append, List.map_cons, List.nodup_append] at hnodup
    obtain ⟨-, hafter, hbefore⟩ := hnodup
    have hskipBefore : ∀ e ∈ before, e.1 ≠ name := fun e he =>
      hbefore e.1 (List.mem_map_of_mem he) name List.mem_cons_self
    have hskipAfter : ∀ e ∈ after, e.1 ≠ name := fun e he heq =>
      (List.nodup_cons.mp hafter).1 (List.mem_map.mpr ⟨e, he, heq⟩)
    rw [List.foldl_append, List.foldl_cons, hskip after _ hskipAfter, hself,
      hskip before s hskipBefore]

/-- Of two dictionaries put together the second one is looked into first. -/
@[simp] theorem get?_union (d other : Dict α) (name : String) :
    (d.union other).get? name = (other.get? name).or (d.get? name) := by
  have hfold : (d.union other).get? name =
      match other.get? name with
      | some value => some value
      | none => d.get? name :=
    other.observe_foldl (fun acc => acc.get? name) (fun value _ => some value)
      (fun acc value => acc.get?_insert_self name value)
      (fun acc e he => acc.get?_insert_of_ne (Ne.symm he) e.2) d
  rw [hfold]
  cases other.get? name <;> rfl

@[simp] theorem union_empty (d : Dict α) : d.union empty = d := rfl

@[simp] theorem empty_union (d : Dict α) : empty.union d = d := by ext1; simp

@[simp] theorem union_self (d : Dict α) : d.union d = d := by ext1; simp

/-- Of several entries under one name the last one counts. -/
theorem get?_ofList (entries : List (String × α)) (name : String) :
    (ofList entries).get? name = (entries.reverse.find? (·.1 = name)).map (·.2) := by
  show Entries.get? name (Entries.ofList entries) = _
  rw [Entries.ofList, ← List.foldr_reverse]
  induction entries.reverse with
  | nil => rfl
  | cons e rest ih =>
    rw [List.foldr_cons, List.find?_cons]
    by_cases hname : e.1 = name
    · rw [← hname, Entries.get?_insert_self, decide_eq_true rfl]
      rfl
    · rw [Entries.get?_insert_of_ne (Ne.symm hname), ih, decide_eq_false hname]

/-- Where the values are given by name, it does not matter which entry of a name counts. -/
theorem get?_ofList_filterMap (value? : String → Option α) (names : List String) (name : String) :
    (ofList (names.filterMap fun n => (value? n).map (n, ·))).get? name =
      if name ∈ names then value? name else none := by
  suffices h : ∀ acc : List (String × α), Entries.get? name
      ((names.filterMap fun n => (value? n).map (n, ·)).foldl
        (fun acc e => Entries.insert e.1 e.2 acc) acc) =
      if name ∈ names then (value? name).or (Entries.get? name acc)
      else Entries.get? name acc by
    show Entries.get? name (Entries.ofList _) = _
    rw [Entries.ofList, h]
    simp
  induction names with
  | nil => exact fun acc => rfl
  | cons n rest ih =>
    intro acc
    cases hn : value? n with
    | none =>
      rw [List.filterMap_cons_none (by rw [hn, Option.map_none]), ih]
      by_cases heq : name = n
      · subst heq
        simp [hn]
      · simp [heq]
    | some a =>
      rw [List.filterMap_cons_some (by rw [hn, Option.map_some]), List.foldl_cons, ih]
      by_cases heq : name = n
      · subst heq
        simp [hn, Entries.get?_insert_self]
      · simp [heq, Entries.get?_insert_of_ne heq]

end Dict

end FeatureFlags
