import FeatureFlags.Dict.Lemmas
import FeatureFlags.Proofs.Fallible
import FeatureFlags.Snapshot.Basic
import Mathlib.Data.List.Forall2

/-!
# What a checked snapshot guarantees

`Snapshot.Checked` lists what resolving may rely on, one clause for each check that
`Snapshot.build` makes of segments and flags; `Snapshot.checked_of_build` says that
every snapshot that was built has it.

The checks run over the parts as delivered, while the clauses speak of what is found by
name in the snapshot. What lies between: the flag that is found under a name is the one that
was delivered with it (`get?_of_gatherFlags_iff`), and filling in the values of its variants
keeps their names and their order (`forall₂_expandVariants`).

`Snapshot.BuiltFrom` says where the parts of a snapshot come from.
-/

namespace FeatureFlags

/-- Whether a variant is defined is told by the names of the variants. -/
theorem Flag.isSome_variant?_iff {f : Flag} {name : String} :
    (f.variant? name).isSome = true ↔ name ∈ f.variants.map (·.name) := by
  rw [Flag.variant?, List.find?_isSome, List.mem_map]
  simp

/-- The names are distinct, and nothing stands under them. -/
def Dict.Fresh {α : Type} (d : Dict α) (names : List String) : Prop :=
  (∀ name ∈ names, d.contains name = false) ∧ names.Nodup

theorem Dict.fresh_empty_iff {α : Type} {names : List String} :
    (empty : Dict α).Fresh names ↔ names.Nodup :=
  and_iff_right fun _ _ => rfl

/-- Names are new after the first was put in exactly if all of them were new before. -/
theorem Dict.fresh_cons_iff {α : Type} {d : Dict α} {name : String} {names : List String} (a : α) :
    d.Fresh (name :: names) ↔ d.contains name = false ∧ (d.insert name a).Fresh names := by
  unfold Fresh
  rw [List.forall_mem_cons, List.nodup_cons, and_assoc, and_congr_right_iff]
  intro hname
  have hinsert : ∀ other, (d.insert name a).contains other = false ↔
      d.contains other = false ∧ other ≠ name := by
    intro other
    rw [contains, get?_insert]
    by_cases h : other = name
    · simp [h]
    · simp [h, contains]
  simp only [hinsert, forall_and, and_assoc]
  grind

namespace Snapshot

/-- What resolving may rely on. -/
structure Checked (s : Snapshot) : Prop where
  /-- The expressions that are evaluated are those of the segments, simplified. -/
  expressions : s.expressions = s.segments.map fun segment => segment.targeting.expression.simplify
  /-- Every name in an expression has a criterion. -/
  criteria : ∀ {name : String} {segment : Segment}, s.segments.get? name = some segment →
    ∀ ref ∈ segment.targeting.expression.refs,
      ∃ criterion, segment.targeting.criteria.get? ref = some criterion
  /-- Every segment that a criterion names exists. -/
  targets : ∀ {name ref target : String} {segment : Segment},
    s.segments.get? name = some segment →
    segment.targeting.criteria.get? ref = some (.inSegment target) →
      s.segments.contains target = true
  /-- Allocations are sound. -/
  allocations : ∀ {name : String} {f : Flag}, s.flags.get? name = some f →
    ∀ r ∈ f.rules, r.allocation.error? = none
  /-- Every variant that a rule can give is defined. -/
  variants : ∀ {name : String} {f : Flag}, s.flags.get? name = some f →
    ∀ r ∈ f.rules, ∀ variant ∈ r.variantNames, (f.variant? variant).isSome = true

/-! ## Checking and gathering -/

theorem checkAll_eq_ok_iff {α ε : Type} {check : α → Except ε Unit} {items : List α} :
    checkAll check items = .ok () ↔ ∀ a ∈ items, check a = .ok () := by
  induction items with
  | nil => exact iff_of_true rfl (List.forall_mem_nil _)
  | cons a rest ih =>
    rw [checkAll, bind_eq_ok_iff, List.forall_mem_cons, ← ih]
    constructor
    · rintro ⟨⟨⟩, ha, hrest⟩
      exact ⟨ha, hrest⟩
    · rintro ⟨ha, hrest⟩
      exact ⟨(), ha, hrest⟩

section Gathering

variable {α ε : Type} {name : α → String} {duplicate : String → ε} {d d' : Dict α} {items : List α}

theorem exists_gather_iff :
    (∃ d', gather name duplicate d items = .ok d') ↔ d.Fresh (items.map name) := by
  induction items generalizing d with
  | nil => simp [gather, Dict.Fresh]
  | cons a rest ih =>
    rw [gather, List.map_cons, Dict.fresh_cons_iff a, ← ih]
    cases d.contains (name a) <;> simp

theorem get?_of_gather_iff (h : gather name duplicate d items = .ok d') {key : String} {a : α} :
    d'.get? key = some a ↔ d.get? key = some a ∨ a ∈ items ∧ name a = key := by
  induction items generalizing d with
  | nil =>
    cases h
    simp
  | cons first rest ih =>
    rw [gather] at h
    split at h
    · cases h
    · next hnew =>
      rw [ih h, Dict.get?_insert, List.mem_cons]
      have hnone : d.get? (name first) = none := by simpa [Dict.contains] using hnew
      by_cases hkey : key = name first
      · subst hkey
        rw [if_pos rfl, hnone]
        grind
      · rw [if_neg hkey]
        grind

end Gathering

/-- The flag found under a name was there before, or it was delivered with that name, checked and
filled in. -/
theorem get?_of_gatherFlags_iff {d d' : Dict Flag} {flags : List Flag}
    (h : gatherFlags d flags = .ok d') {name : String} {f : Flag} :
    d'.get? name = some f ↔
      d.get? name = some f ∨
        ∃ delivered ∈ flags, delivered.name = name ∧ expandFlag delivered = .ok f := by
  induction flags generalizing d with
  | nil =>
    cases h
    simp
  | cons delivered rest ih =>
    rw [gatherFlags] at h
    obtain ⟨expanded, hexpand, h⟩ := bind_eq_ok_iff.mp h
    split at h
    · cases h
    · next hnew =>
      rw [ih h, Dict.get?_insert, List.exists_mem_cons_iff, hexpand, Except.ok.injEq]
      by_cases hname : name = delivered.name
      · -- there was nothing under the name before
        subst hname
        have hnone : d.get? delivered.name = none := by simpa [Dict.contains] using hnew
        simp [hnone]
      · simp [hname, Ne.symm hname]

/-- Flags are gathered exactly if their names are distinct and each of them can be filled in. -/
theorem exists_gatherFlags_iff {d : Dict Flag} {flags : List Flag} :
    (∃ d', gatherFlags d flags = .ok d') ↔
      d.Fresh (flags.map (·.name)) ∧ ∀ f ∈ flags, ∃ expanded, expandFlag f = .ok expanded := by
  induction flags generalizing d with
  | nil => simp [gatherFlags, Dict.Fresh]
  | cons f rest ih =>
    rw [List.forall_mem_cons, gatherFlags, List.map_cons]
    cases hexpand : expandFlag f with
    | error cause => simp [bind, Except.bind]
    | ok expanded =>
      rw [Dict.fresh_cons_iff expanded]
      show (∃ d', (if d.contains f.name then _ else gatherFlags (d.insert f.name expanded) rest) =
        .ok d') ↔ _
      cases d.contains f.name with
      | true => simp
      | false => simpa using ih

/-- No two flags are delivered with one name. -/
theorem nodup_names_of_gatherFlags {d d' : Dict Flag} {flags : List Flag}
    (h : gatherFlags d flags = .ok d') : d.Fresh (flags.map (·.name)) :=
  (exists_gatherFlags_iff.mp ⟨d', h⟩).1

theorem gatherFlags_singleton {f expanded : Flag} (h : expandFlag f = .ok expanded) :
    gatherFlags .empty [f] = .ok (.ofList [(f.name, expanded)]) := by
  rw [gatherFlags, h]
  rfl

/-! ## Segments -/

/-- The segments of a configuration by name. -/
def GathersTo (input : SnapshotInput) (segments : Dict Segment) : Prop :=
  gather Segment.name SnapshotError.duplicateSegment .empty input.segments = .ok segments

/-- Of the gathered segments, those of a name are those that were delivered with it. -/
theorem GathersTo.get?_iff {input : SnapshotInput} {segments : Dict Segment}
    (h : GathersTo input segments) {name : String} {segment : Segment} :
    segments.get? name = some segment ↔ segment ∈ input.segments ∧ segment.name = name := by
  rw [get?_of_gather_iff h, Dict.get?_empty]
  simp

/-- What the check of a criterion finds out. -/
theorem checkCriterion_eq_ok_iff {segments : Dict Segment} {segment ref : String}
    {criterion : Criterion} :
    checkCriterion segments segment (ref, criterion) = .ok () ↔
      (∀ path rule, criterion = .onAttribute path rule → rule.validate = .ok ()) ∧
        ∀ target, criterion = .inSegment target → segments.contains target = true := by
  cases criterion with
  | onAttribute path rule =>
    cases h : rule.validate <;> simp [checkCriterion, h]
  | inSegment target =>
    cases h : segments.contains target <;> simp [checkCriterion, h]

/-- What the check of a segment finds out. -/
theorem checkSegment_eq_ok_iff {segments : Dict Segment} {segment : Segment} :
    checkSegment segments segment = .ok () ↔
      (∀ ref ∈ segment.targeting.expression.refs,
          ∃ criterion, segment.targeting.criteria.get? ref = some criterion) ∧
        (∀ ref path rule, segment.targeting.criteria.get? ref = some (.onAttribute path rule) →
          rule.validate = .ok ()) ∧
        ∀ ref target, segment.targeting.criteria.get? ref = some (.inSegment target) →
          segments.contains target = true := by
  have hdangling : segment.targeting.danglingRefs = [] ↔
      ∀ ref ∈ segment.targeting.expression.refs,
        ∃ criterion, segment.targeting.criteria.get? ref = some criterion := by
    simp [Targeting.danglingRefs, List.filter_eq_nil_iff, Dict.contains,
      Option.ne_none_iff_exists']
  have hcriteria : checkAll (checkCriterion segments segment.name)
        segment.targeting.criteria.toList = .ok () ↔
      ∀ ref criterion, segment.targeting.criteria.get? ref = some criterion →
        checkCriterion segments segment.name (ref, criterion) = .ok () := by
    simp only [checkAll_eq_ok_iff, Prod.forall, Dict.get?_eq_some_iff]
  rw [checkSegment, ← hdangling]
  cases segment.targeting.danglingRefs with
  | cons ref rest => simp
  | nil =>
    dsimp only
    rw [hcriteria, and_iff_right rfl]
    simp only [checkCriterion_eq_ok_iff]
    grind

/-! ## Flags -/

/-- The variants keep their names and get the values that the schema makes of theirs. -/
theorem forall₂_expandVariants {f : Flag} {variants expanded : List Variant}
    (h : expandVariants f variants = .ok expanded) :
    List.Forall₂ (fun delivered v => v.name = delivered.name ∧
      f.schema.expand delivered.value = .ok v.value) variants expanded := by
  induction variants generalizing expanded with
  | nil =>
    cases h
    exact .nil
  | cons v rest ih =>
    unfold expandVariants at h
    split at h
    · cases h
    · next value hvalue =>
      obtain ⟨others, hothers, hexpanded⟩ := bind_eq_ok_iff.mp h
      cases hexpanded
      exact .cons ⟨rfl, hvalue⟩ (ih hothers)

theorem map_name_expandVariants {f : Flag} {variants expanded : List Variant}
    (h : expandVariants f variants = .ok expanded) :
    expanded.map (·.name) = variants.map (·.name) := by
  have hnames := (forall₂_expandVariants h).imp fun _ _ hv => hv.1
  rw [← List.forall₂_eq_eq_eq, List.forall₂_map_left_iff, List.forall₂_map_right_iff]
  exact hnames.flip

/-- What the check of a rule finds out. -/
theorem checkRule_eq_ok_iff {f : Flag} {r : FlagRule} :
    checkRule f r = .ok () ↔
      r.allocation.error? = none ∧ ∀ name ∈ r.variantNames, (f.variant? name).isSome = true := by
  unfold checkRule
  cases r.allocation.error? with
  | some cause => simp
  | none =>
    dsimp only
    split
    · next variant hundefined =>
      have hmem := List.mem_of_find?_eq_some hundefined
      have hnone := List.find?_some hundefined
      simp only [Option.isNone_iff_eq_none] at hnone
      simp only [reduceCtorEq, true_and, false_iff, not_forall]
      exact ⟨variant, hmem, by simp [hnone]⟩
    · next hdefined =>
      simpa [Option.isSome_iff_ne_none] using hdefined

/-- A flag gets the values of its variants filled in once its rules have been checked. -/
theorem expandFlag_eq_ok_iff {delivered f : Flag} :
    expandFlag delivered = .ok f ↔
      (∀ r ∈ delivered.rules, checkRule delivered r = .ok ()) ∧
        ∃ variants, expandVariants delivered delivered.variants = .ok variants ∧
          f = { delivered with variants } := by
  rw [expandFlag, bind_eq_ok_iff, ← checkAll_eq_ok_iff]
  constructor
  · rintro ⟨⟨⟩, hrules, h⟩
    obtain ⟨variants, hvariants, hf⟩ := bind_eq_ok_iff.mp h
    cases hf
    exact ⟨hrules, variants, hvariants, rfl⟩
  · rintro ⟨hrules, variants, hvariants, rfl⟩
    exact ⟨(), hrules, bind_eq_ok_iff.mpr ⟨variants, hvariants, rfl⟩⟩

/-- The rules of a flag with its values filled in are sound and give variants that it defines. -/
theorem sound_of_expandFlag {delivered f : Flag} (h : expandFlag delivered = .ok f) :
    ∀ r ∈ f.rules, r.allocation.error? = none ∧
      ∀ name ∈ r.variantNames, (f.variant? name).isSome = true := by
  obtain ⟨hrules, variants, hvariants, rfl⟩ := expandFlag_eq_ok_iff.mp h
  intro r hr
  obtain ⟨hsound, hdefined⟩ := checkRule_eq_ok_iff.mp (hrules r hr)
  refine ⟨hsound, fun name hname => ?_⟩
  have hdelivered := hdefined name hname
  rw [Flag.isSome_variant?_iff] at hdelivered ⊢
  rw [map_name_expandVariants hvariants]
  exact hdelivered

/-- Where variants stand side by side under the same names, the first of a name stands beside the
first of that name. -/
theorem exists_find?_of_forall₂ {R : Variant → Variant → Prop} {given filled : List Variant}
    (h : List.Forall₂ (fun g v => v.name = g.name ∧ R g v) given filled) {name : String}
    {v : Variant} (hv : filled.find? (·.name = name) = some v) :
    ∃ g, given.find? (·.name = name) = some g ∧ R g v := by
  induction h with
  | nil => cases hv
  | @cons g v' rest rest' hhead _ ih =>
    by_cases hname : g.name = name
    · have hname' : v'.name = name := hhead.1.trans hname
      rw [List.find?_cons_of_pos (by simpa using hname')] at hv
      cases hv
      exact ⟨g, List.find?_cons_of_pos (by simpa using hname), hhead.2⟩
    · have hname' : v'.name ≠ name := fun heq => hname (hhead.1.symm.trans heq)
      rw [List.find?_cons_of_neg (by simpa using hname')] at hv
      rw [List.find?_cons_of_neg (by simpa using hname)]
      exact ih hv

/-- The value of a variant is what the schema makes of the value that was delivered under its
name. -/
theorem exists_given_of_variant? {delivered f : Flag} (h : expandFlag delivered = .ok f)
    {name : String} {v : Variant} (hv : f.variant? name = some v) :
    ∃ given, delivered.variant? name = some given ∧
      delivered.schema.expand given.value = .ok v.value := by
  obtain ⟨-, variants, hvariants, rfl⟩ := expandFlag_eq_ok_iff.mp h
  exact exists_find?_of_forall₂ (forall₂_expandVariants hvariants) hv

/-! ## Snapshots -/

/-- Where the parts of a snapshot come from. -/
structure BuiltFrom (input : SnapshotInput) (s : Snapshot) : Prop where
  account : s.account = input.account
  segments : gather Segment.name SnapshotError.duplicateSegment .empty input.segments =
    .ok s.segments
  checked : ∀ entry ∈ s.segments.toList, checkSegment s.segments entry.2 = .ok ()
  populations : s.populations = input.populations
  expressions : s.expressions = s.segments.map fun segment => segment.targeting.expression.simplify
  flags : gatherFlags .empty input.flags = .ok s.flags
  clients : s.clients = Dict.ofList (input.credentials.map fun c => (c.secret, c.client))
  fingerprint : s.fingerprint = input.fingerprint

theorem builtFrom_of_build {input : SnapshotInput} {s : Snapshot} (h : build input = .ok s) :
    BuiltFrom input s := by
  obtain ⟨segments, hgather, h⟩ := bind_eq_ok_iff.mp h
  obtain ⟨⟨⟩, hsegments, h⟩ := bind_eq_ok_iff.mp h
  obtain ⟨⟨⟩, -, h⟩ := bind_eq_ok_iff.mp h
  obtain ⟨flags, hflags, hs⟩ := bind_eq_ok_iff.mp h
  cases hs
  exact
    { account := rfl
      segments := hgather
      checked := List.forall_mem_map.mp (checkAll_eq_ok_iff.mp hsegments)
      populations := rfl
      expressions := rfl
      flags := hflags
      clients := rfl
      fingerprint := rfl }

/-- A configuration whose flags pass is built as it is without them, and given them. -/
theorem build_eq_map {input : SnapshotInput} {flags : Dict Flag}
    (hflags : gatherFlags .empty input.flags = .ok flags) :
    build input = (build { input with flags := [] }).map fun s =>
      { s with flags, fingerprint := input.fingerprint } := by
  simp only [build, buildIn, hflags]
  cases gather Segment.name SnapshotError.duplicateSegment .empty input.segments with
  | error => rfl
  | ok segments =>
    simp only [bind, Except.bind]
    cases checkAll (checkSegment segments) ((Dict.Walk.ascending.entries segments).map (·.2)) with
    | error => rfl
    | ok =>
      cases checkAll checkPopulation input.populations.toList with
      | error => rfl
      | ok => rfl

/-- The flags of a snapshot are those that were delivered, checked and filled in, each under the
name that it was delivered with. -/
theorem BuiltFrom.get?_flags_iff {input : SnapshotInput} {s : Snapshot} (h : BuiltFrom input s)
    {name : String} {f : Flag} :
    s.flags.get? name = some f ↔
      ∃ delivered ∈ input.flags, delivered.name = name ∧ expandFlag delivered = .ok f := by
  rw [get?_of_gatherFlags_iff h.flags, Dict.get?_empty]
  simp

/-- Every flag is found under its own name. -/
theorem BuiltFrom.name_eq {input : SnapshotInput} {s : Snapshot} (h : BuiltFrom input s)
    {name : String} {f : Flag} (hfound : s.flags.get? name = some f) : f.name = name := by
  obtain ⟨delivered, -, hname, hexpand⟩ := h.get?_flags_iff.mp hfound
  obtain ⟨-, variants, -, rfl⟩ := expandFlag_eq_ok_iff.mp hexpand
  exact hname

/-- **Building checks**: resolving may rely on every snapshot that was built. -/
theorem checked_of_build {input : SnapshotInput} {s : Snapshot} (h : build input = .ok s) :
    s.Checked := by
  have hbuilt := builtFrom_of_build h
  have hsegment : ∀ {name : String} {segment : Segment}, s.segments.get? name = some segment →
      checkSegment s.segments segment = .ok () := by
    intro name segment hfound
    exact hbuilt.checked (name, segment) ((Dict.get?_eq_some_iff s.segments).mp hfound)
  have hflag : ∀ {name : String} {f : Flag}, s.flags.get? name = some f →
      ∃ delivered, expandFlag delivered = .ok f := by
    intro name f hfound
    obtain ⟨delivered, -, -, hexpand⟩ := hbuilt.get?_flags_iff.mp hfound
    exact ⟨delivered, hexpand⟩
  exact
    { expressions := hbuilt.expressions
      criteria := fun hfound => (checkSegment_eq_ok_iff.mp (hsegment hfound)).1
      targets := fun hfound => (checkSegment_eq_ok_iff.mp (hsegment hfound)).2.2 _ _
      allocations := fun hfound r hr => by
        obtain ⟨delivered, hexpand⟩ := hflag hfound
        exact (sound_of_expandFlag hexpand r hr).1
      variants := fun hfound r hr => by
        obtain ⟨delivered, hexpand⟩ := hflag hfound
        exact (sound_of_expandFlag hexpand r hr).2 }

end Snapshot

end FeatureFlags
