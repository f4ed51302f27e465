import FeatureFlags.Dict.Lemmas
import FeatureFlags.Proofs.Fallible
import FeatureFlags.Proofs.Snapshot.Checked
import FeatureFlags.Proofs.Targeting.Simplify
import FeatureFlags.Snapshot.Membership
import Mathlib.Logic.Relation

/-!
# Membership by definition

`Snapshot.isMemberByDefinition` tells membership as it is meant: along the path of
segments, without a memo, with the expression of each segment as it was delivered.
`Snapshot.membership_by_definition` says that `Snapshot.isMember` is the same function on
every snapshot that was built, errors included.

The memo is the point. What it has was told on another path, and whether a segment can be
told depends on the path. But it depends on it only through the segments that the segment
refers to, directly or not (`exists_ok_iff`), and none of these is on the path: the path leads
to the segment, so it would lie on a circle, and then it could not have been told at all.
-/

namespace FeatureFlags

open Relation

namespace Entries

theorem get?_filter {α : Type} (p : String → Bool) (name : String)
    (entries : List (String × α)) :
    get? name (entries.filter fun e => p e.1) = if p name then get? name entries else none := by
  induction entries with
  | nil => simp
  | cons e rest ih =>
    obtain ⟨k, v⟩ := e
    by_cases hk : k = name
    · subst hk
      by_cases hp : p k
      · simp [hp, get?]
      · simpa [hp] using ih
    · by_cases hp : p k
      · simp [hp, get?, hk, ih]
      · simp [hp, get?, hk, ih]

end Entries

namespace Snapshot

/-! ## References -/

/-- The expression of a segment names a criterion that refers to another one. -/
def RefersTo (s : Snapshot) (name target : String) : Prop :=
  ∃ segment ref, s.segments.get? name = some segment ∧
    ref ∈ segment.targeting.expression.refs ∧
      segment.targeting.criteria.get? ref = some (.inSegment target)

/-- The segments that are not on a path. -/
def offPath (s : Snapshot) (path : List String) : List (String × Segment) :=
  s.segments.toList.filter fun e => !path.contains e.1

theorem offPath_append (s : Snapshot) (path : List String) (name : String) :
    s.offPath (path ++ [name]) = Entries.erase name (s.offPath path) := by
  rw [offPath, offPath, Entries.erase, List.filter_filter]
  refine List.filter_congr fun e _ => ?_
  by_cases he : e.1 = name <;> simp [he]

theorem get?_offPath {s : Snapshot} {path : List String} {name : String} (h : name ∉ path) :
    Entries.get? name (s.offPath path) = s.segments.get? name := by
  have hcontains : path.contains name = false :=
    Bool.eq_false_iff.mpr fun hmem => h (List.contains_iff_mem.mp hmem)
  rw [offPath, Entries.get?_filter (fun k => !path.contains k), hcontains]
  rfl

theorem length_offPath_lt {s : Snapshot} {path : List String} {name : String} {segment : Segment}
    (hpath : name ∉ path) (hfound : s.segments.get? name = some segment) :
    (s.offPath (path ++ [name])).length < (s.offPath path).length := by
  rw [offPath_append]
  exact Entries.length_erase_lt ((get?_offPath hpath).trans hfound)

/-- Induction along paths: what holds of all segments at the end of a longer path holds at the end
of the path. The segments that are not on the path become fewer. -/
theorem path_induction (s : Snapshot) {motive : List String → String → Prop}
    (step : ∀ path name, (∀ segment, name ∉ path → s.segments.get? name = some segment →
      ∀ target, motive (path ++ [name]) target) → motive path name)
    (path : List String) (name : String) : motive path name := by
  induction hn : (s.offPath path).length using Nat.strongRecOn generalizing path name with
  | ind n ih =>
    refine step path name fun segment hpath hfound target => ?_
    have hlt : (s.offPath (path ++ [name])).length < n := hn ▸ length_offPath_lt hpath hfound
    exact ih _ hlt _ target rfl

/-! ## The definition -/

/-- Whether a criterion is satisfied, where `member` tells membership in other segments. -/
def holdsByDefinition (context : Context) (member : String → Except MembershipError Bool) :
    Option Criterion → Except MembershipError Bool
  | some (.onAttribute path rule) => .ok (rule.accepts (context.get path))
  | some (.inSegment segment) => member segment
  | none => .ok false

section Criteria

variable {context : Context} {member member' : String → Except MembershipError Bool}
  {criterion? : Option Criterion}

/-- Whether a criterion is satisfied can be told if membership in the segment that it refers to can
be told. -/
theorem exists_holds_iff :
    (∃ here, holdsByDefinition context member criterion? = .ok here) ↔
      ∀ target, criterion? = some (.inSegment target) → ∃ here, member target = .ok here := by
  constructor
  · rintro ⟨here, h⟩ target rfl
    exact ⟨here, h⟩
  · intro h
    match criterion? with
    | none => exact ⟨false, rfl⟩
    | some (.onAttribute path rule) => exact ⟨_, rfl⟩
    | some (.inSegment target) => exact h target rfl

theorem holds_mono {here : Bool}
    (hle : ∀ target, criterion? = some (.inSegment target) →
      ∀ here, member target = .ok here → member' target = .ok here)
    (h : holdsByDefinition context member criterion? = .ok here) :
    holdsByDefinition context member' criterion? = .ok here := by
  match criterion? with
  | none => exact h
  | some (.onAttribute path rule) => exact h
  | some (.inSegment target) => exact hle target rfl here h

theorem exists_target_of_holds_eq_error {cause : MembershipError}
    (h : holdsByDefinition context member criterion? = .error cause) :
    ∃ target, criterion? = some (.inSegment target) ∧ member target = .error cause := by
  match criterion? with
  | none => cases h
  | some (.onAttribute path rule) => cases h
  | some (.inSegment target) => exact ⟨target, rfl, h⟩

end Criteria

/-- Whether the unit is in the segment `name` at the end of `path`: the expression, as it was
delivered, holds of the names whose criteria are satisfied, and the population has the bucket of
the unit. -/
def isMemberByDefinition (s : Snapshot) (context : Context) (unit : String) (path : List String)
    (name : String) : Except MembershipError Bool :=
  if _onPath : name ∈ path then .error (.circular (path ++ [name]))
  else match _found : s.segments.get? name with
    | none => .error (.unknownSegment name)
    | some segment => do
      let satisfied ← segment.targeting.expression.refs.filterM fun ref =>
        holdsByDefinition context
          (fun target => isMemberByDefinition s context unit (path ++ [name]) target)
          (segment.targeting.criteria.get? ref)
      return segment.targeting.expression.eval (satisfied.contains ·) &&
        (s.populations.get? name).any (·.contains (Bucket.standard unit s.salt))
termination_by (s.offPath path).length
decreasing_by exact length_offPath_lt _onPath _found

variable {s : Snapshot} {context : Context} {unit : String}

theorem isMemberByDefinition_of_mem {path : List String} {name : String} (h : name ∈ path) :
    s.isMemberByDefinition context unit path name = .error (.circular (path ++ [name])) := by
  rw [isMemberByDefinition, dif_pos h]

theorem isMemberByDefinition_of_none {path : List String} {name : String} (h : name ∉ path)
    (hfound : s.segments.get? name = none) :
    s.isMemberByDefinition context unit path name = .error (.unknownSegment name) := by
  rw [isMemberByDefinition, dif_neg h]
  split
  · rfl
  · next segment hsome => rw [hfound] at hsome; cases hsome

theorem isMemberByDefinition_of_some (context : Context) (unit : String) {path : List String}
    {name : String} {segment : Segment} (h : name ∉ path)
    (hfound : s.segments.get? name = some segment) :
    s.isMemberByDefinition context unit path name = do
      let satisfied ← segment.targeting.expression.refs.filterM fun ref =>
        holdsByDefinition context (s.isMemberByDefinition context unit (path ++ [name]))
          (segment.targeting.criteria.get? ref)
      return segment.targeting.expression.eval (satisfied.contains ·) &&
        (s.populations.get? name).any (·.contains (Bucket.standard unit s.salt)) := by
  rw [isMemberByDefinition, dif_neg h]
  split
  · next hnone => rw [hfound] at hnone; cases hnone
  · next segment' hsome =>
    rw [hfound] at hsome
    cases hsome
    rfl

/-! ## What a path matters for -/

/-- Membership can be told at the end of a path if the segment exists, is not on the path, and can
be told for every segment that it refers to. -/
theorem exists_ok_iff_forall_target {path : List String} {name : String} :
    (∃ member, s.isMemberByDefinition context unit path name = .ok member) ↔
      name ∉ path ∧ s.segments.contains name = true ∧
        ∀ target, s.RefersTo name target →
          ∃ member, s.isMemberByDefinition context unit (path ++ [name]) target = .ok member := by
  by_cases hpath : name ∈ path
  · rw [isMemberByDefinition_of_mem hpath]
    simp [hpath]
  · cases hfound : s.segments.get? name with
    | none =>
      rw [isMemberByDefinition_of_none hpath hfound]
      simp [Dict.contains, hfound]
    | some segment =>
      rw [isMemberByDefinition_of_some context unit hpath hfound]
      constructor
      · rintro ⟨member, h⟩
        obtain ⟨satisfied, hfilter, -⟩ := bind_eq_ok_iff.mp h
        refine ⟨hpath, by simp [Dict.contains, hfound], ?_⟩
        rintro target ⟨segment', ref, hsegment', href, hcriterion⟩
        rw [hfound] at hsegment'
        cases hsegment'
        exact exists_holds_iff.mp ((filterM_eq_ok_iff.mp hfilter).1 ref href) target hcriterion
      · rintro ⟨-, -, htargets⟩
        refine ⟨_, bind_eq_ok_iff.mpr ⟨_, filterM_eq_ok_iff.mpr ⟨fun ref href => ?_, rfl⟩, rfl⟩⟩
        refine exists_holds_iff.mpr fun target hcriterion => ?_
        exact htargets target ⟨segment, ref, hfound, href, hcriterion⟩

/-- **What a path matters for**: membership can be told at the end of a path exactly if all segments
that the segment refers to, directly or not, exist, are not on the path and lie on no circle. -/
theorem exists_ok_iff {path : List String} {name : String} :
    (∃ member, s.isMemberByDefinition context unit path name = .ok member) ↔
      ∀ other, ReflTransGen s.RefersTo name other →
        other ∉ path ∧ s.segments.contains other = true ∧ ¬ TransGen s.RefersTo other other := by
  induction path, name using path_induction s with
  | step path name ih =>
    rw [exists_ok_iff_forall_target]
    constructor
    · rintro ⟨hpath, hcontains, htargets⟩
      obtain ⟨segment, hfound⟩ := Option.isSome_iff_exists.mp hcontains
      -- what is behind a reference is neither on the path nor the segment itself
      have hbehind : ∀ other, TransGen s.RefersTo name other →
          other ∉ path ++ [name] ∧ s.segments.contains other = true ∧
            ¬ TransGen s.RefersTo other other := by
        intro other hother
        obtain ⟨target, hstep, hrest⟩ := TransGen.head'_iff.mp hother
        exact (ih segment hpath hfound target).mp (htargets target hstep) other hrest
      intro other hother
      rcases reflTransGen_iff_eq_or_transGen.mp hother with rfl | hother
      · refine ⟨hpath, hcontains, fun hcircle => ?_⟩
        exact (hbehind other hcircle).1 (List.mem_append_right path (List.mem_singleton_self other))
      · obtain ⟨hnot, hrest⟩ := hbehind other hother
        exact ⟨fun hmem => hnot (List.mem_append_left [name] hmem), hrest⟩
    · intro h
      obtain ⟨hpath, hcontains, hcircle⟩ := h name .refl
      obtain ⟨segment, hfound⟩ := Option.isSome_iff_exists.mp hcontains
      refine ⟨hpath, hcontains, fun target hstep => ?_⟩
      refine (ih segment hpath hfound target).mpr fun other hother => ?_
      obtain ⟨hnot, hrest⟩ := h other (.head hstep hother)
      refine ⟨fun hmem => ?_, hrest⟩
      rcases List.mem_append.mp hmem with hmem | hmem
      · exact hnot hmem
      · cases List.mem_singleton.mp hmem
        exact hcircle (TransGen.head' hstep hother)

/-- What was told on a path is told on every part of it. -/
theorem isMemberByDefinition_of_subset {path part : List String} (hpart : part ⊆ path)
    {name : String} {member : Bool}
    (h : s.isMemberByDefinition context unit path name = .ok member) :
    s.isMemberByDefinition context unit part name = .ok member := by
  induction path, name using path_induction s generalizing part member with
  | step path name ih =>
    obtain ⟨hpath, hcontains, -⟩ := exists_ok_iff_forall_target.mp ⟨member, h⟩
    obtain ⟨segment, hfound⟩ := Option.isSome_iff_exists.mp hcontains
    rw [isMemberByDefinition_of_some context unit hpath hfound] at h
    rw [isMemberByDefinition_of_some context unit (fun hmem => hpath (hpart hmem)) hfound]
    obtain ⟨satisfied, hfilter, hmember⟩ := bind_eq_ok_iff.mp h
    have hparts : part ++ [name] ⊆ path ++ [name] :=
      List.append_subset.mpr ⟨List.Subset.trans hpart (List.subset_append_left path [name]),
        List.subset_append_right path [name]⟩
    have hmono : ∀ ref ∈ segment.targeting.expression.refs, ∀ here,
        holdsByDefinition context (s.isMemberByDefinition context unit (path ++ [name]))
            (segment.targeting.criteria.get? ref) = .ok here →
          holdsByDefinition context (s.isMemberByDefinition context unit (part ++ [name]))
            (segment.targeting.criteria.get? ref) = .ok here := by
      intro ref _ here
      exact holds_mono fun target _ _ => ih segment hpath hfound target hparts
    exact bind_eq_ok_iff.mpr ⟨satisfied, filterM_mono hmono hfilter, hmember⟩

/-- What can be told at all is told alike on every path that leads to the segment. -/
theorem isMemberByDefinition_of_leadsTo {path : List String} {name : String} {member : Bool}
    (hpath : ∀ before ∈ path, TransGen s.RefersTo before name)
    (h : s.isMemberByDefinition context unit [] name = .ok member) :
    s.isMemberByDefinition context unit path name = .ok member := by
  have htold : ∃ member', s.isMemberByDefinition context unit path name = .ok member' := by
    refine exists_ok_iff.mpr fun other hother => ?_
    obtain ⟨-, hcontains, hcircle⟩ := exists_ok_iff.mp ⟨member, h⟩ other hother
    -- a segment that is on the path and behind the segment as well lies on a circle
    exact ⟨fun hmem => hcircle (TransGen.trans_left (hpath other hmem) hother), hcontains, hcircle⟩
  obtain ⟨member', hmember'⟩ := htold
  have hsame := isMemberByDefinition_of_subset (List.nil_subset path) hmember'
  rw [h] at hsame
  cases hsame
  exact hmember'

/-! ## The memo -/

section Memo

variable {σ ε α β : Type}

/-- A computation with a memo does what one without does, and leaves a memo that is kept. -/
inductive Agrees (Kept : σ → Prop) : Except ε (α × σ) → Except ε α → Prop where
  | ok (a : α) {memo : σ} (hkept : Kept memo) : Agrees Kept (.ok (a, memo)) (.ok a)
  | error (cause : ε) : Agrees Kept (.error cause) (.error cause)

theorem Agrees.bind {Kept : σ → Prop} {x : Except ε (α × σ)} {y : Except ε α}
    (h : Agrees Kept x y) {next : α × σ → Except ε (β × σ)} {next' : α → Except ε β}
    (hnext : ∀ a memo, Kept memo → y = .ok a → Agrees Kept (next (a, memo)) (next' a)) :
    Agrees Kept (x >>= next) (y >>= next') := by
  cases h with
  | ok a hkept => exact hnext a _ hkept rfl
  | error cause => exact .error cause

theorem Agrees.map_fst_eq {Kept : σ → Prop} {x : Except ε (α × σ)} {y : Except ε α}
    (h : Agrees Kept x y) : x.map (·.1) = y := by
  cases h <;> rfl

/-- Evaluating criteria agrees if evaluating the segments that they refer to does. -/
theorem agrees_satisfied {Kept : σ → Prop} {criteria : Dict Criterion}
    {member : String → σ → Except MembershipError (Bool × σ)}
    {member' : String → Except MembershipError Bool} {refs : List String}
    (hmember : ∀ ref ∈ refs, ∀ target, criteria.get? ref = some (.inSegment target) →
      ∀ memo, Kept memo → Agrees Kept (member target memo) (member' target))
    {memo : σ} (hkept : Kept memo) :
    Agrees Kept (satisfied context criteria member refs memo)
      (refs.filterM fun ref => holdsByDefinition context member' (criteria.get? ref)) := by
  induction refs generalizing memo with
  | nil => exact .ok [] hkept
  | cons ref rest ih =>
    obtain ⟨hhere, hrest⟩ := List.forall_mem_cons.mp hmember
    rw [satisfied, filterM_cons]
    refine Agrees.bind ?_ fun here memo₁ hkept₁ _ => ?_
    · cases hcriterion : criteria.get? ref with
      | none => exact .ok false hkept
      | some criterion =>
        cases criterion with
        | onAttribute field rule => exact .ok _ hkept
        | inSegment target => exact hhere target hcriterion memo hkept
    · refine Agrees.bind (ih hrest hkept₁) fun names memo₂ hkept₂ _ => ?_
      exact .ok _ hkept₂

end Memo

/-- Everything in the memo is told by the definition. -/
def Remembers (s : Snapshot) (context : Context) (unit : String) (memo : Dict Bool) : Prop :=
  ∀ name member, memo.get? name = some member →
    s.isMemberByDefinition context unit [] name = .ok member

theorem remembers_empty : s.Remembers context unit .empty := by
  intro name member h
  cases h

theorem Remembers.insert {memo : Dict Bool} (h : s.Remembers context unit memo) {name : String}
    {member : Bool} (hmember : s.isMemberByDefinition context unit [] name = .ok member) :
    s.Remembers context unit (memo.insert name member) := by
  intro other known hknown
  rw [Dict.get?_insert] at hknown
  split at hknown
  · next heq =>
    subst heq
    cases hknown
    exact hmember
  · exact h other known hknown

/-- Whether a unit falls into a population is a matter of its bucket. -/
theorem inPopulation_eq (s : Snapshot) (name unit : String) :
    s.inPopulation name unit =
      (s.populations.get? name).any (·.contains (Bucket.standard unit s.salt)) := by
  rw [inPopulation]
  cases s.populations.get? name with
  | none => rfl
  | some p => cases p <;> rfl

/-- The expression that is evaluated for a segment has the value of the one delivered. -/
theorem Checked.eval_expression (h : s.Checked) {name : String} {segment : Segment}
    (hfound : s.segments.get? name = some segment) (isTrue : String → Bool) :
    (s.expressions.getD name segment.targeting.expression).eval isTrue =
      segment.targeting.expression.eval isTrue := by
  rw [h.expressions, Dict.getD, Dict.get?_map, hfound]
  exact Expr.eval_simplify isTrue segment.targeting.expression

/-- Evaluation with a memo agrees with the definition at the end of every path that leads to the
segment. -/
theorem agrees_isMemberOnPath (hs : s.Checked) {path : List String} {name : String}
    (hpath : ∀ before ∈ path, TransGen s.RefersTo before name) {memo : Dict Bool}
    (hmemo : s.Remembers context unit memo) :
    Agrees (s.Remembers context unit)
      (s.isMemberOnPath context unit (s.offPath path) path name memo)
      (s.isMemberByDefinition context unit path name) := by
  induction path, name using path_induction s generalizing memo with
  | step path name ih =>
    rw [isMemberOnPath]
    cases hknown : memo.get? name with
    | some known =>
      rw [isMemberByDefinition_of_leadsTo hpath (hmemo name known hknown)]
      exact .ok known hmemo
    | none =>
      dsimp only
      by_cases honPath : name ∈ path
      · rw [if_pos (List.contains_iff_mem.mpr honPath), isMemberByDefinition_of_mem honPath]
        exact .error _
      · rw [if_neg (fun hmem => honPath (List.contains_iff_mem.mp hmem))]
        split
        · next hnone =>
          rw [get?_offPath honPath] at hnone
          rw [isMemberByDefinition_of_none honPath hnone]
          exact .error _
        · next segment hsome =>
          rw [get?_offPath honPath] at hsome
          have hdefinition := isMemberByDefinition_of_some context unit honPath hsome
          rw [← offPath_append, hdefinition]
          refine Agrees.bind (agrees_satisfied (fun ref href target hcriterion memo₁ hmemo₁ => ?_)
            hmemo) fun names memo₁ hmemo₁ hnames => ?_
          · -- the path that is longer by the segment leads to what the segment refers to
            have hstep : s.RefersTo name target := ⟨segment, ref, hsome, href, hcriterion⟩
            refine ih segment honPath hsome target (fun before hbefore => ?_) hmemo₁
            rcases List.mem_append.mp hbefore with hbefore | hbefore
            · exact (hpath before hbefore).tail hstep
            · cases List.mem_singleton.mp hbefore
              exact .single hstep
          · rw [hs.eval_expression hsome, inPopulation_eq]
            refine .ok _ (hmemo₁.insert ?_)
            refine isMemberByDefinition_of_subset (List.nil_subset path) ?_
            rw [hdefinition, hnames]
            rfl

theorem isMember_eq_byDefinition (hs : s.Checked) (name : String) :
    s.isMember context name unit = s.isMemberByDefinition context unit [] name := by
  have hall : s.segments.toList = s.offPath [] := (List.filter_eq_self.mpr fun _ _ => rfl).symm
  have hagrees : Agrees (s.Remembers context unit)
      (s.isMemberOnPath context unit (s.offPath []) [] name .empty)
      (s.isMemberByDefinition context unit [] name) := by
    refine agrees_isMemberOnPath hs (fun before hbefore => ?_) remembers_empty
    cases hbefore
  rw [isMember, hall]
  exact hagrees.map_fst_eq

/-- **Membership is what it is defined to be**: with its memo and simplified expressions,
membership in a snapshot that was built is told, or fails, as by the definition. -/
theorem membership_by_definition {input : SnapshotInput} (hbuild : build input = .ok s)
    (context : Context) (name unit : String) :
    s.isMember context name unit = s.isMemberByDefinition context unit [] name :=
  isMember_eq_byDefinition (checked_of_build hbuild) name

end Snapshot

/-! ## An audience -/

namespace Audience

/-- The units that are in all of the segments. -/
def common (name : String) (targets : List String) : Segment where
  name := name
  targeting :=
    { expression := .not (.not (.all (targets.map .ref)))
      criteria := .ofList (targets.map fun target => (target, .inSegment target)) }

/-- The snapshot of a configuration that has neither flags nor clients. -/
def checked (input : SnapshotInput) : Snapshot where
  account := input.account
  flags := .empty
  segments := .ofList (input.segments.map fun segment => (segment.name, segment))
  populations := input.populations
  expressions := .ofList (input.segments.map fun segment =>
    (segment.name, segment.targeting.expression.simplify))
  clients := .empty
  fingerprint := input.fingerprint

/-- Two segments refer to the same one, so the second finds it in the memo. -/
def shared : SnapshotInput where
  account := "acme"
  segments :=
    [common "guests" ["subscribers", "testers"], common "subscribers" ["customers"],
      common "testers" ["customers"], { name := "customers" }]
  populations := .ofList [("customers", .full), ("guests", .full), ("subscribers", .full),
    ("testers", .full)]

theorem build_shared : Snapshot.build shared = .ok (checked shared) := rfl

theorem guests_by_definition : Snapshot.build shared = .ok (checked shared) ∧
    (checked shared).isMember ⟨[], rfl⟩ "guests" "visitor" =
      (checked shared).isMemberByDefinition ⟨[], rfl⟩ "visitor" [] "guests" :=
  ⟨build_shared, Snapshot.membership_by_definition build_shared _ _ _⟩

end Audience

end FeatureFlags
