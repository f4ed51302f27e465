import FeatureFlags.Proofs.Snapshot.Evaluation
import Mathlib.Data.List.Chain

/-!
# Circles of segments

Membership fails exactly where a circle of references can be reached
(`Snapshot.membership_fails_iff_reachesCircle`): also behind an operand that does not matter,
and whoever the unit is. The error then shows a walk that comes back to itself
(`Snapshot.IsLasso`), and there is no other error in a snapshot that was built.

`FailsAs` says once how the definition of membership can fail at the end of a path: on the spot,
or at a segment that is referred to. The walk of an error is then put together by induction along
the path.
-/

namespace FeatureFlags

open Relation

namespace Snapshot

/-- A segment that lies on a circle of references can be reached. -/
def ReachesCircle (s : Snapshot) (name : String) : Prop :=
  ∃ other, ReflTransGen s.RefersTo name other ∧ TransGen s.RefersTo other other

/-- A walk along references that starts at a segment, ends where it has been before, and comes to
no other segment twice. -/
structure IsLasso (s : Snapshot) (name : String) (walk : List String) : Prop where
  starts : walk.head? = some name
  follows : walk.IsChain s.RefersTo
  distinct : walk.dropLast.Nodup
  returns : ∃ last ∈ walk.dropLast, walk.getLast? = some last

variable {s : Snapshot} {context : Context} {unit : String}

/-! ## How membership fails -/

/-- How membership fails at the end of a path. -/
inductive FailsAs (s : Snapshot) (context : Context) (unit : String) (path : List String)
    (name : String) : MembershipError → Prop where
  /-- The segment is on the path. -/
  | circular (h : name ∈ path) : FailsAs s context unit path name (.circular (path ++ [name]))
  /-- There is no such segment. -/
  | unknown (h : s.segments.get? name = none) :
      FailsAs s context unit path name (.unknownSegment name)
  /-- Membership fails for a segment that is referred to. -/
  | behind {segment : Segment} {target : String} {cause : MembershipError} (hpath : name ∉ path)
      (hfound : s.segments.get? name = some segment) (hstep : s.RefersTo name target)
      (h : s.isMemberByDefinition context unit (path ++ [name]) target = .error cause) :
      FailsAs s context unit path name cause

theorem failsAs {path : List String} {name : String} {cause : MembershipError}
    (h : s.isMemberByDefinition context unit path name = .error cause) :
    FailsAs s context unit path name cause := by
  by_cases hpath : name ∈ path
  · rw [isMemberByDefinition_of_mem hpath] at h
    cases h
    exact .circular hpath
  · cases hfound : s.segments.get? name with
    | none =>
      rw [isMemberByDefinition_of_none hpath hfound] at h
      cases h
      exact .unknown hfound
    | some segment =>
      rw [isMemberByDefinition_of_some context unit hpath hfound] at h
      rcases bind_eq_error_iff.mp h with hfilter | ⟨satisfied, -, h⟩
      · obtain ⟨ref, href, hcause⟩ := mem_of_filterM_eq_error hfilter
        obtain ⟨target, hcriterion, htarget⟩ := exists_target_of_holds_eq_error hcause
        exact .behind hpath hfound ⟨segment, ref, hfound, href, hcriterion⟩ htarget
      · cases h

/-- The walk of an error goes on from the path at the end of which membership was asked for. -/
theorem isLasso_of_eq_circular {path : List String} {name start : String} {walk : List String}
    (hstart : (path ++ [name]).head? = some start)
    (hfollows : (path ++ [name]).IsChain s.RefersTo) (hdistinct : path.Nodup)
    (h : s.isMemberByDefinition context unit path name = .error (.circular walk)) :
    s.IsLasso start walk := by
  induction path, name using path_induction s with
  | step path name ih =>
    cases failsAs h with
    | circular hpath =>
      exact
        { starts := hstart
          follows := hfollows
          distinct := by rwa [List.dropLast_concat]
          returns := ⟨name, by rwa [List.dropLast_concat], List.getLast?_concat⟩ }
    | behind hpath hfound hstep h =>
      refine ih _ hpath hfound _ ?_ ?_ ?_ h
      · rw [List.head?_append, hstart, Option.some_or]
      · refine hfollows.append (List.isChain_singleton _) fun last hlast next hnext => ?_
        rw [List.getLast?_concat, Option.mem_some_iff] at hlast
        rw [List.head?_cons, Option.mem_some_iff] at hnext
        rw [← hlast, ← hnext]
        exact hstep
      · rw [List.nodup_append]
        refine ⟨hdistinct, List.pairwise_singleton _ name, fun a ha b hb => ?_⟩
        rw [List.mem_singleton.mp hb]
        rintro rfl
        exact hpath ha

/-! ## Checked snapshots -/

theorem Checked.contains_of_refersTo (hs : s.Checked) {name target : String}
    (h : s.RefersTo name target) : s.segments.contains target = true := by
  obtain ⟨segment, ref, hfound, -, hcriterion⟩ := h
  exact hs.targets hfound hcriterion

/-- All segments that can be reached exist. -/
theorem Checked.contains_of_reaches (hs : s.Checked) {name other : String}
    (hname : s.segments.contains name = true) (h : ReflTransGen s.RefersTo name other) :
    s.segments.contains other = true := by
  cases h with
  | refl => exact hname
  | tail _ hstep => exact hs.contains_of_refersTo hstep

theorem Checked.ne_unknownSegment (hs : s.Checked) {path : List String} {name : String}
    (hname : s.segments.contains name = true) (unknown : String) :
    s.isMemberByDefinition context unit path name ≠ .error (.unknownSegment unknown) := by
  induction path, name using path_induction s with
  | step path name ih =>
    intro h
    cases failsAs h with
    | unknown hnone => simp [Dict.contains, hnone] at hname
    | behind hpath hfound hstep h =>
      exact ih _ hpath hfound _ (hs.contains_of_refersTo hstep) h

theorem Checked.exists_ok_iff (hs : s.Checked) (context : Context) (unit : String) {name : String}
    (hname : s.segments.contains name = true) :
    (∃ member, s.isMemberByDefinition context unit [] name = .ok member) ↔
      ¬ s.ReachesCircle name := by
  rw [Snapshot.exists_ok_iff]
  constructor
  · rintro h ⟨other, hother, hcircle⟩
    exact (h other hother).2.2 hcircle
  · intro h other hother
    exact ⟨List.not_mem_nil, hs.contains_of_reaches hname hother,
      fun hcircle => h ⟨other, hother, hcircle⟩⟩

/-- Membership is told, or the error shows a lasso. -/
theorem Checked.ok_or_isLasso (hs : s.Checked) (context : Context) (unit : String) {name : String}
    (hname : s.segments.contains name = true) :
    (∃ member, s.isMemberByDefinition context unit [] name = .ok member) ∨
      ∃ walk, s.isMemberByDefinition context unit [] name = .error (.circular walk) ∧
        s.IsLasso name walk := by
  cases h : s.isMemberByDefinition context unit [] name with
  | ok member => exact .inl ⟨member, rfl⟩
  | error cause =>
    cases cause with
    | circular walk =>
      exact .inr ⟨walk, rfl,
        isLasso_of_eq_circular rfl (List.isChain_singleton name) List.nodup_nil h⟩
    | unknownSegment unknown => exact absurd h (hs.ne_unknownSegment hname unknown)

/-- **Circles are noticed exactly**: of a segment of a snapshot that was built, membership is told
or fails with a walk that comes back to itself; it fails exactly if a circle can be reached; so
whether it fails does not depend on the context or the unit. -/
theorem membership_fails_iff_reachesCircle {input : SnapshotInput} (hbuild : build input = .ok s)
    {name : String} (hname : s.segments.contains name = true) :
    (∀ context unit, (∃ member, s.isMember context name unit = .ok member) ∨
        ∃ walk, s.isMember context name unit = .error (.circular walk) ∧ s.IsLasso name walk) ∧
      (∀ context unit, (∃ walk, s.isMember context name unit = .error (.circular walk)) ↔
        s.ReachesCircle name) ∧
      ∀ context unit context' unit', (∃ member, s.isMember context name unit = .ok member) ↔
        ∃ member, s.isMember context' name unit' = .ok member := by
  have hs := checked_of_build hbuild
  have hok : ∀ context unit, (∃ member, s.isMemberByDefinition context unit [] name = .ok member) ↔
      ¬ s.ReachesCircle name := fun context unit => hs.exists_ok_iff context unit hname
  simp only [isMember_eq_byDefinition hs]
  refine ⟨fun context unit => hs.ok_or_isLasso context unit hname, fun context unit => ?_,
    fun context unit context' unit' => (hok context unit).trans (hok context' unit').symm⟩
  constructor
  · rintro ⟨walk, hwalk⟩
    by_contra hcircle
    obtain ⟨member, hmember⟩ := (hok context unit).mpr hcircle
    rw [hwalk] at hmember
    cases hmember
  · intro hcircle
    rcases hs.ok_or_isLasso context unit hname with hmember | ⟨walk, hwalk, -⟩
    · exact absurd hcircle ((hok context unit).mp hmember)
    · exact ⟨walk, hwalk⟩

end Snapshot

namespace Audience

/-- The guests are among the friends, who are told by the followers, who are told by the friends. -/
def circular : SnapshotInput where
  account := "acme"
  segments :=
    [common "guests" ["friends"], common "friends" ["followers"], common "followers" ["friends"]]

theorem build_circular : Snapshot.build circular = .ok (checked circular) := rfl

/-- Membership of the guests fails although they are not on the circle themselves. -/
theorem guests_fail : Snapshot.build circular = .ok (checked circular) ∧
    (checked circular).segments.contains "guests" = true ∧
      ∃ walk, (checked circular).isMember ⟨[], rfl⟩ "guests" "visitor" = .error (.circular walk) ∧
        (checked circular).IsLasso "guests" walk := by
  have hguests : (checked circular).segments.contains "guests" = true := rfl
  obtain ⟨htold, hfails, -⟩ :=
    Snapshot.membership_fails_iff_reachesCircle build_circular hguests
  have hfriends : (checked circular).RefersTo "guests" "friends" :=
    ⟨common "guests" ["friends"], "friends", rfl, List.mem_singleton_self _, rfl⟩
  have hfollowers : (checked circular).RefersTo "friends" "followers" :=
    ⟨common "friends" ["followers"], "followers", rfl, List.mem_singleton_self _, rfl⟩
  have hback : (checked circular).RefersTo "followers" "friends" :=
    ⟨common "followers" ["friends"], "friends", rfl, List.mem_singleton_self _, rfl⟩
  obtain ⟨walk, hwalk⟩ := (hfails ⟨[], rfl⟩ "visitor").mpr
    ⟨"friends", .single hfriends, .tail (.single hfollowers) hback⟩
  refine ⟨build_circular, hguests, walk, hwalk, ?_⟩
  rcases htold ⟨[], rfl⟩ "visitor" with ⟨member, hmember⟩ | ⟨walk', hwalk', hlasso⟩
  · rw [hwalk] at hmember
    cases hmember
  · rw [hwalk] at hwalk'
    cases hwalk'
    exact hlasso

end Audience

end FeatureFlags
