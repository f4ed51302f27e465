import FeatureFlags.Proofs.Snapshot.Evaluation
import FeatureFlags.Proofs.Snapshot.Segments

/-!
# What membership depends on

Membership in a segment depends on the segments that can be reached from it along references,
on their populations, and on the attributes that their expressions name
(`Snapshot.NamesAttribute`). Two snapshots that have the same of these, each with its context,
tell membership alike, or fail alike (`Snapshot.SameReads.isMember_eq`).

The comparison is of the definition of membership, path by path: what is in the memo may differ
with segments that the two snapshots do not share.
-/

namespace FeatureFlags

open Relation

namespace Snapshot

/-- The expression of a segment names a criterion on an attribute. -/
def NamesAttribute (s : Snapshot) (name field : String) : Prop :=
  ∃ segment ref rule, s.segments.get? name = some segment ∧
    ref ∈ segment.targeting.expression.refs ∧
      segment.targeting.criteria.get? ref = some (.onAttribute field rule)

/-- Two snapshots, each with a context, have the same of all that membership in a segment can
depend on. -/
structure SameReads (s s' : Snapshot) (context context' : Context) (name : String) : Prop where
  account : s'.account = s.account
  segments : ∀ other, ReflTransGen s.RefersTo name other →
    s'.segments.get? other = s.segments.get? other
  populations : ∀ other, ReflTransGen s.RefersTo name other →
    s'.populations.get? other = s.populations.get? other
  attributes : ∀ other, ReflTransGen s.RefersTo name other →
    ∀ field, s.NamesAttribute other field → context'.get field = context.get field

namespace SameReads

variable {s s' : Snapshot} {context context' : Context} {name : String}

theorem of_sameSegments (h : SameSegments s s') : SameReads s s' context context name where
  account := h.account
  segments _ _ := by rw [h.segments]
  populations _ _ := by rw [h.populations]
  attributes _ _ _ _ := rfl

/-- What a segment refers to depends on less than the segment. -/
theorem behind (h : SameReads s s' context context' name) {target : String}
    (hstep : s.RefersTo name target) : SameReads s s' context context' target where
  account := h.account
  segments other hother := h.segments other (.head hstep hother)
  populations other hother := h.populations other (.head hstep hother)
  attributes other hother := h.attributes other (.head hstep hother)

/-- A criterion of the segment is satisfied alike if membership in the segment that it refers to
is the same. -/
theorem holds_eq (h : SameReads s s' context context' name) {segment : Segment}
    (hfound : s.segments.get? name = some segment) {ref : String}
    (href : ref ∈ segment.targeting.expression.refs)
    {member member' : String → Except MembershipError Bool}
    (hmember : ∀ target, s.RefersTo name target → member' target = member target) :
    holdsByDefinition context' member' (segment.targeting.criteria.get? ref) =
      holdsByDefinition context member (segment.targeting.criteria.get? ref) := by
  cases hcriterion : segment.targeting.criteria.get? ref with
  | none => rfl
  | some criterion =>
    cases criterion with
    | onAttribute field rule =>
      have hnames : s.NamesAttribute name field := ⟨segment, ref, rule, hfound, href, hcriterion⟩
      rw [holdsByDefinition, holdsByDefinition, h.attributes name .refl field hnames]
    | inSegment target => exact hmember target ⟨segment, ref, hfound, href, hcriterion⟩

/-- Membership by definition is the same at the end of every path. -/
theorem isMemberByDefinition_eq (h : SameReads s s' context context' name) (unit : String)
    (path : List String) :
    s'.isMemberByDefinition context' unit path name =
      s.isMemberByDefinition context unit path name := by
  induction path, name using path_induction s with
  | step path name ih =>
    by_cases hpath : name ∈ path
    · rw [isMemberByDefinition_of_mem hpath, isMemberByDefinition_of_mem hpath]
    · have hsegment := h.segments name .refl
      cases hfound : s.segments.get? name with
      | none =>
        rw [isMemberByDefinition_of_none hpath hfound,
          isMemberByDefinition_of_none hpath (hsegment.trans hfound)]
      | some segment =>
        have hcriteria : ∀ ref ∈ segment.targeting.expression.refs,
            holdsByDefinition context' (s'.isMemberByDefinition context' unit (path ++ [name]))
                (segment.targeting.criteria.get? ref) =
              holdsByDefinition context (s.isMemberByDefinition context unit (path ++ [name]))
                (segment.targeting.criteria.get? ref) := by
          intro ref href
          exact h.holds_eq hfound href fun target hstep =>
            ih segment hpath hfound target (h.behind hstep)
        rw [isMemberByDefinition_of_some context unit hpath hfound,
          isMemberByDefinition_of_some context' unit hpath (hsegment.trans hfound),
          filterM_congr hcriteria, h.populations name .refl, salt, salt, h.account]

/-- Checked snapshots tell membership alike. -/
theorem isMember_eq (h : SameReads s s' context context' name) (hs : s.Checked) (hs' : s'.Checked)
    (unit : String) : s'.isMember context' name unit = s.isMember context name unit := by
  rw [isMember_eq_byDefinition hs, isMember_eq_byDefinition hs', h.isMemberByDefinition_eq]

end SameReads

end Snapshot

end FeatureFlags
