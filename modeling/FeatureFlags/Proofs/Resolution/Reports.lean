import FeatureFlags.Proofs.Resolution.Request

/-!
# Reports are complete

Whoever gets a report of missing records and puts all of them at hand has his request
resolved, whatever the records say (`missing_report_complete`). Records decide which
rules are reached, but the rules that are reached with more records at hand ask only
for what was reported before (`Findings.missing_mono`).
-/

namespace FeatureFlags

variable {s : Snapshot} {config : Config} {request : ResolveRequest} {occasion : Occasion}

/-- A report is not empty, in order, has each record once, and names no record that is at hand. -/
theorem report_wellFormed {items : List MissingRecord}
    (h : resolve s config request occasion = .ok (.missing items)) :
    items ≠ [] ∧ OrderedSet.Strict MissingRecord.compare items ∧
      ∀ item ∈ items,
        request.materializations.get? item.unit item.materialization = none := by
  obtain ⟨client, flags, -, hne, rfl⟩ := resolve_eq_missing_iff.mp h
  refine ⟨fun hnil => ?_, MissingRecord.strict_distinct _, fun item hitem => ?_⟩
  · obtain ⟨item, hitem⟩ := List.exists_mem_of_ne_nil _ hne
    have := MissingRecord.mem_distinct_iff.mpr hitem
    rw [hnil] at this
    cases this
  · exact Findings.get?_of_mem_missing (MissingRecord.mem_distinct_iff.mp hitem)

/-- A record is reported for a rule that reads it, for the unit that the rule finds. -/
theorem exists_rule_of_reported {items : List MissingRecord}
    (h : resolve s config request occasion = .ok (.missing items)) {m : MissingRecord}
    (hm : m ∈ items) :
    ∃ name f, s.flags.get? name = some f ∧ ∃ r ∈ f.enabledRules, r.name = m.rule ∧
      request.context.get r.targetingKey = .string m.unit ∧
      r.readMaterialization? = some m.materialization := by
  obtain ⟨client, flags, hselection, -, rfl⟩ := resolve_eq_missing_iff.mp h
  obtain ⟨f, hf, reported, hreported, hmem⟩ :=
    Findings.mem_missing_ofFlags_iff.mp (MissingRecord.mem_distinct_iff.mp hm)
  obtain ⟨-, -, rfl, -⟩ := resolveFlag_eq_missing_iff.mp hreported
  obtain ⟨r, hr, habsent⟩ := List.mem_filterMap.mp hmem
  obtain ⟨hname, hunit, hread, -⟩ :=
    FlagRule.lookUp_eq_absent (FlagRule.absent?_eq_some_iff.mp habsent)
  obtain ⟨name, hget⟩ := Snapshot.exists_get?_of_mem_selection hselection hf
  exact ⟨name, f, hget, r, hr, hname, hunit, hread⟩

/-- **Reports are complete.** A report is not empty, in strictly ascending order, and names no
record that is at hand. With all records at hand that were at hand before or are reported, the
request is resolved. -/
theorem missing_report_complete {items : List MissingRecord}
    (h : resolve s config request occasion = .ok (.missing items)) :
    items ≠ [] ∧ OrderedSet.Strict MissingRecord.compare items ∧
      (∀ item ∈ items,
        request.materializations.get? item.unit item.materialization = none) ∧
      ∀ more, request.materializations ≤ more →
        (∀ item ∈ items, (more.get? item.unit item.materialization).isSome) →
        ∀ occasion', ∃ resolution,
          resolve s config (request.holding more) occasion' = .ok (.resolved resolution) := by
  obtain ⟨hne, hstrict, habsent⟩ := report_wellFormed h
  refine ⟨hne, hstrict, habsent, fun more hle hmore occasion' => ?_⟩
  obtain ⟨client, flags, hselection, -, rfl⟩ := resolve_eq_missing_iff.mp h
  refine ⟨_, resolve_eq_resolved_iff.mpr ⟨client, flags, hselection, ?_, rfl⟩⟩
  refine List.eq_nil_iff_forall_not_mem.mpr fun item hitem => ?_
  -- what is still missing was reported, and so it is at hand
  have hreported : item ∈ (Findings.ofFlags (request.input s config) flags).missing :=
    Findings.missing_mono hle hitem
  have hsome := hmore item (MissingRecord.mem_distinct_iff.mpr hreported)
  have hnone : more.get? item.unit item.materialization = none := Findings.get?_of_mem_missing hitem
  rw [hnone] at hsome
  cases hsome

namespace Rollout

/-- A request for all flags, with nothing at hand. -/
def visitorRequest : ResolveRequest where
  clientSecret := "secret"
  context := (visit .empty).context

/-- When the request is made. -/
def visitedAt (resolveId : String) : Occasion := { resolveId, now := { seconds := 0, nanos := 0 } }

/-- The record of the visitor is reported. With one at hand, here of a decision that the flag
cannot give any more, the request is resolved. -/
theorem missing_report_complete_rollout :
    ∃ resolution, resolve snapshot .default
      (visitorRequest.holding (Materializations.empty.insert "visitor" "seen"
        (.assigned "rollout" "gone"))) (visitedAt "again") = .ok (.resolved resolution) := by
  have h : resolve snapshot .default visitorRequest (visitedAt "first") = .ok (.missing
      [{ unit := "visitor", rule := "rollout", materialization := "seen" }]) := rfl
  exact (missing_report_complete h).2.2.2 _ (Materializations.empty_le _) (by decide) _

end Rollout

end FeatureFlags
