import FeatureFlags.Proofs.Snapshot.Checked

/-!
# Segments in any order

The segments of a configuration are checked in the order of a walk, of which nothing is known. It
matters for one thing: if there are segments that are not in order, one of them is reported
(`Snapshot.exists_refuses_of_refuses`), and any of them is for some walk
(`Snapshot.exists_buildIn_eq_error`). Which configurations are accepted, and as which snapshots, is
the same for all walks (`Snapshot.buildIn_eq_ok_iff`). So two walks lead to the same, or to errors
about two segments that both deserve it (`Snapshot.buildIn_alike`).

What carries this is that a check of all items succeeds in whatever order they come, and that an
error of it is one about an item.
-/

namespace FeatureFlags

/-! ## Walks -/

namespace Dict.Walk

variable {α : Type}

theorem mem_entries_iff (walk : Walk α) (d : Dict α) {name : String} {a : α} :
    (name, a) ∈ walk.entries d ↔ d.get? name = some a := by
  rw [(walk.perm d).mem_iff, Dict.get?_eq_some_iff]

/-- The entry of a name, if there is one, and then the others by ascending name. -/
def first (name : String) : Walk α where
  entries d := (d.get? name).toList.map (name, ·) ++ (d.erase name).toList
  perm d := by
    have hnodup : d.toList.Nodup := d.ascending.imp fun hlt heq => by
      rw [heq] at hlt
      exact String.lt_irrefl _ hlt
    cases hfound : d.get? name with
    | none =>
      have hkept : (d.erase name).toList = d.toList := by
        refine List.filter_eq_self.mpr fun e he => decide_eq_true fun hname => ?_
        have hsome := (Dict.get?_eq_some_iff d).mpr he
        rw [hname, hfound] at hsome
        cases hsome
      rw [hkept]
      exact .refl _
    | some a =>
      have hmem : (name, a) ∈ d.toList := (Dict.get?_eq_some_iff d).mp hfound
      have hother : (name, a) ∉ (d.erase name).toList := fun h =>
        of_decide_eq_true (List.mem_filter.mp h).2 rfl
      refine (List.perm_ext_iff_of_nodup (List.nodup_cons.mpr ⟨hother, hnodup.filter _⟩)
        hnodup).mpr fun e => ?_
      rw [List.mem_cons]
      constructor
      · rintro (rfl | he)
        · exact hmem
        · exact List.mem_of_mem_filter he
      · intro he
        by_cases hname : e.1 = name
        · refine .inl (Prod.ext hname ?_)
          have hsome := (Dict.get?_eq_some_iff d).mpr he
          rw [hname, hfound] at hsome
          exact (Option.some.inj hsome).symm
        · exact .inr (List.mem_filter.mpr ⟨he, decide_eq_true hname⟩)

end Dict.Walk

/-! ## Segments that are not in order -/

/-- The segment that the error is about, if it is about one. -/
def SnapshotError.segment? : SnapshotError → Option String
  | unknownReference segment _ => some segment
  | unknownSegment segment _ => some segment
  | invalidCriterion segment _ _ => some segment
  | _ => none

/-- The segments have distinct names, and one of them is not in order, for this cause. -/
inductive SnapshotInput.RefusesSegment (input : SnapshotInput) : SnapshotError → Prop where
  | intro {segments : Dict Segment} {segment : Segment} {cause : SnapshotError}
    (hgather : Snapshot.GathersTo input segments) (hsegment : segment ∈ input.segments)
    (hcheck : Snapshot.checkSegment segments segment = .error cause) : RefusesSegment input cause

namespace Snapshot

theorem exists_of_checkAll_eq_error {α ε : Type} {check : α → Except ε Unit} {items : List α}
    {cause : ε} (h : checkAll check items = .error cause) :
    ∃ a ∈ items, check a = .error cause := by
  induction items with
  | nil => cases h
  | cons a rest ih =>
    rw [checkAll, bind_eq_error_iff] at h
    rcases h with ha | ⟨_, -, hrest⟩
    · exact ⟨a, List.mem_cons_self, ha⟩
    · obtain ⟨b, hb, hcause⟩ := ih hrest
      exact ⟨b, List.mem_cons_of_mem _ hb, hcause⟩

theorem segment?_of_checkSegment {segments : Dict Segment} {segment : Segment}
    {cause : SnapshotError} (h : checkSegment segments segment = .error cause) :
    cause.segment? = some segment.name := by
  rw [checkSegment] at h
  cases hdangling : segment.targeting.danglingRefs with
  | cons ref rest =>
    rw [hdangling] at h
    cases h
    rfl
  | nil =>
    rw [hdangling] at h
    obtain ⟨⟨ref, criterion⟩, -, hcriterion⟩ := exists_of_checkAll_eq_error h
    rw [checkCriterion] at hcriterion
    split at hcriterion <;> split at hcriterion <;> cases hcriterion <;> rfl

end Snapshot

section Walks

variable {input : SnapshotInput} {segments : Dict Segment} {cause cause' : SnapshotError}

/-- The error tells the cause: no segment has two of them. -/
theorem SnapshotInput.RefusesSegment.eq_of_segment?_eq (h : input.RefusesSegment cause)
    (h' : input.RefusesSegment cause') (hsegment : cause'.segment? = cause.segment?) :
    cause' = cause := by
  obtain @⟨segments, segment, cause, hgather, hmem, hcheck⟩ := h
  obtain @⟨segments', segment', cause', hgather', hmem', hcheck'⟩ := h'
  obtain rfl : segments = segments' := Except.ok.inj (hgather.symm.trans hgather')
  rw [Snapshot.segment?_of_checkSegment hcheck, Snapshot.segment?_of_checkSegment hcheck',
    Option.some.injEq] at hsegment
  -- the segment is found under its name, and there is one of that name
  have hfound := hgather.get?_iff.mpr ⟨hmem, rfl⟩
  have hfound' := hgather.get?_iff.mpr ⟨hmem', hsegment⟩
  obtain rfl : segment = segment' := Option.some.inj (hfound.symm.trans hfound')
  exact Except.error.inj (hcheck'.symm.trans hcheck)

namespace Snapshot

/-- All segments pass, in whatever order they come, unless one of them is not in order. -/
theorem GathersTo.checkAll_eq_ok_iff (h : GathersTo input segments) (walk : Dict.Walk Segment) :
    checkAll (checkSegment segments) ((walk.entries segments).map (·.2)) = .ok () ↔
      ∀ cause, ¬ input.RefusesSegment cause := by
  rw [Snapshot.checkAll_eq_ok_iff, List.forall_mem_map]
  constructor
  · rintro hall cause @⟨segments', segment, cause, hgather, hmem, hcheck⟩
    obtain rfl : segments' = segments := Except.ok.inj (hgather.symm.trans h)
    have hentry := (walk.mem_entries_iff _).mpr (h.get?_iff.mpr ⟨hmem, rfl⟩)
    rw [hall _ hentry] at hcheck
    cases hcheck
  · intro hnone e he
    have hmem := h.get?_iff.mp ((walk.mem_entries_iff _).mp he)
    cases hcheck : checkSegment segments e.2 with
    | ok _ => rfl
    | error cause => exact absurd ⟨h, hmem.1, hcheck⟩ (hnone cause)

/-- Where all segments are in order, the walk does not matter. -/
theorem buildIn_eq_of_not_refuses (h : ∀ cause, ¬ input.RefusesSegment cause)
    (walk : Dict.Walk Segment) : buildIn walk input = build input := by
  rw [build, buildIn, buildIn]
  cases hgather : gather Segment.name SnapshotError.duplicateSegment .empty input.segments with
  | error cause => rfl
  | ok segments =>
    have hgathers : GathersTo input segments := hgather
    have hpasses := hgathers.checkAll_eq_ok_iff
    show (checkAll _ ((walk.entries segments).map (·.2)) >>= _) =
      (checkAll _ ((Dict.Walk.ascending.entries segments).map (·.2)) >>= _)
    rw [(hpasses walk).mpr h, (hpasses .ascending).mpr h]

/-- Otherwise a segment that is not in order is reported. -/
theorem exists_refuses_of_refuses (h : input.RefusesSegment cause) (walk : Dict.Walk Segment) :
    ∃ reported, input.RefusesSegment reported ∧ buildIn walk input = .error reported := by
  obtain @⟨segments, segment, cause, hgather, hmem, hcheck⟩ := h
  rw [buildIn, hgather]
  show ∃ reported, _ ∧ (checkAll _ ((walk.entries segments).map (·.2)) >>= _) = _
  cases hall : checkAll (checkSegment segments) ((walk.entries segments).map (·.2)) with
  | ok _ => exact absurd ⟨hgather, hmem, hcheck⟩ ((hgather.checkAll_eq_ok_iff walk).mp hall cause)
  | error reported =>
    obtain ⟨first, hfirst, hreported⟩ := exists_of_checkAll_eq_error hall
    obtain ⟨e, he, rfl⟩ := List.mem_map.mp hfirst
    have hmem := hgather.get?_iff.mp ((walk.mem_entries_iff _).mp he)
    exact ⟨reported, ⟨hgather, hmem.1, hreported⟩, rfl⟩

/-- Whichever segment is not in order, a walk that begins with it reports it. -/
theorem exists_buildIn_eq_error (h : input.RefusesSegment cause) :
    ∃ walk, buildIn walk input = .error cause := by
  obtain @⟨segments, segment, cause, hgather, hmem, hcheck⟩ := h
  refine ⟨.first segment.name, ?_⟩
  have hfound := hgather.get?_iff.mpr ⟨hmem, rfl⟩
  rw [buildIn, hgather]
  show (checkAll _ (((segments.get? segment.name).toList.map (segment.name, ·) ++ _).map (·.2)) >>=
    _) = _
  rw [hfound]
  show ((checkSegment segments segment >>= _) >>= _) = _
  rw [hcheck]
  rfl

/-- Whether a configuration is accepted does not depend on the walk, and the snapshot does not. -/
theorem buildIn_eq_ok_iff {walk : Dict.Walk Segment} {s : Snapshot} :
    buildIn walk input = .ok s ↔ build input = .ok s := by
  by_cases h : ∃ cause, input.RefusesSegment cause
  · obtain ⟨cause, hcause⟩ := h
    obtain ⟨reported, -, hreported⟩ := exists_refuses_of_refuses hcause walk
    obtain ⟨reported', -, hreported'⟩ := exists_refuses_of_refuses hcause .ascending
    rw [hreported, build, hreported']
    simp only [reduceCtorEq]
  · rw [buildIn_eq_of_not_refuses (not_exists.mp h) walk]

/-- **What depends on the order of segments.** Two walks lead to the same, or each of them to an
error about a segment that is not in order. -/
theorem buildIn_alike (input : SnapshotInput) (walk walk' : Dict.Walk Segment) :
    buildIn walk input = buildIn walk' input ∨
      ∃ cause cause', buildIn walk input = .error cause ∧ buildIn walk' input = .error cause' ∧
        input.RefusesSegment cause ∧ input.RefusesSegment cause' := by
  by_cases h : ∃ cause, input.RefusesSegment cause
  · obtain ⟨cause, hcause⟩ := h
    obtain ⟨reported, hrefuses, hreported⟩ := exists_refuses_of_refuses hcause walk
    obtain ⟨reported', hrefuses', hreported'⟩ := exists_refuses_of_refuses hcause walk'
    exact .inr ⟨reported, reported', hreported, hreported', hrefuses, hrefuses'⟩
  · have hnone := not_exists.mp h
    rw [buildIn_eq_of_not_refuses hnone walk, buildIn_eq_of_not_refuses hnone walk']
    exact .inl rfl

end Snapshot

end Walks

end FeatureFlags
