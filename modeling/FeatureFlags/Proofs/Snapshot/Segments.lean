import FeatureFlags.Snapshot.Membership

/-!
# Snapshots with the same segments

Membership depends on the segments of a snapshot, their populations and the account,
and on nothing else: flags and clients may change (`Snapshot.SameSegments.isMember_eq`).
-/

namespace FeatureFlags

namespace Snapshot

/-- The snapshots have the same segments, of the same account. -/
structure SameSegments (s s' : Snapshot) : Prop where
  account : s'.account = s.account
  segments : s'.segments = s.segments
  populations : s'.populations = s.populations
  expressions : s'.expressions = s.expressions

namespace SameSegments

variable {s s' : Snapshot}

protected theorem refl (s : Snapshot) : SameSegments s s := ⟨rfl, rfl, rfl, rfl⟩

theorem inPopulation_eq (h : SameSegments s s') (segment unit : String) :
    s'.inPopulation segment unit = s.inPopulation segment unit := by
  rw [inPopulation, inPopulation, salt, salt, h.populations, h.account]

/-- Evaluation along a path is the same. The induction is on the segments that are not on the
path, as in the evaluator; the memo is the same on both sides at every step. -/
theorem isMemberOnPath_eq (h : SameSegments s s') (context : Context) (unit : String)
    (unvisited : List (String × Segment)) (path : List String) (name : String)
    (memo : Dict Bool) :
    isMemberOnPath s' context unit unvisited path name memo =
      isMemberOnPath s context unit unvisited path name memo := by
  induction hn : unvisited.length using Nat.strongRecOn generalizing unvisited path name memo with
  | ind n ih =>
    rw [isMemberOnPath, isMemberOnPath]
    cases memo.get? name with
    | some known => rfl
    | none =>
      dsimp only
      split
      · rfl
      · split
        · rfl
        · next segment hfound =>
          have hlt : (Entries.erase name unvisited).length < n :=
            hn ▸ Entries.length_erase_lt hfound
          -- the segments that it refers to are evaluated alike along the longer path
          have hmember : (fun target memo => isMemberOnPath s' context unit
                (Entries.erase name unvisited) (path ++ [name]) target memo) =
              fun target memo => isMemberOnPath s context unit
                (Entries.erase name unvisited) (path ++ [name]) target memo := by
            funext target memo
            exact ih _ hlt _ _ _ _ rfl
          simp only [hmember, h.expressions, h.inPopulation_eq]

/-- Units are members of the same segments. -/
theorem isMember_eq (h : SameSegments s s') (context : Context) (segment unit : String) :
    s'.isMember context segment unit = s.isMember context segment unit := by
  rw [isMember, isMember, h.segments, h.isMemberOnPath_eq]

end SameSegments

end Snapshot

end FeatureFlags
