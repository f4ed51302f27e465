import FeatureFlags.Snapshot.Basic

/-!
# Membership in segments

`Snapshot.isMember` tells whether a unit is in a segment: the segment's expression
holds of the criteria that the unit satisfies, and the unit falls into the
segment's population. All criteria that the expression names are evaluated, also
where the expression is decided without them, so a circle of segments is always
noticed. A segment is evaluated once: `memo` keeps the answers.

The evaluator goes along a path of segments. It recurses on the segments that are
not on the path yet, which become fewer with every step.
-/

namespace FeatureFlags

/-- Why membership cannot be told. -/
inductive MembershipError where
  /-- The path of segments comes back to one that is on it. -/
  | circular (path : List String)
  /-- There is no such segment. -/
  | unknownSegment (name : String)
  deriving DecidableEq, Repr

namespace MembershipError

/-- The text of the error. -/
def message : MembershipError → String
  | circular path => "Circular segment dependency: " ++ String.intercalate " -> " path
  | unknownSegment name => "Unknown segment: " ++ name

end MembershipError

namespace Entries

theorem length_erase_le {α : Type} (name : String) (entries : List (String × α)) :
    (erase name entries).length ≤ entries.length :=
  List.length_filter_le _ _

/-- Dropping what is there makes a list shorter. -/
theorem length_erase_lt {α : Type} {name : String} {a : α} {entries : List (String × α)}
    (h : get? name entries = some a) : (erase name entries).length < entries.length := by
  induction entries with
  | nil => cases h
  | cons e rest ih =>
    obtain ⟨k, v⟩ := e
    unfold get? at h
    split at h
    · next hk =>
      have := length_erase_le name rest
      simp only [erase, List.filter_cons, hk, ne_eq, not_true_eq_false, decide_false,
        Bool.false_eq_true, ↓reduceIte, List.length_cons] at this ⊢
      omega
    · next hk =>
      have := ih h
      simp only [erase, List.filter_cons, hk, ne_eq, not_false_eq_true, decide_true, ↓reduceIte,
        List.length_cons] at this ⊢
      omega

end Entries

namespace Snapshot

/-- Whether a unit falls into the population of a segment; a segment without one has no units. -/
def inPopulation (s : Snapshot) (segment unit : String) : Bool :=
  (s.populations.get? segment).any fun p => p.admits unit s.salt

/-- Whether a criterion is satisfied, where `member` evaluates other segments. A name without
criterion is never satisfied. -/
def holds {σ : Type} (context : Context)
    (member : String → σ → Except MembershipError (Bool × σ)) :
    Option Criterion → σ → Except MembershipError (Bool × σ)
  | some (.onAttribute path rule), memo => .ok (rule.accepts (context.get path), memo)
  | some (.inSegment segment), memo => member segment memo
  | none, memo => .ok (false, memo)

/-- The names among `refs` whose criteria are satisfied, evaluated in order. -/
def satisfied {σ : Type} (context : Context) (criteria : Dict Criterion)
    (member : String → σ → Except MembershipError (Bool × σ)) :
    (refs : List String) → σ → Except MembershipError (List String × σ)
  | [], memo => .ok ([], memo)
  | ref :: refs, memo => do
    let (here, memo) ← holds context member (criteria.get? ref) memo
    let (names, memo) ← satisfied context criteria member refs memo
    return (if here then ref :: names else names, memo)

/-- Whether the unit is in the segment `name` at the end of `path`, where `unvisited` are the
segments that are not on the path. -/
def isMemberOnPath (s : Snapshot) (context : Context) (unit : String)
    (unvisited : List (String × Segment)) (path : List String) (name : String)
    (memo : Dict Bool) : Except MembershipError (Bool × Dict Bool) :=
  match memo.get? name with
  | some known => .ok (known, memo)
  | none =>
    if path.contains name then .error (.circular (path ++ [name]))
    else match _found : Entries.get? name unvisited with
      | none => .error (.unknownSegment name)
      | some segment => do
        let rest := Entries.erase name unvisited
        let (names, memo) ← satisfied context segment.targeting.criteria
          (fun target memo => isMemberOnPath s context unit rest (path ++ [name]) target memo)
          segment.targeting.expression.refs memo
        let expression := s.expressions.getD name segment.targeting.expression
        let member := expression.eval (names.contains ·) && s.inPopulation name unit
        return (member, memo.insert name member)
termination_by unvisited.length
decreasing_by exact Entries.length_erase_lt _found

/-- Whether the unit is in the segment. -/
def isMember (s : Snapshot) (context : Context) (segment unit : String) :
    Except MembershipError Bool :=
  (isMemberOnPath s context unit s.segments.toList [] segment .empty).map (·.1)

end Snapshot

end FeatureFlags
