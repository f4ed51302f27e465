import FeatureFlags.Resolution.Batch

/-!
# Logs

What an engine has done since it was last asked: the requests it resolved, and the
exposures of clients to decisions. Both grow at their ends only.
-/

namespace FeatureFlags

/-- The record of a resolved request. -/
structure ResolveEntry where
  /-- The name of the resolve. -/
  resolveId : String
  client : String
  /-- The fingerprint of the snapshot. -/
  stateFingerprint : String
  /-- What the client was told about the flags. -/
  flags : List ResolvedFlag
  deriving Repr

namespace ResolveEntry

/-- The record of a resolution. -/
def ofResolution (r : Resolution) : ResolveEntry :=
  { resolveId := r.response.resolveId
    client := r.client
    stateFingerprint := r.response.stateFingerprint
    flags := r.response.flags }

def toJson (e : ResolveEntry) : Json :=
  .object [("resolve_id", .string e.resolveId), ("client", .string e.client),
    ("state_fingerprint", .string e.stateFingerprint),
    ("resolved_flags", Json.ofList ResolvedFlag.toJson e.flags)]

def ofJson? (j : Json) : Option ResolveEntry := do
  let r ← Record.ofJson? ["resolve_id", "client", "state_fingerprint", "resolved_flags"] j
  let resolveId ← r.required "resolve_id" Json.asString?
  let client ← r.required "client" Json.asString?
  let stateFingerprint ← r.required "state_fingerprint" Json.asString?
  let flags ← r.required "resolved_flags" (Json.asList? ResolvedFlag.ofJson?)
  return { resolveId, client, stateFingerprint, flags }

end ResolveEntry

/-- What has been done, in the order in which it was done. -/
structure Log where
  /-- The resolved requests. -/
  resolves : List ResolveEntry
  assignments : List AssignmentEvent
  deriving Repr

namespace Log

/-- Nothing has been done. -/
def empty : Log := { resolves := [], assignments := [] }

instance : EmptyCollection Log := ⟨empty⟩
instance : Inhabited Log := ⟨empty⟩

/-- What an earlier log and a later one say together. -/
def append (earlier later : Log) : Log :=
  { resolves := earlier.resolves ++ later.resolves
    assignments := earlier.assignments ++ later.assignments }

instance : Append Log := ⟨append⟩

/-- Whether nothing has been done. -/
def isEmpty (l : Log) : Bool := l.resolves.isEmpty && l.assignments.isEmpty

/-- The log of one resolved request. -/
def ofResolution (r : Resolution) : Log :=
  { resolves := [.ofResolution r], assignments := r.events }

/-- The log of exposures that were reported. -/
def ofEvents (events : List AssignmentEvent) : Log := { resolves := [], assignments := events }

def toJson (l : Log) : Json :=
  .object [("resolves", Json.ofList ResolveEntry.toJson l.resolves),
    ("assignments", Json.ofList AssignmentEvent.toJson l.assignments)]

def ofJson? (j : Json) : Option Log := do
  let r ← Record.ofJson? ["resolves", "assignments"] j
  let resolves ← r.required "resolves" (Json.asList? ResolveEntry.ofJson?)
  let assignments ← r.required "assignments" (Json.asList? AssignmentEvent.ofJson?)
  return { resolves, assignments }

/-! ## Laws -/

@[ext] theorem ext {a b : Log} (h : a.resolves = b.resolves) (h' : a.assignments = b.assignments) :
    a = b := by
  cases a; cases b; simp_all

@[simp] theorem resolves_empty : (∅ : Log).resolves = [] := rfl
@[simp] theorem assignments_empty : (∅ : Log).assignments = [] := rfl

@[simp] theorem resolves_append (a b : Log) : (a ++ b).resolves = a.resolves ++ b.resolves := rfl

@[simp] theorem assignments_append (a b : Log) :
    (a ++ b).assignments = a.assignments ++ b.assignments := rfl

@[simp] theorem append_empty (a : Log) : a ++ ∅ = a := by ext1 <;> simp

@[simp] theorem empty_append (a : Log) : ∅ ++ a = a := by ext1 <;> simp

theorem append_assoc (a b c : Log) : a ++ b ++ c = a ++ (b ++ c) := by ext1 <;> simp

end Log

end FeatureFlags
