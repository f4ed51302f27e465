import FeatureFlags.Snapshot.Input

/-!
# Snapshots

A snapshot is the checked configuration of an account. `Snapshot.build` checks it
and fills in the values of variants, so that resolving can rely on it:

- names of flags and of segments occur once;
- every name in the expression of a segment has a criterion, every rule on an
  attribute is well formed, and every segment that a criterion names exists;
- every population has one bit for each bucket;
- every allocation is sound, and every variant that it names is defined;
- every variant has a value of the flag's schema.

The first fault that is found is reported. The segments come in the order of a walk
(`Snapshot.buildIn`), so of several segments that are not in order any may be reported;
everything else is looked at in an order that is known.
-/

namespace FeatureFlags

/-- Why a configuration is refused. -/
inductive SnapshotError where
  /-- The text is no configuration. -/
  | undecodable
  /-- The expression of a segment has a name without criterion. -/
  | unknownReference (segment reference : String)
  /-- A criterion names a segment that does not exist. -/
  | unknownSegment (segment target : String)
  /-- The rule of a criterion is not well formed. -/
  | invalidCriterion (segment criterion : String) (cause : RuleError)
  /-- A population has the wrong number of bytes. -/
  | invalidPopulation (segment : String) (length : Nat)
  /-- An allocation is not sound. -/
  | invalidAllocation (flag rule : String) (cause : AllocationError)
  /-- An allocation names a variant that the flag does not define. -/
  | unknownVariant (flag rule variant : String)
  /-- The value of a variant is not of the flag's schema. -/
  | schemaViolation (flag variant : String) (cause : SchemaViolation)
  /-- Two segments have one name. -/
  | duplicateSegment (name : String)
  /-- Two flags have one name. -/
  | duplicateFlag (name : String)
  deriving DecidableEq, Repr

namespace SnapshotError

/-- The text of the error; what is wrong with a text is left to the reader of JSON. -/
def message : SnapshotError → String
  | undecodable => "State decode error"
  | unknownReference segment reference =>
    "Segment '" ++ segment ++ "' references unknown criterion '" ++ reference ++ "'"
  | unknownSegment segment target =>
    "Segment '" ++ segment ++ "' references unknown segment '" ++ target ++ "'"
  | invalidCriterion segment criterion cause =>
    "Criterion '" ++ criterion ++ "' of segment '" ++ segment ++ "' is invalid: " ++ cause.message
  | invalidPopulation segment length =>
    "Bitset of segment '" ++ segment ++ "' has " ++ toString length ++ " bytes, expected " ++
      toString Population.byteCount
  | invalidAllocation flag rule cause =>
    "Rule '" ++ rule ++ "' of flag '" ++ flag ++ "' has invalid bucket ranges: " ++ cause.message
  | unknownVariant flag rule variant =>
    "Rule '" ++ rule ++ "' of flag '" ++ flag ++ "' assigns unknown variant '" ++ variant ++ "'"
  | schemaViolation flag variant cause =>
    "Variant '" ++ variant ++ "' of flag '" ++ flag ++ "' violates schema: " ++ cause.message
  | duplicateSegment name => "Duplicate segment '" ++ name ++ "'"
  | duplicateFlag name => "Duplicate flag '" ++ name ++ "'"

end SnapshotError

/-- A configuration as it is delivered. -/
structure Delivery where
  text : String
  /-- The order in which the segments will be looked at. -/
  walk : Dict.Walk Segment

/-- A text, whose segments will be looked at by ascending name. -/
instance : Coe String Delivery := ⟨fun text => { text, walk := .ascending }⟩

/-- The checked configuration of an account. -/
structure Snapshot where
  /-- The name of the account. -/
  account : String
  /-- The flags by name. -/
  flags : Dict Flag
  /-- The segments by name. -/
  segments : Dict Segment
  /-- The populations by the names of their segments. -/
  populations : Dict Population
  /-- The simplified expressions of the segments. -/
  expressions : Dict Expr
  /-- The clients by secret. -/
  clients : Dict String
  /-- The digest of the configuration as delivered. -/
  fingerprint : String

namespace Snapshot

/-- The salt under which units fall into populations. -/
def salt (s : Snapshot) : String := "MegaSalt-" ++ s.account

/-- The client that presents a secret. -/
def clientFor? (s : Snapshot) (secret : String) : Option String := s.clients.get? secret

/-! ## Checking -/

/-- Check the items in order; the first error counts. -/
def checkAll {α ε : Type} (check : α → Except ε Unit) : List α → Except ε Unit
  | [] => .ok ()
  | a :: rest => do
    check a
    checkAll check rest

/-- Gather items under their names, each name once. -/
def gather {α ε : Type} (name : α → String) (duplicate : String → ε) :
    Dict α → List α → Except ε (Dict α)
  | d, [] => .ok d
  | d, a :: rest =>
    if d.contains (name a) then .error (duplicate (name a))
    else gather name duplicate (d.insert (name a) a) rest

/-- Check a criterion of a segment. -/
def checkCriterion (segments : Dict Segment) (segment : String) (entry : String × Criterion) :
    Except SnapshotError Unit :=
  match entry.2 with
  | .onAttribute _ rule =>
    match rule.validate with
    | .ok _ => .ok ()
    | .error cause => .error (.invalidCriterion segment entry.1 cause)
  | .inSegment target =>
    if segments.contains target then .ok () else .error (.unknownSegment segment target)

/-- Check the expression of a segment and then its criteria by name. -/
def checkSegment (segments : Dict Segment) (s : Segment) : Except SnapshotError Unit :=
  match s.targeting.danglingRefs with
  | reference :: _ => .error (.unknownReference s.name reference)
  | [] => checkAll (checkCriterion segments s.name) s.targeting.criteria.toList

/-- Check the population of a segment. -/
def checkPopulation (entry : String × Population) : Except SnapshotError Unit :=
  match entry.2 with
  | .full => .ok ()
  | .sample bytes =>
    if entry.2.isWellFormed then .ok () else .error (.invalidPopulation entry.1 bytes.size)

/-- Check the allocation of a rule and then the variants that it names. -/
def checkRule (f : Flag) (r : FlagRule) : Except SnapshotError Unit :=
  match r.allocation.error? with
  | some cause => .error (.invalidAllocation f.name r.name cause)
  | none =>
    match r.variantNames.find? fun name => (f.variant? name).isNone with
    | some variant => .error (.unknownVariant f.name r.name variant)
    | none => .ok ()

/-- The variants with their values filled in. -/
def expandVariants (f : Flag) : List Variant → Except SnapshotError (List Variant)
  | [] => .ok []
  | v :: rest =>
    match f.schema.expand v.value with
    | .error cause => .error (.schemaViolation f.name v.name cause)
    | .ok value => do
      let rest ← expandVariants f rest
      return { v with value } :: rest

/-- The flag with the values of its variants filled in, once its rules have been checked. -/
def expandFlag (f : Flag) : Except SnapshotError Flag := do
  checkAll (checkRule f) f.rules
  let variants ← expandVariants f f.variants
  return { f with variants }

/-- The flags by name; each is checked before its name is. -/
def gatherFlags : Dict Flag → List Flag → Except SnapshotError (Dict Flag)
  | d, [] => .ok d
  | d, f :: rest => do
    let expanded ← expandFlag f
    if d.contains f.name then .error (.duplicateFlag f.name)
    else gatherFlags (d.insert f.name expanded) rest

/-- Check a configuration: names of segments, then segments in the order of the walk, populations
and flags. Of two credentials with one secret the later counts. -/
def buildIn (walk : Dict.Walk Segment) (input : SnapshotInput) :
    Except SnapshotError Snapshot := do
  let segments ← gather Segment.name .duplicateSegment .empty input.segments
  checkAll (checkSegment segments) ((walk.entries segments).map (·.2))
  checkAll checkPopulation input.populations.toList
  let flags ← gatherFlags .empty input.flags
  return {
    account := input.account
    flags
    segments
    populations := input.populations
    expressions := segments.map fun s => s.targeting.expression.simplify
    clients := Dict.ofList (input.credentials.map fun c => (c.secret, c.client))
    fingerprint := input.fingerprint }

/-- Check a configuration, its segments by ascending name. -/
def build (input : SnapshotInput) : Except SnapshotError Snapshot := buildIn .ascending input

/-- The snapshot of a configuration that is delivered. -/
def ofDelivery (delivery : Delivery) : Except SnapshotError Snapshot :=
  match SnapshotInput.ofText? delivery.text with
  | some input => buildIn delivery.walk input
  | none => .error .undecodable

/-- The snapshot of a text. -/
def ofText (text : String) : Except SnapshotError Snapshot := ofDelivery text

end Snapshot

end FeatureFlags
