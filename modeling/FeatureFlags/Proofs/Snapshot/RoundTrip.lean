import FeatureFlags.Proofs.Flag.Codecs
import FeatureFlags.Proofs.Targeting.Codecs
import FeatureFlags.Snapshot.Basic

/-!
# Snapshots round-trip

`SnapshotInput.format_round_trips`: whatever tree a configuration is decoded from, it is decoded
again from the tree that it is written as. So the bytes it is written as are a fixed point of decoding
and encoding (`SnapshotInput.recode?`), and a snapshot is the same, its fingerprint included, whether
it is loaded from a text or from what the text is written as.

The numbers of the first tree have to be ones that a text can denote (`Json.InRange`), as they are in
every tree that is read from a text. The laws of the parts say as well that what is written can be
read: it denotes a value, and it has no more levels than the first tree, or than the defaults take.
-/

namespace FeatureFlags

open Json

variable {n : Nat}

theorem Credential.readsBack (c : Credential) (hn : 1 ≤ n) : ReadsBack ofJson? toJson n c := by
  obtain ⟨m, rfl⟩ := Nat.exists_eq_add_of_le' hn
  refine ⟨rfl, ?_⟩
  simp [toJson, printable_object_iff, printable_string]

namespace SnapshotInput

/-- The timestamps in the configuration are of the years 0 to 9999. -/
def Dated (x : SnapshotInput) : Prop := ∀ s ∈ x.segments, s.Dated

/-- Configurations round-trip. -/
theorem roundTrips (origin origin' : Origin) {x : SnapshotInput} (hdated : x.Dated) (hn : 10 ≤ n) :
    RoundTrips (ofJson? origin) (ofJson? origin') toJson n x := by
  intro j hj h
  simp only [ofJson?, Option.bind_eq_bind, Option.bind_eq_some_iff, Option.pure_def,
    Option.some.injEq] at h
  obtain ⟨r, hrecord, account, haccount, flags, hflags, segments, hsegments, populations,
    hpopulations, credentials, hcredentials, rfl⟩ := h
  obtain ⟨m, rfl, hr⟩ := Record.within_of_ofJson? hj hrecord
  have haccount := hr.required haccount (roundTrips_string account)
  have hflags := hr.defaulted hflags (readsBack_nil (by omega))
    (.list fun _ _ flag _ => flag.roundTrips origin origin' (by omega))
  have hsegments := hr.defaulted hsegments (readsBack_nil (by omega))
    (.list fun _ _ s hs => Segment.roundTrips origin origin' (hdated s hs) (by omega))
  have hpopulations := hr.defaulted hpopulations (readsBack_empty (by omega))
    (.dict fun _ _ e _ => e.2.roundTrips)
  have hcredentials := hr.defaulted hcredentials (readsBack_nil (by omega))
    (.list fun _ _ c _ _ _ _ => c.readsBack (by omega))
  constructor
  · simp only [ofJson?, Option.bind_eq_bind, Option.bind_eq_some_iff]
    exact ⟨_, Record.ofJson?_object rfl (by decide), _, haccount.required rfl,
      _, hflags.defaulted rfl, _, hsegments.defaulted rfl, _, hpopulations.defaulted rfl,
      _, hcredentials.defaulted rfl, rfl⟩
  · simp [toJson, printable_object_iff, haccount.printable, hflags.printable, hsegments.printable,
      hpopulations.printable, hcredentials.printable]

/-- Decode a configuration from bytes and encode it again. -/
def recode? (bytes : List UInt8) : Option (List UInt8) :=
  ((Json.ofBytes? bytes).bind (ofJson? .text)).map fun x => x.toJson.toBytes

variable {x : SnapshotInput}

/-- What a configuration that is read from a text is written as can be read as a text. -/
theorem ofText?_toText {text : String} (h : ofText? text = some x) (hdated : x.Dated) :
    Json.ofText? x.toJson.toText = some x.toJson := by
  obtain ⟨j, hj, hdecode⟩ := Option.bind_eq_some_iff.mp h
  obtain ⟨-, hreadable, hdepth⟩ :=
    roundTrips .text .text hdated (by decide) (within_of_ofText? hj) hdecode
  exact Json.ofText?_toText hreadable hdepth

/-- Where the text of a configuration is read as the tree it was written from, the snapshot of the
text is that of the configuration. -/
theorem snapshot_of_toText (hdecode : ofJson? .text x.toJson = some x)
    (hread : Json.ofText? x.toJson.toText = some x.toJson) :
    Snapshot.ofText x.toJson.toText = Snapshot.build x := by
  rw [Snapshot.ofText, Snapshot.ofDelivery, ofText?, hread, Option.bind_some, hdecode]
  rfl

/-- **The snapshot format round-trips.** A configuration is decoded again from the tree that it is
written as. If the text of that tree is read as the tree, which it is unless there are more levels
than a reader follows, its bytes are a fixed point of decoding and encoding and give the snapshot of
the configuration. If the configuration was read from a text, that is the snapshot of the text.

A text is read as its tree only by a reader that reads numbers exactly, as the double that is
nearest to the text; `Json.ofText?` is taken to be one. With a reader that may miss the nearest
double, the second and the last clause are left with the configurations whose numbers it reads
back. -/
theorem format_round_trips {origin : Origin} {j : Json} (hrange : j.InRange)
    (hdecode : ofJson? origin j = some x) (hdated : x.Dated) :
    (∀ again, ofJson? again x.toJson = some x) ∧
    (j.depth ≤ Json.maxLevels → Json.ofText? x.toJson.toText = some x.toJson) ∧
    (Json.ofText? x.toJson.toText = some x.toJson →
      recode? x.toJson.toBytes = some x.toJson.toBytes ∧
      Snapshot.ofText x.toJson.toText = Snapshot.build x) ∧
    ∀ text, ofText? text = some x → Snapshot.ofText x.toJson.toText = Snapshot.ofText text := by
  have hagain : ∀ again, ofJson? again x.toJson = some x := by
    intro again
    have hwithin : j.Within (max j.depth 10) := ⟨hrange, le_max_left _ _⟩
    exact (roundTrips origin again hdated (le_max_right _ _) hwithin hdecode).reads
  refine ⟨hagain, fun hdepth => ?_, fun hread => ⟨?_, ?_⟩, fun text htext => ?_⟩
  · obtain ⟨-, hreadable, hdepth⟩ := roundTrips origin .text hdated (by decide)
      (⟨hrange, hdepth⟩ : j.Within Json.maxLevels) hdecode
    exact Json.ofText?_toText hreadable hdepth
  · rw [recode?, Json.toBytes, Json.ofBytes?_encode, hread, Option.bind_some, hagain .text,
      Option.map_some, Json.toBytes]
  · exact snapshot_of_toText (hagain .text) hread
  · rw [snapshot_of_toText (hagain .text) (ofText?_toText htext hdated), Snapshot.ofText,
      Snapshot.ofDelivery, htext]
    rfl

end SnapshotInput

/-! ## A configuration that is not in order -/

namespace Rollout

/-- A segment with its fields by position, and with operands and criteria out of order. One
criterion is on a leap second that ends a leap day, written with an offset from UTC. -/
def lateTree : Json :=
  .array [.string "late",
    .object [
      ("expression", .object [("or", .array [.object [("ref", .string "second")],
        .string "true", .object [("ref", .string "first")], .string "true"])]),
      ("criteria", .object [
        ("second", .object [("attribute", .object [
          ("rule", .object [("eq", .object [
            ("timestamp", .string "2024-03-01T05:29:60.5+05:30")])]),
          ("attribute", .string "visited")])]),
        ("first", .object [("segment", .array [.string "early"])])])]]

/-- The segment. -/
def late : Segment where
  name := "late"
  targeting := {
    expression := .any [.always, .ref "first", .ref "second"]
    criteria := Dict.ofList [("first", .inSegment "early"),
      ("second", .onAttribute "visited"
        (.plain (.eq (.timestamp { seconds := 1709251199, nanos := 1500000000 }))))] }

theorem ofJson?_lateTree : Segment.ofJson? .text lateTree = some late := by decide +kernel

/-- A configuration with the segment and with an unreadable field that nothing reads. -/
def scatteredTree : Json :=
  .object [("retired", .unreadable), ("segments", .array [lateTree]), ("account", .string "shop")]

/-- The configuration. -/
def scattered : SnapshotInput where
  account := "shop"
  segments := [late]

theorem ofJson?_scatteredTree : SnapshotInput.ofJson? .text scatteredTree = some scattered := by
  have hsegments : asList? (Segment.ofJson? .text) (.array [lateTree]) = some [late] := by
    rw [asList?, List.mapM_cons, ofJson?_lateTree]
    rfl
  simp only [SnapshotInput.ofJson?, Option.bind_eq_bind, Option.bind_eq_some_iff]
  exact ⟨_, rfl, _, rfl, _, rfl, _, hsegments, _, rfl, _, rfl, rfl⟩

theorem dated_scattered : scattered.Dated := by
  have hyear : Scalar.Dated (.timestamp { seconds := 1709251199, nanos := 1500000000 }) := by
    show 0 ≤ (CivilDate.ofDays _).year ∧ (CivilDate.ofDays _).year ≤ 9999
    decide
  have hrule : ∀ e ∈ late.targeting.criteria.entries, e.2.Dated :=
    List.forall_mem_cons.mpr ⟨trivial, List.forall_mem_singleton.mpr
      (List.forall_mem_singleton.mpr hyear)⟩
  exact List.forall_mem_singleton.mpr hrule

/-- The configuration round-trips, and so do its bytes. -/
theorem scattered_round_trips :
    scatteredTree.InRange ∧ SnapshotInput.ofJson? .text scatteredTree = some scattered ∧
    scattered.Dated ∧ (∀ again, SnapshotInput.ofJson? again scattered.toJson = some scattered) ∧
    SnapshotInput.recode? scattered.toJson.toBytes = some scattered.toJson.toBytes := by
  have hrange : scatteredTree.InRange := by
    simp [scatteredTree, lateTree, InRange, FieldsInRange, ItemsInRange]
  obtain ⟨hagain, htext, hbytes, -⟩ :=
    SnapshotInput.format_round_trips hrange ofJson?_scatteredTree dated_scattered
  exact ⟨hrange, ofJson?_scatteredTree, dated_scattered, hagain, (hbytes (htext (by decide))).1⟩

end Rollout

end FeatureFlags
