import FeatureFlags.Proofs.Json.Records
import FeatureFlags.Resolution.Token
import Mathlib.Data.List.TakeWhile

/-!
# Sealed tokens

`ResolveToken.opens_what_was_sealed`: opening the text of a token gives the token.

The text goes through three layers, and each is undone on its own: the fields of the token
(`ResolveToken.ofJson?_toJson`), the JSON text (`Json.ofBytes?_toBytes`), and the points between
hexadecimal parts (`ResolveToken.threeParts?_eq_some_iff`). Only the JSON reader has a limit; the
levels of a token are those of its context and one more (`ResolveToken.depth_toJson_le_iff`).

Opening accepts more than sealing writes: any part of the front of the digest passes for a tag
(`ResolveToken.ofText_eq_ok_iff`). `ResolveToken.accepts_only_full_tag_iff` says for which texts
this makes a difference.
-/

namespace FeatureFlags

/-! ## Reading the fields -/

theorem Context.ofJson?_toJson (c : Context) : Context.ofJson? c.toJson = some c := by
  have hsame : c.toJson.normalize? = some (.object c.fields) :=
    Json.normalize?_of_normal c.normal
  unfold ofJson?
  split
  · next fields h =>
    rw [hsame] at h
    cases h
    rfl
  · next h => exact absurd hsame (h _)

theorem Fallthrough.ofJson?_toJson (f : Fallthrough) : Fallthrough.ofJson? f.toJson = some f := by
  rw [ofJson?, toJson, Record.ofJson?_object]
  · rfl
  · rfl
  · decide

theorem ResolveReason.ofJson?_name (r : ResolveReason) :
    ResolveReason.ofJson? (.string r.name) = some r := by
  cases r <;> rfl

theorem AssignedFlag.ofJson?_toJson (a : AssignedFlag) :
    AssignedFlag.ofJson? a.toJson = some a := by
  rw [ofJson?, toJson, Record.ofJson?_object]
  · simp only [Option.bind_eq_bind, Option.bind_some]
    rw [Record.required_eq rfl, Record.required_eq rfl, Record.optional_ofOption rfl,
      Record.optional_ofOption rfl, Record.optional_ofOption rfl, Record.optional_ofOption rfl,
      Record.optional_ofOption rfl, Record.optional_ofOption rfl, Record.required_eq rfl,
      ResolveReason.ofJson?_name, Json.asList?_ofList Fallthrough.ofJson?_toJson]
    rfl
  · rfl
  · decide

theorem ResolveToken.ofJson?_toJson (t : ResolveToken) :
    ResolveToken.ofJson? t.toJson = some t := by
  rw [ofJson?, toJson, Record.ofJson?_object]
  · simp only [Option.bind_eq_bind, Option.bind_some]
    rw [Record.required_eq rfl, Record.required_eq rfl, Record.required_eq rfl,
      Record.required_eq rfl, Record.required_eq rfl, Context.ofJson?_toJson,
      Json.asList?_ofList AssignedFlag.ofJson?_toJson]
    rfl
  · rfl
  · decide

/-! ## Levels -/

theorem Fallthrough.readable_toJson (f : Fallthrough) : f.toJson.Readable := rfl

theorem Fallthrough.depth_toJson (f : Fallthrough) : f.toJson.depth = 1 := rfl

theorem AssignedFlag.readable_toJson (a : AssignedFlag) : a.toJson.Readable := by
  rw [toJson, Json.readable_object_iff]
  simp only [List.forall_mem_cons, List.not_mem_nil, false_implies, implies_true, and_true,
    Json.readable_ofOption_string, Json.readable_ofList Fallthrough.readable_toJson]
  exact ⟨rfl, rfl⟩

theorem AssignedFlag.depth_toJson_le (a : AssignedFlag) : a.toJson.depth ≤ 3 := by
  have hfallthroughs : (Json.ofList Fallthrough.toJson a.fallthroughs).depth ≤ 2 :=
    Json.depth_ofList_le (fun f => f.depth_toJson.le) _
  rw [toJson, Json.depth, Nat.add_le_add_iff_right, Json.depthOfFields_le_iff]
  simp [Json.depth_ofOption_string, Json.depth, hfallthroughs]

namespace ResolveToken

theorem readable_toJson (t : ResolveToken) : t.toJson.Readable := by
  have hcontext : t.context.toJson.Readable := Json.Normal.readable t.context.normal
  rw [toJson, Json.readable_object_iff]
  simp only [List.forall_mem_cons, List.not_mem_nil, false_implies, implies_true, and_true,
    hcontext, Json.readable_ofList AssignedFlag.readable_toJson]
  exact ⟨rfl, rfl, rfl⟩

/-- The levels of a token are those of its context and one more. -/
theorem depth_toJson_le_iff (t : ResolveToken) :
    t.toJson.depth ≤ Json.maxLevels ↔ t.context.toJson.depth < Json.maxLevels := by
  have hflags : (Json.ofList AssignedFlag.toJson t.assignedFlags).depth ≤ 126 :=
    (Json.depth_ofList_le (fun a => a.depth_toJson_le) _).trans (by decide)
  rw [toJson, Json.depth, Json.maxLevels, Nat.add_le_add_iff_right, Json.depthOfFields_le_iff,
    Nat.lt_succ_iff]
  simp [Json.depth, hflags]

/-- A token is read back from the bytes of its JSON text. -/
theorem ofBytes?_toBytes {t : ResolveToken} (h : t.toJson.depth ≤ Json.maxLevels) :
    ofBytes? t.toJson.toBytes = some t := by
  rw [ofBytes?, Json.ofBytes?_toBytes t.readable_toJson h, Option.bind_some, ofJson?_toJson]

/-! ## Parts of a sealed text -/

section Parts

variable {front rest : List Char}

theorem forall_ne_point (h : '.' ∉ front) : ∀ c ∈ front, decide (c ≠ '.') = true := by
  intro c hc
  rw [decide_eq_true_iff]
  rintro rfl
  exact h hc

theorem takeWhile_front (h : '.' ∉ front) : (front ++ '.' :: rest).takeWhile (· ≠ '.') = front := by
  rw [List.takeWhile_append_of_pos (forall_ne_point h)]
  simp

theorem dropWhile_front (h : '.' ∉ front) :
    (front ++ '.' :: rest).dropWhile (· ≠ '.') = '.' :: rest := by
  rw [List.dropWhile_append_of_pos (forall_ne_point h)]
  simp

/-- What stands before and behind the first point. -/
theorem front_of_behind {cs : List Char}
    (h : (match cs.dropWhile (· ≠ '.') with | _ :: rest => some rest | [] => none) = some rest) :
    '.' ∉ cs.takeWhile (· ≠ '.') ∧ cs = cs.takeWhile (· ≠ '.') ++ '.' :: rest := by
  split at h
  · next c behind hdrop =>
    cases h
    have hpoint : c = '.' := by
      have hhead := List.head?_dropWhile_not (fun c => decide (c ≠ '.')) cs
      rw [hdrop] at hhead
      simpa using hhead
    refine ⟨fun hmem => ?_, ?_⟩
    · simpa using List.mem_takeWhile_imp hmem
    · conv_lhs => rw [← List.takeWhile_append_dropWhile (p := fun c => decide (c ≠ '.')) (l := cs)]
      rw [hdrop, hpoint]
  · cases h

end Parts

theorem threeParts?_eq_some_iff {text a b c : String} :
    threeParts? text = some (a, b, c) ↔
      text = a ++ "." ++ b ++ "." ++ c ∧ '.' ∉ a.toList ∧ '.' ∉ b.toList := by
  constructor
  · intro h
    unfold threeParts? at h
    dsimp only at h
    split at h
    · cases h
    · next behind hfirst =>
      split at h
      · cases h
      · next last hsecond =>
        cases h
        obtain ⟨ha, htext⟩ := front_of_behind hfirst
        obtain ⟨hb, hbehind⟩ := front_of_behind hsecond
        rw [String.toList_ofList, String.toList_ofList]
        refine ⟨?_, ha, hb⟩
        rw [← String.toList_inj]
        simp only [String.toList_append, String.toList_ofList]
        conv_lhs => rw [htext, hbehind]
        simp
  · rintro ⟨rfl, ha, hb⟩
    have htext : (a ++ "." ++ b ++ "." ++ c).toList =
        a.toList ++ '.' :: (b.toList ++ '.' :: c.toList) := by simp
    unfold threeParts?
    simp only [htext, dropWhile_front ha, dropWhile_front hb, takeWhile_front ha,
      takeWhile_front hb, String.ofList_toList]

/-! ## Tags -/

/-- The number of bytes of a digest. -/
def digestLength : Nat := 32

theorem length_mac (secret : List UInt8) (payload : String) :
    (mac secret payload).length = digestLength := rfl

theorem isTag_iff {tag digest : List UInt8} :
    isTag tag digest = true ↔ ∃ n, 1 ≤ n ∧ n ≤ digest.length ∧ tag = digest.take n := by
  rw [isTag, Bool.and_eq_true, List.isPrefixOf_iff_prefix]
  constructor
  · rintro ⟨hne, hfront⟩
    refine ⟨tag.length, ?_, hfront.length_le, List.prefix_iff_eq_take.mp hfront⟩
    refine List.length_pos_of_ne_nil ?_
    rintro rfl
    cases hne
  · rintro ⟨n, hpos, hle, rfl⟩
    refine ⟨?_, List.take_prefix n digest⟩
    have hlength : (digest.take n).length = n := List.length_take_of_le hle
    cases htag : digest.take n with
    | nil =>
      rw [htag] at hlength
      exact absurd hlength.symm (Nat.pos_iff_ne_zero.mp hpos)
    | cons b tag => rfl

theorem point_not_mem_encode (bytes : List UInt8) : '.' ∉ Text.Hex.encode bytes := by
  intro h
  obtain ⟨b, -, hpoint⟩ := List.mem_flatMap.mp h
  simp [Text.Hex.pair] at hpoint

/-- The text is made of the version, a payload and a tag. -/
structure Splits (text payload tag : String) : Prop where
  eq : text = version ++ "." ++ payload ++ "." ++ tag
  no_point : '.' ∉ payload.toList

theorem splits_iff {text payload tag : String} :
    Splits text payload tag ↔ threeParts? text = some (version, payload, tag) := by
  rw [threeParts?_eq_some_iff]
  constructor
  · rintro ⟨heq, hpoint⟩
    exact ⟨heq, by decide, hpoint⟩
  · rintro ⟨heq, -, hpoint⟩
    exact ⟨heq, hpoint⟩

/-- The token in the hexadecimal digits of a payload. -/
def ofPayload? (payload : String) : Option ResolveToken :=
  (Text.Hex.decode? payload.toList).bind ofBytes?

/-- A text is accepted if its tag is any part of the front of the digest that is not empty, and its
payload holds a token. -/
theorem ofText_eq_ok_iff (secret : List UInt8) (text : String) (t : ResolveToken) :
    ofText secret text = .ok t ↔
      ∃ payload tag n, Splits text payload tag ∧ 1 ≤ n ∧ n ≤ digestLength ∧
        Text.Hex.decode? tag.toList = some ((mac secret payload).take n) ∧
        ofPayload? payload = some t := by
  constructor
  · intro h
    unfold ofText at h
    split at h
    · cases h
    · next found payload tag hparts =>
      split at h
      · cases h
      · next hversion =>
        rw [not_not] at hversion
        rw [hversion] at hparts
        split at h
        · cases h
        · next bytes hbytes =>
          split at h
          · cases h
          · next htag =>
            rw [Bool.not_eq_true', Bool.not_eq_false, isTag_iff] at htag
            obtain ⟨n, hpos, hle, rfl⟩ := htag
            refine ⟨payload, tag, n, splits_iff.mpr hparts, hpos, hle, hbytes, ?_⟩
            split at h
            · cases h
            · next data hdata =>
              rw [ofPayload?, hdata, Option.bind_some]
              split at h
              · next ht =>
                cases h
                exact ht
              · cases h
  · rintro ⟨payload, tag, n, hsplits, hpos, hle, htag, hpayload⟩
    obtain ⟨data, hdata, ht⟩ := Option.bind_eq_some_iff.mp hpayload
    have hfront : isTag ((mac secret payload).take n) (mac secret payload) = true :=
      isTag_iff.mpr ⟨n, hpos, hle, rfl⟩
    simp [ofText, splits_iff.mp hsplits, htag, hfront, hdata, ht]

/-- Three parts of a text are its only ones. -/
theorem Splits.unique {text payload tag payload' tag' : String} (h : Splits text payload tag)
    (h' : Splits text payload' tag') : payload = payload' ∧ tag = tag' := by
  have hsome := (splits_iff.mp h).symm.trans (splits_iff.mp h')
  cases hsome
  exact ⟨rfl, rfl⟩

/-! ## Sealing and opening -/

/-- The payload of the text of a token. -/
def payload (t : ResolveToken) : String := String.ofList (Text.Hex.encode t.toJson.toBytes)

theorem ofPayload?_payload {t : ResolveToken} (h : t.context.toJson.depth < Json.maxLevels) :
    ofPayload? t.payload = some t := by
  rw [← depth_toJson_le_iff] at h
  rw [ofPayload?, payload, String.toList_ofList, Text.Hex.decode?_encode, Option.bind_some,
    ofBytes?_toBytes h]

/-- The text of a token whose tag is the first `n` bytes of the digest. -/
def textWithTag (t : ResolveToken) (secret : List UInt8) (n : Nat) : String :=
  version ++ "." ++ t.payload ++ "." ++
    String.ofList (Text.Hex.encode ((mac secret t.payload).take n))

theorem toText_eq (t : ResolveToken) (secret : List UInt8) :
    t.toText secret = t.textWithTag secret tagLength := rfl

theorem splits_textWithTag (t : ResolveToken) (secret : List UInt8) (n : Nat) :
    Splits (t.textWithTag secret n) t.payload
      (String.ofList (Text.Hex.encode ((mac secret t.payload).take n))) where
  eq := rfl
  no_point := by
    rw [payload, String.toList_ofList]
    exact point_not_mem_encode _

/-- A sealed token is opened again with any part of the front of the digest for its tag. -/
theorem ofText_textWithTag (secret : List UInt8) {t : ResolveToken} {n : Nat}
    (h : t.context.toJson.depth < Json.maxLevels) (hpos : 1 ≤ n) (hle : n ≤ digestLength) :
    ofText secret (t.textWithTag secret n) = .ok t := by
  refine (ofText_eq_ok_iff secret _ t).mpr
    ⟨t.payload, _, n, t.splits_textWithTag secret n, hpos, hle, ?_, ofPayload?_payload h⟩
  rw [String.toList_ofList, Text.Hex.decode?_encode]

/-- A decision for a checkout. -/
def checkout : ResolveToken where
  account := "acme"
  resolveId := "r-1"
  stateFingerprint := "0011223344556677"
  context := ⟨[("cart", .array [.number (.double ⟨0x3FB999999999999A⟩)]),
    ("targeting_key", .string "user \"1\"")], rfl⟩
  assignedFlags :=
    [{ flag := "checkout", reason := .matched, rule := some "rollout", segment := some "everyone"
       assignmentId := some "all", variant := none, unit := some "user \"1\""
       selector := some "targeting_key"
       fallthroughs := [{ rule := "holdback", assignmentId := "rest", unit := "user \"1\"" }] }]

/-- What is sealed is opened again: the reader of JSON follows every tree of at most
`Json.maxLevels` levels. -/
theorem opens_what_was_sealed (secret : List UInt8) (t : ResolveToken)
    (h : t.toJson.depth ≤ Json.maxLevels) : ofText secret (t.toText secret) = .ok t := by
  rw [depth_toJson_le_iff] at h
  rw [toText_eq]
  exact ofText_textWithTag secret h (by decide) (by decide)

theorem checkout_opens : checkout.toJson.depth ≤ Json.maxLevels ∧
    ofText (Text.Utf8.encode "secret") (checkout.toText (Text.Utf8.encode "secret")) =
      .ok checkout :=
  ⟨by decide, opens_what_was_sealed _ _ (by decide)⟩

/-! ## Full tags -/

/-- The third part of the text is the tag that sealing writes. -/
def HasFullTag (secret : List UInt8) (text : String) : Prop :=
  ∃ payload tag, Splits text payload tag ∧
    Text.Hex.decode? tag.toList = some ((mac secret payload).take tagLength)

/-- Parts of the front of a digest are told apart by their lengths. -/
theorem take_mac_eq_iff (secret : List UInt8) (payload : String) {n m : Nat}
    (hn : n ≤ digestLength) (hm : m ≤ digestLength) :
    (mac secret payload).take n = (mac secret payload).take m ↔ n = m := by
  refine ⟨fun h => ?_, fun h => by rw [h]⟩
  rw [← length_mac secret payload] at hn hm
  rw [← List.length_take_of_le hn, h, List.length_take_of_le hm]

theorem hasFullTag_textWithTag_iff (secret : List UInt8) (t : ResolveToken) {n : Nat}
    (hle : n ≤ digestLength) : HasFullTag secret (t.textWithTag secret n) ↔ n = tagLength := by
  have hsplits := t.splits_textWithTag secret n
  have htag := Text.Hex.decode?_encode ((mac secret t.payload).take n)
  rw [← take_mac_eq_iff secret t.payload hle (by decide)]
  constructor
  · rintro ⟨payload, tag, hsplits', htag'⟩
    obtain ⟨rfl, rfl⟩ := hsplits.unique hsplits'
    rw [String.toList_ofList, htag, Option.some.injEq] at htag'
    exact htag'
  · intro heq
    refine ⟨_, _, hsplits, ?_⟩
    rw [String.toList_ofList, htag, heq]

/-- Only the full tag is accepted, unless the text has another part of the front of the digest for a
tag, of whatever length from one byte on, and its payload holds a token. -/
theorem accepts_only_full_tag_iff (secret : List UInt8) (text : String) :
    (∀ t, ofText secret text = .ok t → HasFullTag secret text) ↔
      ∀ payload tag n, Splits text payload tag → 1 ≤ n → n ≤ digestLength →
        Text.Hex.decode? tag.toList = some ((mac secret payload).take n) →
        (ofPayload? payload).isSome = true → n = tagLength := by
  constructor
  · intro hfull payload tag n hsplits hpos hle htag hpayload
    obtain ⟨t, ht⟩ := Option.isSome_iff_exists.mp hpayload
    obtain ⟨payload', tag', hsplits', htag'⟩ :=
      hfull t ((ofText_eq_ok_iff secret text t).mpr ⟨payload, tag, n, hsplits, hpos, hle, htag, ht⟩)
    obtain ⟨rfl, rfl⟩ := hsplits.unique hsplits'
    rw [htag, Option.some.injEq, take_mac_eq_iff _ _ hle (by decide)] at htag'
    exact htag'
  · intro honly t h
    obtain ⟨payload, tag, n, hsplits, hpos, hle, htag, ht⟩ := (ofText_eq_ok_iff secret text t).mp h
    have hn : n = tagLength :=
      honly payload tag n hsplits hpos hle htag (Option.isSome_iff_exists.mpr ⟨t, ht⟩)
    exact ⟨payload, tag, hsplits, hn ▸ htag⟩

/-- One byte is enough of a tag. -/
theorem checkout_opens_with_one_byte :
    ofText (Text.Utf8.encode "secret") (checkout.textWithTag (Text.Utf8.encode "secret") 1) =
      .ok checkout ∧
    ¬ HasFullTag (Text.Utf8.encode "secret")
      (checkout.textWithTag (Text.Utf8.encode "secret") 1) := by
  refine ⟨ofText_textWithTag _ (by decide) (by decide) (by decide), ?_⟩
  rw [hasFullTag_textWithTag_iff _ _ (by decide)]
  decide

end ResolveToken

end FeatureFlags
