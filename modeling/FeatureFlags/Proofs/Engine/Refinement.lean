import FeatureFlags.Proofs.Engine.Local
import FeatureFlags.Proofs.Snapshot.Walks

/-!
# A rotator over local engines is a local engine

A local engine loads a snapshot in place, a rotator loads it into a fresh engine and retires the
one before. What a rotator shows is what one local engine would show that has the current
snapshot and everything in its log that is kept or still with the current engine
(`Rotator.merged`): every command commutes with this view (`Rotator.perform_merged`), and so does
every run (`Rotator.run_merged`).

What is drawn at random comes in with the commands. Two engines that are given the same commands
draw the same, and if they do not draw the same order of segments, they may report different
segments of a configuration that is refused (`EngineReply.Alike`). All other replies are the same
(`EngineReply.Alike.eq_of_not_load`), and it leaves no trace in the engine
(`LocalEngine.perform_alike`).

`Rotator.refines_local`: a rotator starts exactly if a local engine loads the first snapshot, and
gives the same replies as that engine from then on.
-/

namespace FeatureFlags

/-! ## What is drawn -/

/-- Two commands that differ at most in the order in which segments are looked at. -/
inductive EngineCommand.Alike : EngineCommand → EngineCommand → Prop where
  | load {delivery delivery' : Delivery} (htext : delivery'.text = delivery.text) :
    Alike (.load delivery) (.load delivery')
  | same {command : EngineCommand} : Alike command command

/-- Replies to such commands: the same, but that of a configuration with segments that are not in
order any of these may be reported. -/
inductive EngineReply.Alike : EngineCommand → EngineReply → EngineReply → Prop where
  | same {command : EngineCommand} {reply : EngineReply} : Alike command reply reply
  | refused {delivery : Delivery} {input : SnapshotInput} {cause cause' : SnapshotError}
    (hread : SnapshotInput.ofText? delivery.text = some input) (h : input.RefusesSegment cause)
    (h' : input.RefusesSegment cause') (hdifferent : cause'.segment? ≠ cause.segment?) :
    Alike (.load delivery) (.loaded (.error (.snapshot cause)))
      (.loaded (.error (.snapshot cause')))

/-- Only replies to deliveries may differ. -/
theorem EngineReply.Alike.eq_of_not_load {command : EngineCommand} {reply reply' : EngineReply}
    (h : Alike command reply reply') (hload : ∀ delivery, command ≠ .load delivery) :
    reply' = reply := by
  cases h with
  | same => rfl
  | refused => exact absurd rfl (hload _)

/-- Two deliveries of one text give the same, or both are refused for a segment. -/
theorem Snapshot.ofDelivery_alike {delivery delivery' : Delivery}
    (htext : delivery'.text = delivery.text) :
    ofDelivery delivery' = ofDelivery delivery ∨ ∃ input cause cause',
      SnapshotInput.ofText? delivery.text = some input ∧
      ofDelivery delivery = .error cause ∧ ofDelivery delivery' = .error cause' ∧
      input.RefusesSegment cause ∧ input.RefusesSegment cause' := by
  unfold ofDelivery
  rw [htext]
  cases SnapshotInput.ofText? delivery.text with
  | none => exact .inl rfl
  | some input =>
    rcases buildIn_alike input delivery.walk delivery'.walk with hsame | ⟨cause, cause', h⟩
    · exact .inl hsame.symm
    · exact .inr ⟨input, cause, cause', rfl, h⟩

namespace LocalEngine

theorem load_alike {delivery delivery' : Delivery} (htext : delivery'.text = delivery.text)
    (e : LocalEngine) :
    EngineReply.Alike (.load delivery) (.loaded (load delivery e).1)
      (.loaded (load delivery' e).1) ∧ (load delivery' e).2 = (load delivery e).2 := by
  rcases Snapshot.ofDelivery_alike htext with hsame | ⟨input, cause, cause', hread, h, h', hrefuses,
    hrefuses'⟩
  · rw [load, load, hsame]
    exact ⟨.same, rfl⟩
  · rw [load_eq_error h, load_eq_error h']
    refine ⟨?_, rfl⟩
    by_cases hsegment : cause'.segment? = cause.segment?
    · rw [hrefuses.eq_of_segment?_eq hrefuses' hsegment]
      exact .same
    · exact .refused hread hrefuses hrefuses' hsegment

/-- **The order of segments shows in nothing but the segment that is reported**. -/
theorem perform_alike {command command' : EngineCommand} (h : command.Alike command')
    (e : LocalEngine) :
    EngineReply.Alike command (engine.perform command e).1 (engine.perform command' e).1 ∧
      (engine.perform command' e).2 = (engine.perform command e).2 := by
  cases h with
  | load htext => exact load_alike htext e
  | same => exact ⟨.same, rfl⟩

end LocalEngine

/-! ## The view of a rotator as a local engine -/

namespace Rotator

/-- The local engine as which a rotator appears: it has the snapshot of the current engine, and
what the rotator kept comes first in its log. -/
def merged (r : Rotator LocalEngine) : LocalEngine :=
  { r.current with log := r.retired ++ r.current.log }

variable {r : Rotator LocalEngine} {fresh : LocalEngine}

theorem merged_record (r : Rotator LocalEngine) (done : Log) :
    r.merged.record done = merged { r with current := r.current.record done } := by
  show { r.current with log := r.retired ++ r.current.log ++ done } =
    { r.current with log := r.retired ++ (r.current.log ++ done) }
  rw [Log.append_assoc]

/-! ## Commands -/

theorem load_merged (hlog : fresh.log = ∅) (hconfig : r.current.config = fresh.config)
    (delivery : Delivery) :
    LocalEngine.load delivery r.merged =
      Prod.map id merged (load LocalEngine.engine fresh delivery r) := by
  rw [load, rotate, LocalEngine.engine_load]
  cases h : Snapshot.ofDelivery delivery with
  | error cause =>
    rw [LocalEngine.load_eq_error h, LocalEngine.load_eq_error h]
    rfl
  | ok s =>
    rw [LocalEngine.load_eq_ok h, LocalEngine.load_eq_ok h]
    show (Except.ok (), { r.merged with snapshot := some s }) = (Except.ok (),
      { fresh with snapshot := some s, log := r.retired ++ r.current.log ++ fresh.log })
    rw [hlog, Log.append_empty, ← hconfig]
    rfl

theorem resolve_merged (request : ResolveRequest) (occasion : Occasion)
    (r : Rotator LocalEngine) :
    LocalEngine.resolve request occasion r.merged =
      Prod.map id merged (resolve LocalEngine.engine request occasion r) := by
  rw [resolve, LocalEngine.engine_resolve, LocalEngine.resolve_eq, LocalEngine.resolve_eq,
    merged_record]
  rfl

theorem apply_merged (request : ApplyRequest) (r : Rotator LocalEngine) :
    LocalEngine.apply request r.merged =
      Prod.map id merged (apply LocalEngine.engine request r) := by
  rw [apply, LocalEngine.engine_apply, LocalEngine.apply_eq, LocalEngine.apply_eq, merged_record]
  rfl

/-- **Every command commutes with the view of a rotator as a local engine**. -/
theorem perform_merged (hlog : fresh.log = ∅) (hconfig : r.current.config = fresh.config)
    (command : EngineCommand) :
    LocalEngine.engine.perform command r.merged =
      Prod.map id merged ((toEngine LocalEngine.engine fresh).perform command r) := by
  cases command with
  | load delivery =>
    exact congrArg (Prod.map EngineReply.loaded id) (load_merged hlog hconfig delivery)
  | resolve request occasion =>
    exact congrArg (Prod.map EngineReply.resolved id) (resolve_merged request occasion r)
  | apply request => exact congrArg (Prod.map EngineReply.applied id) (apply_merged request r)
  | flush => rfl

/-- The engine that answers keeps the configuration of the fresh ones. -/
theorem config_perform (hlog : fresh.log = ∅) (hconfig : r.current.config = fresh.config)
    (command : EngineCommand) :
    ((toEngine LocalEngine.engine fresh).perform command r).2.current.config = fresh.config := by
  have hmerged := LocalEngine.config_perform command r.merged
  rw [perform_merged hlog hconfig command] at hmerged
  exact hmerged.trans hconfig

/-! ## Runs -/

theorem run_merged (hlog : fresh.log = ∅) (commands : List EngineCommand)
    (hconfig : r.current.config = fresh.config) :
    LocalEngine.engine.run commands r.merged =
      Prod.map id merged ((toEngine LocalEngine.engine fresh).run commands r) := by
  induction commands generalizing r with
  | nil => rfl
  | cons command rest ih =>
    rw [Engine.run, Engine.run, perform_merged hlog hconfig command]
    exact congrArg (Prod.map _ id) (ih (config_perform hlog hconfig command))

/-- Where the orders of segments differ, the replies are alike. -/
theorem turns_merged (hlog : fresh.log = ∅) {commands commands' : List EngineCommand}
    (halike : List.Forall₂ EngineCommand.Alike commands commands')
    (hconfig : r.current.config = fresh.config) :
    List.Forall₂ (fun t t' => EngineReply.Alike t.command
        (t.reply (toEngine LocalEngine.engine fresh)) (t'.reply LocalEngine.engine))
      ((toEngine LocalEngine.engine fresh).turns commands r)
      (LocalEngine.engine.turns commands' r.merged) := by
  induction halike generalizing r with
  | nil => exact .nil
  | @cons command command' rest rest' hcommand _ ih =>
    obtain ⟨hreply, hstate⟩ := LocalEngine.perform_alike hcommand r.merged
    rw [perform_merged hlog hconfig command] at hreply hstate
    refine .cons hreply ?_
    rw [hstate]
    exact ih (config_perform hlog hconfig command)

/-- A rotator starts if the first snapshot is accepted. -/
theorem start_eq_ok_iff {delivery : Delivery} :
    start LocalEngine.engine fresh delivery = .ok r ↔ ∃ s, Snapshot.ofDelivery delivery = .ok s ∧
      r = { current := { fresh with snapshot := some s }, generation := 0, retired := ∅ } := by
  rw [start, LocalEngine.engine_load, LocalEngine.load]
  cases Snapshot.ofDelivery delivery with
  | error cause => simp
  | ok s => simp [eq_comm]

/-- What is said to the first snapshot is what a local engine says to it. -/
theorem start_eq_load (delivery : Delivery) :
    (start LocalEngine.engine fresh delivery).map (fun _ => ()) =
      (LocalEngine.load delivery fresh).1 := by
  rw [start, LocalEngine.engine_load, LocalEngine.load]
  cases Snapshot.ofDelivery delivery <;> rfl

theorem start_eq_error_iff {delivery : Delivery} {cause : EngineError} :
    start LocalEngine.engine fresh delivery = .error cause ↔
      (LocalEngine.load delivery fresh).1 = .error cause := by
  rw [← start_eq_load]
  cases start LocalEngine.engine fresh delivery <;> simp [Except.map]

theorem load_eq_merged_of_start {delivery : Delivery}
    (h : start LocalEngine.engine fresh delivery = .ok r) :
    (LocalEngine.load delivery fresh).2 = r.merged ∧ r.current.config = fresh.config := by
  obtain ⟨s, hs, rfl⟩ := start_eq_ok_iff.mp h
  rw [LocalEngine.load_eq_ok hs, merged, Log.empty_append]
  exact ⟨rfl, rfl⟩

/-- **A rotator over local engines refines a local engine**. It starts exactly if the local engine
loads the first snapshot, and fails for the same reason; then both give the same replies to the same
commands. If they do not draw the same orders of segments, errors about the segments of a
configuration may name different ones; all other replies are the same all the same. -/
theorem refines_local {fresh : LocalEngine} (hlog : fresh.log = ∅) (first : Delivery) :
    (∀ cause, start LocalEngine.engine fresh first = .error cause ↔
        (LocalEngine.load first fresh).1 = .error cause) ∧
      (∀ r, start LocalEngine.engine fresh first = .ok r → ∀ commands,
        ((toEngine LocalEngine.engine fresh).run commands r).1 =
          (LocalEngine.engine.run commands (LocalEngine.load first fresh).2).1) ∧
      ∀ first', first'.text = first.text →
        EngineReply.Alike (.load first)
          (.loaded ((start LocalEngine.engine fresh first).map fun _ => ()))
          (.loaded (LocalEngine.load first' fresh).1) ∧
        ∀ r, start LocalEngine.engine fresh first = .ok r → ∀ commands commands',
          List.Forall₂ EngineCommand.Alike commands commands' →
            List.Forall₂ (fun t t' => EngineReply.Alike t.command
                (t.reply (toEngine LocalEngine.engine fresh)) (t'.reply LocalEngine.engine))
              ((toEngine LocalEngine.engine fresh).turns commands r)
              (LocalEngine.engine.turns commands' (LocalEngine.load first' fresh).2) := by
  refine ⟨fun cause => start_eq_error_iff, ?_, ?_⟩
  · intro r hstart commands
    obtain ⟨hloaded, hconfig⟩ := load_eq_merged_of_start hstart
    rw [hloaded, run_merged hlog commands hconfig]
    rfl
  · intro first' htext
    obtain ⟨hreply, hstate⟩ := LocalEngine.load_alike htext fresh
    refine ⟨by rwa [start_eq_load], ?_⟩
    intro r hstart commands commands' halike
    obtain ⟨hloaded, hconfig⟩ := load_eq_merged_of_start hstart
    rw [hstate, hloaded]
    exact turns_merged hlog halike hconfig

end Rotator

namespace Rollout

/-- A rotator that has just started with the configuration. -/
def kept : Rotator LocalEngine :=
  { current := .ofSnapshot .default (besideSnapshot []), generation := 0, retired := ∅ }

theorem start_keptText : Rotator.start LocalEngine.engine (.start .default) keptText = .ok kept :=
  Rotator.start_eq_ok_iff.mpr ⟨besideSnapshot [], ofDelivery_keptText, rfl⟩

/-- A segment with a name that has no criterion. -/
def unfinished (name : String) : Segment :=
  { name, targeting := { expression := .ref "friends", criteria := .empty } }

/-- A configuration with two segments that are not in order. -/
def spoilt : SnapshotInput :=
  { account := "shop", segments := [unfinished "early", unfinished "late"] }

def spoiltText : String := spoilt.toJson.toText

theorem ofText?_spoiltText : SnapshotInput.ofText? spoiltText = some spoilt := by
  have hread : Json.ofText? spoiltText = some spoilt.toJson :=
    Json.ofText?_toText rfl (by decide)
  have hdecode : SnapshotInput.ofJson? .text spoilt.toJson = some spoilt := rfl
  rw [SnapshotInput.ofText?, hread, Option.bind_some, hdecode]

/-- Two visits, between which a configuration is refused and the present one delivered again. -/
def visits (refused : Delivery) : List EngineCommand :=
  [visitAs "morning", .load refused, .load keptText, visitAs "evening", .flush]

/-- What is replied to the visits. -/
def visitReplies (cause : SnapshotError) : List EngineReply :=
  [.resolved ((besideSnapshot []).answer .default (asking ["banner"]) (visitedAt "morning")),
    .loaded (.error (.snapshot cause)), .loaded (.ok ()),
    .resolved ((besideSnapshot []).answer .default (asking ["banner"]) (visitedAt "evening")),
    .flushed (.ok (∅ ++ visitLog "morning" ++ visitLog "evening"))]

theorem run_visits {refused : Delivery} {cause : SnapshotError}
    (h : Snapshot.ofDelivery refused = .error cause) :
    (LocalEngine.engine.run (visits refused) (LocalEngine.load keptText (.start .default)).2).1 =
      visitReplies cause := by
  rw [LocalEngine.load_eq_ok ofDelivery_keptText]
  show (LocalEngine.engine.run (visits refused)
    { config := .default, snapshot := some (besideSnapshot []), log := ∅ }).1 = _
  simp only [visits, visitAs, Engine.run, Engine.perform, LocalEngine.engine,
    LocalEngine.resolve_eq, LocalEngine.load_eq_ok ofDelivery_keptText,
    LocalEngine.load_eq_error h, Prod.map_fst, Prod.map_snd, id, LocalEngine.record]
  rfl

/-- A rotator and a local engine hand over the same log, with both visits, although they report
different segments of the configuration that is refused. -/
theorem visits_refined :
    let early : SnapshotError := .unknownReference "early" "friends"
    let late : SnapshotError := .unknownReference "late" "friends"
    Rotator.start LocalEngine.engine (.start .default) keptText = .ok kept ∧
    ((Rotator.toEngine LocalEngine.engine (.start .default)).run (visits spoiltText) kept).1 =
      visitReplies early ∧
    (LocalEngine.engine.run (visits ⟨spoiltText, .first "late"⟩)
      (LocalEngine.load keptText (.start .default)).2).1 = visitReplies late ∧
    List.Forall₂ (fun t t' => EngineReply.Alike t.command
        (t.reply (Rotator.toEngine LocalEngine.engine (.start .default)))
        (t'.reply LocalEngine.engine))
      ((Rotator.toEngine LocalEngine.engine (.start .default)).turns (visits spoiltText) kept)
      (LocalEngine.engine.turns (visits ⟨spoiltText, .first "late"⟩)
        (LocalEngine.load keptText (.start .default)).2) ∧
    (∅ ++ visitLog "morning" ++ visitLog "evening").resolves.map (·.resolveId) =
      ["morning", "evening"] := by
  have hlog : (LocalEngine.start .default).log = ∅ := rfl
  obtain ⟨-, hsame, hwalks⟩ := Rotator.refines_local hlog keptText
  obtain ⟨-, -, -, hmorning⟩ := exists_visit "morning"
  obtain ⟨-, -, -, hevening⟩ := exists_visit "evening"
  have hearly : Snapshot.ofDelivery spoiltText = .error (.unknownReference "early" "friends") :=
    (Snapshot.ofDelivery_of_ofText? ofText?_spoiltText).trans rfl
  have hlate : Snapshot.ofDelivery ⟨spoiltText, .first "late"⟩ =
      .error (.unknownReference "late" "friends") :=
    (Snapshot.ofDelivery_of_ofText? ofText?_spoiltText).trans rfl
  refine ⟨start_keptText, ?_, run_visits hlate, ?_, ?_⟩
  · rw [hsame kept start_keptText, run_visits hearly]
  · exact (hwalks keptText rfl).2 kept start_keptText _ _
      (.cons .same (.cons (.load rfl) (.cons .same (.cons .same (.cons .same .nil)))))
  · rw [Log.empty_append, Log.resolves_append, List.map_append, hmorning, hevening]
    rfl

end Rollout

end FeatureFlags
