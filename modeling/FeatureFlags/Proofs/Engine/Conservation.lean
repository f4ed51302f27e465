import FeatureFlags.Proofs.Engine.Losses
import FeatureFlags.Proofs.Engine.Notes
import FeatureFlags.Proofs.Engine.Refinement

/-!
# Local engines across rotations

A local engine never refuses to hand over its log, so a rotator over local engines loses nothing:
what it hands over by rotations and flushes, with what a last flush would hand over, is what was
noted of all commands (`Snapshot.notedAll`), each entry and each exposure once. Every command is
noted and answered by the snapshot that was accepted last (`Snapshot.latest`), and what is noted of
it is told by its reply (`Snapshot.NotesAll`). The books balance by `Rotator.run_balance`; what is
left is to see which snapshot is in force when.

`Rotator.local_rotations_conserve` puts the parts together.
-/

namespace FeatureFlags

namespace RotatorCommand

/-- The snapshot that takes over with the command, if it brings one that is accepted. -/
def snapshot? (command : RotatorCommand) : Option Snapshot :=
  command.delivery?.bind fun delivery => (Snapshot.ofDelivery delivery).toOption

/-- What is noted of the command while the snapshot is in force. -/
def noted (s : Snapshot) (config : Config) : RotatorCommand → Log
  | rotate _ => ∅
  | asEngine command => s.noted config command

/-- What is noted of a command while the snapshot is in force, told by its reply: nothing of a
rotation, and of any other command what a local engine with the snapshot notes. -/
inductive Notes (config : Config) (s : Snapshot) : RotatorCommand → RotatorReply → Log → Prop where
  | rotated {delivery : Delivery} {answer : Except EngineError Log} :
    Notes config s (rotate delivery) (.rotated answer) ∅
  | asEngine {command : EngineCommand} {reply : EngineReply} {done : Log}
    (hnotes : (LocalEngine.ofSnapshot config s).Notes command reply done) :
    Notes config s (asEngine command) (.asEngine reply) done

/-- What is noted of resolves is what was responded. -/
theorem Notes.told {config : Config} {s : Snapshot} {command : RotatorCommand}
    {reply : RotatorReply} {done : Log} (h : Notes config s command reply done) :
    done.resolves.map (·.told) = reply.response?.toList.map (·.told) := by
  cases h with
  | rotated => rfl
  | asEngine hnotes => exact hnotes.told

end RotatorCommand

namespace Snapshot

/-- The snapshot in force after the commands: the one that was accepted last. -/
def latest (s : Snapshot) (commands : List RotatorCommand) : Snapshot :=
  commands.foldl (fun s command => command.snapshot?.getD s) s

/-- What is noted of the commands, of each by the snapshot in force. -/
def notedAll (s : Snapshot) (config : Config) : List RotatorCommand → List Log
  | [] => []
  | command :: rest => command.noted s config :: notedAll (command.snapshot?.getD s) config rest

/-- What is noted of the commands of a run, of each while the snapshot accepted last is in force,
told by the replies. -/
inductive NotesAll (config : Config) :
    Snapshot → List RotatorCommand → List RotatorReply → List Log → Prop where
  | nil {s : Snapshot} : NotesAll config s [] [] []
  | cons {s : Snapshot} {command : RotatorCommand} {reply : RotatorReply} {first : Log}
    {rest : List RotatorCommand} {replies : List RotatorReply} {done : List Log}
    (hfirst : command.Notes config s reply first)
    (hrest : NotesAll config (command.snapshot?.getD s) rest replies done) :
    NotesAll config s (command :: rest) (reply :: replies) (first :: done)

theorem NotesAll.told {config : Config} {s : Snapshot} {commands : List RotatorCommand}
    {replies : List RotatorReply} {done : List Log} (h : NotesAll config s commands replies done) :
    (Log.all done).resolves.map (·.told) = (replies.filterMap (·.response?)).map (·.told) := by
  induction h with
  | nil => rfl
  | @cons _ _ reply _ _ _ _ hfirst _ ih =>
    rw [Log.all_cons, Log.resolves_append, List.map_append, hfirst.told, ih, List.filterMap_cons]
    cases reply.response? <;> rfl

end Snapshot

namespace Rotator

/-- The rotator answers from the snapshot. -/
structure Serves (r : Rotator LocalEngine) (config : Config) (s : Snapshot) : Prop where
  config : r.current.config = config
  snapshot : r.current.snapshot = some s

section Commands

variable {config : Config} {s : Snapshot} {r : Rotator LocalEngine} {delivery : Delivery}

theorem Serves.answer_eq (h : Serves r config s) (request : ResolveRequest) (occasion : Occasion) :
    r.current.answer request occasion = s.answer config request occasion := by
  rw [LocalEngine.answer, h.snapshot, h.config]

theorem Serves.verdict_eq (h : Serves r config s) (request : ApplyRequest) :
    r.current.verdict request = s.verdict config request := by
  rw [LocalEngine.verdict, h.snapshot, h.config]

theorem Serves.noted_eq (h : Serves r config s) (command : EngineCommand) :
    r.current.noted command = s.noted config command := by
  rw [LocalEngine.noted, h.snapshot, h.config]

theorem perform_resolve (request : ResolveRequest) (occasion : Occasion)
    (r : Rotator LocalEngine) :
    perform LocalEngine.engine (.start config) (.asEngine (.resolve request occasion)) r =
      (.asEngine (.resolved (r.current.answer request occasion)),
        { r with current := r.current.record (r.current.noted (.resolve request occasion)) }) :=
  congrArg (fun result => (RotatorReply.asEngine (.resolved result.1),
    { r with current := result.2 })) (LocalEngine.resolve_eq request occasion r.current)

theorem perform_apply (request : ApplyRequest) (r : Rotator LocalEngine) :
    perform LocalEngine.engine (.start config) (.asEngine (.apply request)) r =
      (.asEngine (.applied (r.current.verdict request)),
        { r with current := r.current.record (r.current.noted (.apply request)) }) :=
  congrArg (fun result => (RotatorReply.asEngine (.applied result.1),
    { r with current := result.2 })) (LocalEngine.apply_eq request r.current)

theorem rotate_accepted {next : Snapshot} (h : Snapshot.ofDelivery delivery = .ok next)
    (r : Rotator LocalEngine) :
    rotate LocalEngine.engine (.start config) delivery r = (.ok r.current.log,
      { r with current := .ofSnapshot config next, generation := r.generation + 1 }) := by
  rw [rotate, LocalEngine.engine_load, LocalEngine.load_eq_ok h]
  rfl

theorem rotate_refused {cause : SnapshotError} (h : Snapshot.ofDelivery delivery = .error cause)
    (r : Rotator LocalEngine) :
    rotate LocalEngine.engine (.start config) delivery r = (.error (.snapshot cause), r) := by
  rw [rotate, LocalEngine.engine_load, LocalEngine.load_eq_error h]

theorem load_accepted {next : Snapshot} (h : Snapshot.ofDelivery delivery = .ok next)
    (r : Rotator LocalEngine) :
    load LocalEngine.engine (.start config) delivery r = (.ok (),
      { current := .ofSnapshot config next, generation := r.generation + 1,
        retired := r.retired ++ r.current.log }) := by
  rw [load, rotate_accepted h]

theorem load_refused {cause : SnapshotError} (h : Snapshot.ofDelivery delivery = .error cause)
    (r : Rotator LocalEngine) :
    load LocalEngine.engine (.start config) delivery r = (.error (.snapshot cause), r) := by
  rw [load, rotate_refused h]

theorem perform_load (delivery : Delivery) (r : Rotator LocalEngine) :
    perform LocalEngine.engine (.start config) (.asEngine (.load delivery)) r =
      Prod.map (.asEngine ∘ .loaded) id (load LocalEngine.engine (.start config) delivery r) := by
  rfl

/-- What a command does to the snapshot in force, and what its reply tells. -/
structure Follows (config : Config) (s : Snapshot) (r : Rotator LocalEngine)
    (command : RotatorCommand) (reply : RotatorReply) (after : Rotator LocalEngine) : Prop where
  serves : Serves after config (command.snapshot?.getD s)
  swap : reply.tellsSwap = command.snapshot?.isSome
  generation : after.generation = r.generation + reply.tellsSwap.toNat
  noted : command.Notes config s reply (command.noted s config)

theorem Serves.follows (h : Serves r config s) (command : RotatorCommand) :
    Follows config s r command (perform LocalEngine.engine (.start config) command r).1
      (perform LocalEngine.engine (.start config) command r).2 := by
  -- a snapshot that is accepted takes over with a fresh engine, other commands keep the engine
  cases command with
  | rotate delivery =>
    rw [perform]
    cases hs : Snapshot.ofDelivery delivery with
    | error cause =>
      have hnone : (RotatorCommand.rotate delivery).snapshot? = none := congrArg Except.toOption hs
      rw [rotate_refused hs]
      exact { serves := hnone ▸ h, swap := hnone ▸ rfl, generation := rfl, noted := .rotated }
    | ok next =>
      have hsome : (RotatorCommand.rotate delivery).snapshot? = some next :=
        congrArg Except.toOption hs
      rw [rotate_accepted hs]
      exact
        { serves := hsome ▸ ⟨rfl, rfl⟩, swap := hsome ▸ rfl, generation := rfl, noted := .rotated }
  | asEngine command =>
    cases command with
    | load delivery =>
      rw [perform_load]
      cases hs : Snapshot.ofDelivery delivery with
      | error cause =>
        have hnone : (RotatorCommand.asEngine (.load delivery)).snapshot? = none :=
          congrArg Except.toOption hs
        rw [load_refused hs]
        exact
          { serves := hnone ▸ h, swap := hnone ▸ rfl, generation := rfl
            noted := .asEngine (.nothing rfl) }
      | ok next =>
        have hsome : (RotatorCommand.asEngine (.load delivery)).snapshot? = some next :=
          congrArg Except.toOption hs
        rw [load_accepted hs]
        exact
          { serves := hsome ▸ ⟨rfl, rfl⟩, swap := hsome ▸ rfl, generation := rfl
            noted := .asEngine (.nothing rfl) }
    | resolve request occasion =>
      rw [perform_resolve, h.answer_eq, h.noted_eq]
      exact
        { serves := ⟨h.config, h.snapshot⟩
          swap := rfl
          generation := rfl
          noted := .asEngine (LocalEngine.notes_resolve (.ofSnapshot config s) request occasion) }
    | apply request =>
      rw [perform_apply, h.verdict_eq, h.noted_eq]
      exact
        { serves := ⟨h.config, h.snapshot⟩
          swap := rfl
          generation := rfl
          noted := .asEngine (LocalEngine.notes_apply (.ofSnapshot config s) request) }
    | flush =>
      exact
        { serves := ⟨h.config, h.snapshot⟩, swap := rfl, generation := rfl
          noted := .asEngine (.nothing rfl) }

theorem Turn.noted_journal {t : Turn LocalEngine} (h : Serves t.before config s) :
    t.noted LocalEngine.journal = t.command.noted s config := by
  obtain ⟨fresh, command, r⟩ := t
  cases command with
  | rotate delivery => rfl
  | asEngine command =>
    cases command with
    | load delivery => rfl
    | resolve request occasion => exact h.noted_eq (.resolve request occasion)
    | apply request => exact h.noted_eq (.apply request)
    | flush => rfl

/-- A local engine never refuses to hand over its log. -/
theorem Turn.lost_journal (t : Turn LocalEngine) : t.lost LocalEngine.journal = ∅ := by
  have hrefuses : t.refusesFlush LocalEngine.engine = false := rfl
  rw [lost, hrefuses, Bool.and_false]
  split <;> rfl

end Commands

/-! ## Runs -/

section Runs

variable {config : Config} {s : Snapshot} {r : Rotator LocalEngine}

/-- The snapshot that was accepted last is in force, by induction with the one at the start. -/
theorem Serves.run (h : Serves r config s) (commands : List RotatorCommand) :
    Serves (run LocalEngine.engine (fun _ => .start config) commands r) config
      (s.latest commands) := by
  induction commands generalizing r s with
  | nil => exact h
  | cons command rest ih => exact ih (h.follows command).serves

theorem Serves.generation_run (h : Serves r config s) (commands : List RotatorCommand) :
    (Rotator.run LocalEngine.engine (fun _ => .start config) commands r).generation =
      r.generation + (replies LocalEngine.engine (fun _ => .start config) commands r).countP
        (·.tellsSwap) := by
  induction commands generalizing r s with
  | nil => rfl
  | cons command rest ih =>
    have hfollows := h.follows command
    rw [Rotator.run, ih hfollows.serves, hfollows.generation, replies_cons, List.countP_cons]
    cases (perform LocalEngine.engine (.start config) command r).1.tellsSwap with
    | true =>
      rw [Bool.toNat_true, if_pos rfl]
      omega
    | false => rfl

theorem Serves.noted_turns (h : Serves r config s) (commands : List RotatorCommand) :
    Log.all ((turns LocalEngine.engine (fun _ => .start config) commands r).map
      (·.noted LocalEngine.journal)) = Log.all (s.notedAll config commands) := by
  induction commands generalizing r s with
  | nil => rfl
  | cons command rest ih =>
    rw [turns, List.map_cons, Log.all_cons, Turn.noted_journal h, Snapshot.notedAll, Log.all_cons]
    exact congrArg _ (ih (h.follows command).serves)

theorem lost_turns (commands : List RotatorCommand) (r : Rotator LocalEngine) :
    Log.all ((turns LocalEngine.engine (fun _ => .start config) commands r).map
      (·.lost LocalEngine.journal)) = ∅ := by
  induction commands generalizing r with
  | nil => rfl
  | cons command rest ih =>
    rw [turns, List.map_cons, Log.all_cons, Turn.lost_journal, Log.empty_append]
    exact ih _

/-- What is noted of the commands is told by the replies, each by the snapshot in force. -/
theorem Serves.notesAll (h : Serves r config s) (commands : List RotatorCommand) :
    s.NotesAll config commands (replies LocalEngine.engine (fun _ => .start config) commands r)
      (s.notedAll config commands) := by
  induction commands generalizing r s with
  | nil => exact .nil
  | cons command rest ih =>
    have hfollows := h.follows command
    exact .cons hfollows.noted (ih hfollows.serves)

/-- What is known of a rotator over local engines that started with the snapshot, when it has given
the replies to the commands. -/
structure Conserves (config : Config) (s : Snapshot) (commands : List RotatorCommand)
    (replies : List RotatorReply) (after : Rotator LocalEngine) : Prop where
  /-- What is noted of a command is told by its reply: the response with its exposures if the flags
  are used at once, the exposures of a report that is accepted, and nothing else. -/
  noted : s.NotesAll config commands replies (s.notedAll config commands)
  /-- What was handed over, with what a last flush hands over, is what was noted, each entry once;
  and the resolved requests are the ones that were answered. -/
  conserved : ∃ last, (flush LocalEngine.engine after).1 = .ok last ∧
    (Log.all (replies.map (·.handedOver)) ++ last).Perm (Log.all (s.notedAll config commands)) ∧
    ((Log.all (replies.map (·.handedOver)) ++ last).resolves.map (·.told)).Perm
      ((replies.filterMap (·.response?)).map (·.told))
  generation : after.generation = replies.countP (·.tellsSwap)
  /-- The next request is answered from the snapshot that was accepted last. -/
  answered : ∀ request occasion,
    (perform LocalEngine.engine (.start config) (.asEngine (.resolve request occasion)) after).1 =
      .asEngine (.resolved ((s.latest commands).answer config request occasion))
  /-- A snapshot takes over if it is accepted. -/
  accepted : ∀ command, (perform LocalEngine.engine (.start config) command after).1.tellsSwap =
    command.snapshot?.isSome
  /-- A snapshot that is refused changes nothing. -/
  refused : ∀ delivery cause, Snapshot.ofDelivery delivery = .error cause →
    perform LocalEngine.engine (.start config) (.rotate delivery) after =
      (.rotated (.error (.snapshot cause)), after) ∧
    perform LocalEngine.engine (.start config) (.asEngine (.load delivery)) after =
      (.asEngine (.loaded (.error (.snapshot cause))), after)

/-- What is handed over in the end is what was noted, because nothing was pending at the start. -/
theorem Serves.conserved (h : Serves r config s) (hpending : pending LocalEngine.journal r = ∅)
    (commands : List RotatorCommand) :
    (Log.all ((replies LocalEngine.engine (fun _ => .start config) commands r).map
      (·.handedOver)) ++ pending LocalEngine.journal
        (Rotator.run LocalEngine.engine (fun _ => .start config) commands r)).Perm
      (Log.all (s.notedAll config commands)) := by
  have hfresh (n : Nat) : LocalEngine.journal.pending ((fun _ => LocalEngine.start config) n) = ∅ :=
    rfl
  have hbalance := run_balance hfresh commands r
  rw [hpending, lost_turns, h.noted_turns, Log.append_empty, Log.empty_append] at hbalance
  rw [replies, List.map_map]
  exact hbalance

/-- **Local engines lose nothing across rotations**. -/
theorem local_rotations_conserve {delivery : Delivery}
    (hstart : start LocalEngine.engine (.start config) delivery = .ok r)
    (commands : List RotatorCommand) :
    ∃ s, Snapshot.ofDelivery delivery = .ok s ∧ Conserves config s commands
      (replies LocalEngine.engine (fun _ => .start config) commands r)
      (Rotator.run LocalEngine.engine (fun _ => .start config) commands r) := by
  obtain ⟨s, hs, hr⟩ := start_eq_ok_iff.mp hstart
  have hserves : Serves r config s := hr ▸ ⟨rfl, rfl⟩
  have hgeneration : r.generation = 0 := hr ▸ rfl
  have hpending : pending LocalEngine.journal r = ∅ := hr ▸ rfl
  have hconserved := hserves.conserved hpending commands
  have hafter := hserves.run commands
  refine ⟨s, hs, ?_⟩
  exact
    { noted := hserves.notesAll commands
      conserved := by
        refine ⟨_, rfl, hconserved, ?_⟩
        rw [← (hserves.notesAll commands).told]
        exact hconserved.resolves.map _
      generation := by
        rw [hserves.generation_run, hgeneration, Nat.zero_add]
      answered := fun request occasion => by rw [perform_resolve, hafter.answer_eq]
      accepted := fun command => (hafter.follows command).swap
      refused := fun delivery cause h => by
        rw [perform, rotate_refused h, perform_load, load_refused h]
        exact ⟨rfl, rfl⟩ }

end Runs

end Rotator

namespace Rollout

theorem assignments_visitLog (resolveId : String) : (visitLog resolveId).assignments = [] := rfl

/-- The visitor asks for the banner and sees it at once. -/
def showingAs (resolveId : String) : EngineCommand :=
  .resolve { asking ["banner"] with apply := true } (visitedAt resolveId)

/-- What is noted when the visitor sees the banner at once. -/
def showingLog (resolveId : String) : Log :=
  (besideSnapshot []).noted .default (showingAs resolveId)

theorem resolves_showingLog (resolveId : String) :
    (showingLog resolveId).resolves.map (·.resolveId) = [resolveId] := rfl

theorem assignments_showingLog (resolveId : String) :
    (showingLog resolveId).assignments.map (fun event =>
      (event.resolveId, event.client, event.assignment.flag)) =
        [(resolveId, "web", "banner")] := rfl

/-- Three visits, between which the configuration is delivered again and kept, then spoilt, then
delivered with a rotation. At noon the banner is seen at once. -/
def deliveries (delivery : Delivery) : List RotatorCommand :=
  [.asEngine (visitAs "morning"), .asEngine (.load delivery), .asEngine (showingAs "noon"),
    .rotate "", .rotate delivery, .asEngine (visitAs "evening")]

theorem notedAll_deliveries {delivery : Delivery}
    (hs : Snapshot.ofDelivery delivery = .ok (besideSnapshot [])) :
    Log.all ((besideSnapshot []).notedAll .default (deliveries delivery)) =
      visitLog "morning" ++ (showingLog "noon" ++ visitLog "evening") := by
  have hload : (RotatorCommand.asEngine (.load delivery)).snapshot? = some (besideSnapshot []) :=
    congrArg Except.toOption hs
  have hrotate : (RotatorCommand.rotate delivery).snapshot? = some (besideSnapshot []) :=
    congrArg Except.toOption hs
  rw [deliveries, Snapshot.notedAll, Snapshot.notedAll, hload, Snapshot.notedAll,
    Snapshot.notedAll, Snapshot.notedAll, hrotate]
  show visitLog "morning" ++ (∅ ++ (showingLog "noon" ++ (∅ ++ (∅ ++ (visitLog "evening" ++ ∅))))) =
    _
  simp only [Log.empty_append, Log.append_empty]

/-- The visits are handed over once each, in whatever order, and the banner that was seen at noon is
noted as seen. -/
theorem deliveries_conserved : ∃ last,
    Rotator.start LocalEngine.engine (.start .default) keptText = .ok kept ∧
    (Rotator.flush LocalEngine.engine (Rotator.run LocalEngine.engine (fun _ => .start .default)
      (deliveries keptText) kept)).1 = .ok last ∧
    ((Log.all ((Rotator.replies LocalEngine.engine (fun _ => .start .default)
      (deliveries keptText) kept).map (·.handedOver)) ++ last).resolves.map (·.resolveId)).Perm
      ["morning", "noon", "evening"] ∧
    ((Log.all ((Rotator.replies LocalEngine.engine (fun _ => .start .default)
      (deliveries keptText) kept).map (·.handedOver)) ++ last).assignments.map (fun event =>
        (event.resolveId, event.client, event.assignment.flag))).Perm
      [("noon", "web", "banner")] := by
  obtain ⟨s, hs, hconserves⟩ :=
    Rotator.local_rotations_conserve start_keptText (deliveries keptText)
  obtain rfl : besideSnapshot [] = s := Except.ok.inj (ofDelivery_keptText.symm.trans hs)
  obtain ⟨last, hlast, hnoted, -⟩ := hconserves.conserved
  obtain ⟨-, -, -, hmorning⟩ := exists_visit "morning"
  obtain ⟨-, -, -, hevening⟩ := exists_visit "evening"
  rw [notedAll_deliveries ofDelivery_keptText] at hnoted
  have hids : (visitLog "morning" ++ (showingLog "noon" ++ visitLog "evening")).resolves.map
      (·.resolveId) = ["morning", "noon", "evening"] := by
    simp only [Log.resolves_append, List.map_append, hmorning, resolves_showingLog, hevening]
    rfl
  have hseen : (visitLog "morning" ++ (showingLog "noon" ++ visitLog "evening")).assignments.map
      (fun event => (event.resolveId, event.client, event.assignment.flag)) =
        [("noon", "web", "banner")] := by
    simp only [Log.assignments_append, List.map_append, assignments_visitLog,
      assignments_showingLog]
    rfl
  have hresolves := hnoted.resolves.map (·.resolveId)
  have hassignments := hnoted.assignments.map fun event =>
    (event.resolveId, event.client, event.assignment.flag)
  rw [hids] at hresolves
  rw [hseen] at hassignments
  exact ⟨last, start_keptText, hlast, hresolves, hassignments⟩

end Rollout

end FeatureFlags
