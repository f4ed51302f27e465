import FeatureFlags.Proofs.Engine.Local

/-!
# What is noted of a command

What a local engine notes of a command can be told from its reply (`LocalEngine.Notes`): a response
is noted as it was given, with its exposures if the flags are used at once; a report that is
accepted is noted with the exposures of all flags in it; and nothing else is noted.
-/

namespace FeatureFlags

/-! ## Exposures -/

/-- The exposures of the decisions of a resolve whose flags are used at once. -/
def Resolution.exposures (r : Resolution) (now : Instant) : List AssignmentEvent :=
  ((r.values.map AssignedFlag.ofValue).filter (·.shouldApply)).map fun assignment =>
    { resolveId := r.response.resolveId, client := r.client, assignment, appliedAt := now }

/-- What a resolve notes of exposures. -/
theorem events_of_resolve {s : Snapshot} {config : Config} {request : ResolveRequest}
    {occasion : Occasion} {resolution : Resolution}
    (h : resolve s config request occasion = .ok (.resolved resolution)) :
    resolution.events = if request.apply then resolution.exposures occasion.now else [] := by
  obtain ⟨client, flags, -, -, rfl⟩ := resolve_eq_resolved_iff.mp h
  rfl

theorem client_of_resolve {s : Snapshot} {config : Config} {request : ResolveRequest}
    {occasion : Occasion} {resolution : Resolution}
    (h : resolve s config request occasion = .ok (.resolved resolution)) :
    s.clientFor? request.clientSecret = some resolution.client := by
  obtain ⟨client, flags, hselection, -, rfl⟩ := resolve_eq_resolved_iff.mp h
  exact (Snapshot.selection_eq_ok_iff.mp hselection).1

namespace ResolveToken

/-- The exposure of the client to the decision for a flag that is used, if there is one and there is
something to report. -/
def exposure? (t : ResolveToken) (client : String) (used : AppliedFlag) : Option AssignmentEvent :=
  ((t.assigned? used.flag).filter (·.shouldApply)).map fun assignment =>
    { resolveId := t.resolveId, client, assignment, appliedAt := used.appliedAt }

/-- A report is accepted as a whole: the token has to have every flag in it. -/
theorem exposures_eq_ok_iff {t : ResolveToken} {client : String} {used : List AppliedFlag}
    {events : List AssignmentEvent} :
    t.exposures client used = .ok events ↔
      (∀ u ∈ used, (t.assigned? u.flag).isSome) ∧ events = used.filterMap (t.exposure? client) := by
  induction used generalizing events with
  | nil =>
    show Except.ok [] = Except.ok events ↔ _
    rw [Except.ok.injEq, eq_comm]
    exact (and_iff_right (List.forall_mem_nil _)).symm
  | cons u rest ih =>
    rw [exposures, List.forall_mem_cons, List.filterMap_cons, exposure?]
    cases t.assigned? u.flag with
    | none => simp
    | some assignment =>
      dsimp only
      rw [map_eq_ok_iff]
      simp only [ih, Option.isSome_some, true_and]
      cases hshould : assignment.shouldApply with
      | false =>
        rw [Option.filter_some, hshould]
        simp only [↓existsAndEq, and_true, Bool.false_eq_true, ↓reduceIte, Option.map_none,
          and_congr_right_iff]
        exact fun _ => eq_comm
      | true =>
        rw [Option.filter_some, hshould]
        simp only [↓existsAndEq, and_true, ↓reduceIte, Option.map_some, and_congr_right_iff]
        exact fun _ => eq_comm

end ResolveToken

/-! ## Notes -/

namespace LocalEngine

/-- What an engine notes of a command, told by its reply. -/
inductive Notes (e : LocalEngine) : EngineCommand → EngineReply → Log → Prop where
  /-- A response is noted as it is given, and the exposures if the flags are used at once. -/
  | answered {request : ResolveRequest} {occasion : Occasion} {s : Snapshot}
    {resolution : Resolution} (hsnapshot : e.snapshot = some s)
    (hclient : s.clientFor? request.clientSecret = some resolution.client)
    (hresolved : FeatureFlags.resolve s e.config request occasion = .ok (.resolved resolution)) :
    Notes e (.resolve request occasion)
      (.resolved (.ok (.resolved resolution.response resolution.updates)))
      { resolves := [
          { resolveId := resolution.response.resolveId
            client := resolution.client
            stateFingerprint := resolution.response.stateFingerprint
            flags := resolution.response.flags }]
        assignments := if request.apply then resolution.exposures occasion.now else [] }
  /-- Of a report that is accepted the exposures are noted. -/
  | reported {request : ApplyRequest} {s : Snapshot} {client : String} {token : ResolveToken}
    (hsnapshot : e.snapshot = some s)
    (hclient : s.clientFor? request.clientSecret = some client)
    (htoken : ResolveToken.ofText e.config.secret request.token = .ok token)
    (haccount : token.account = s.account)
    (hall : ∀ used ∈ request.flags, (token.assigned? used.flag).isSome) :
    Notes e (.apply request) (.applied (.ok ()))
      { resolves := [], assignments := request.flags.filterMap (token.exposure? client) }
  /-- Nothing else is noted. -/
  | nothing {command : EngineCommand} {reply : EngineReply} (h : reply.tellsUse = false) :
    Notes e command reply ∅

section Commands

variable {e : LocalEngine} {command : EngineCommand} {reply : EngineReply} {done : Log}

/-- What is noted of resolves is what was responded. -/
theorem Notes.told (h : Notes e command reply done) :
    done.resolves.map (·.told) = reply.response?.toList.map (·.told) := by
  cases h with
  | answered => rfl
  | reported => rfl
  | nothing h =>
    cases reply with
    | resolved answer =>
      rcases answer with cause | ⟨response, updates⟩ | items
      · rfl
      · cases h
      · rfl
    | _ => rfl

theorem notes_resolve (e : LocalEngine) (request : ResolveRequest) (occasion : Occasion) :
    Notes e (.resolve request occasion) (.resolved (e.answer request occasion))
      (e.noted (.resolve request occasion)) := by
  rw [answer, noted]
  cases hs : e.snapshot with
  | none => exact .nothing rfl
  | some s =>
    dsimp only
    rw [Snapshot.answer, Snapshot.noted]
    cases hresolve : FeatureFlags.resolve s e.config request occasion with
    | error cause => exact .nothing rfl
    | ok outcome =>
      cases outcome with
      | missing items => exact .nothing rfl
      | resolved resolution =>
        have hnotes := Notes.answered hs (client_of_resolve hresolve) hresolve
        rw [← events_of_resolve hresolve] at hnotes
        exact hnotes

theorem notes_apply (e : LocalEngine) (request : ApplyRequest) :
    Notes e (.apply request) (.applied (e.verdict request)) (e.noted (.apply request)) := by
  rw [verdict, noted]
  cases hs : e.snapshot with
  | none => exact .nothing rfl
  | some s =>
    dsimp only
    rw [Snapshot.verdict, Snapshot.noted, FeatureFlags.apply]
    cases hclient : s.clientFor? request.clientSecret with
    | none => exact .nothing rfl
    | some client =>
      dsimp only
      cases htoken : ResolveToken.ofText e.config.secret request.token with
      | error cause => exact .nothing rfl
      | ok token =>
        dsimp only
        by_cases haccount : token.account = s.account
        · rw [if_pos haccount]
          cases hexposures : token.exposures client request.flags with
          | error cause => exact .nothing rfl
          | ok events =>
            obtain ⟨hall, rfl⟩ := ResolveToken.exposures_eq_ok_iff.mp hexposures
            exact .reported hs hclient htoken haccount hall
        · rw [if_neg haccount]
          exact .nothing rfl

end Commands

end LocalEngine

end FeatureFlags
