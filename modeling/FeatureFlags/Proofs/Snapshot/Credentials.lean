import FeatureFlags.Proofs.Engine.Local

/-!
# Credentials

A secret stands for one client. Names of flags and of segments that occur twice are refused when a
snapshot is built, secrets are not: of several credentials with one secret the last one counts
(`SnapshotInput.credentialFor?`), and the clients of the others are served in its name.

`Snapshot.Honours` says that requests with the secret of a credential are accepted, and that what
is done for them is logged for its client. `Snapshot.credentials_honoured_iff`: every credential of
a configuration is honoured exactly if those with one secret name one client. The last credential
with a secret always is, so no request with a secret of the configuration is turned away for it.
-/

namespace FeatureFlags

/-- The last credential of the configuration with the secret. -/
def SnapshotInput.credentialFor? (input : SnapshotInput) (secret : String) : Option Credential :=
  input.credentials.reverse.find? (·.secret = secret)

/-- All that is in the log was done by the client. -/
structure Log.IsOf (l : Log) (client : String) : Prop where
  resolves : ∀ entry ∈ l.resolves, entry.client = client
  assignments : ∀ event ∈ l.assignments, event.client = client

theorem Log.isOf_empty (client : String) : Log.IsOf ∅ client :=
  ⟨List.forall_mem_nil _, List.forall_mem_nil _⟩

/-- Requests and reports with the secret of the credential are not turned away for it, and what an
engine with the snapshot does for them it logs for the client of the credential. -/
structure Snapshot.Honours (s : Snapshot) (c : Credential) : Prop where
  client : s.clientFor? c.secret = some c.client
  resolve : ∀ (e : LocalEngine) (request : ResolveRequest) (occasion : Occasion),
    e.snapshot = some s → request.clientSecret = c.secret →
      (e.resolve request occasion).1 ≠ .error (.resolve .invalidClientSecret) ∧
        ∃ done : Log, done.IsOf c.client ∧ (e.resolve request occasion).2 = e.record done
  apply : ∀ (e : LocalEngine) (request : ApplyRequest),
    e.snapshot = some s → request.clientSecret = c.secret →
      (e.apply request).1 ≠ .error (.resolve .invalidClientSecret) ∧
        ∃ done : Log, done.IsOf c.client ∧ (e.apply request).2 = e.record done

/-! ## What is done for a client -/

section Clients

variable {s : Snapshot} {config : Config} {client : String}

theorem isOf_noted_resolve {request : ResolveRequest} {occasion : Occasion}
    (hclient : s.clientFor? request.clientSecret = some client) :
    (s.noted config (.resolve request occasion)).IsOf client := by
  rw [Snapshot.noted]
  split
  case h_2 => exact Log.isOf_empty client
  case h_1 resolution h =>
    obtain ⟨found, flags, hselection, -, rfl⟩ := resolve_eq_resolved_iff.mp h
    obtain ⟨hfound, -, -⟩ := Snapshot.selection_eq_ok_iff.mp hselection
    rw [hclient] at hfound
    cases hfound
    refine ⟨List.forall_mem_singleton.mpr rfl, fun event hevent => ?_⟩
    simp only [Log.ofResolution, Findings.toResolution] at hevent
    split at hevent
    · obtain ⟨assigned, -, rfl⟩ := List.mem_map.mp hevent
      rfl
    · cases hevent

theorem answer_ne_invalidClientSecret {request : ResolveRequest} {occasion : Occasion}
    (hclient : s.clientFor? request.clientSecret = some client) :
    s.answer config request occasion ≠ .error (.resolve .invalidClientSecret) := by
  intro hanswer
  rw [Snapshot.answer] at hanswer
  cases h : resolve s config request occasion with
  | ok outcome =>
    rw [h] at hanswer
    cases outcome <;> cases hanswer
  | error cause =>
    rw [h] at hanswer
    cases hanswer
    cases resolve_eq_error_iff.mp h with
    | invalidClientSecret hnone =>
      rw [hclient] at hnone
      cases hnone
    | denied _ _ _ _ hdenies => cases hdenies

theorem ResolveToken.client_of_mem_exposures {t : ResolveToken} {used : List AppliedFlag}
    {events : List AssignmentEvent} (h : t.exposures client used = .ok events) :
    ∀ event ∈ events, event.client = client := by
  induction used generalizing events with
  | nil =>
    cases h
    exact List.forall_mem_nil _
  | cons u rest ih =>
    rw [exposures] at h
    cases hassigned : t.assigned? u.flag with
    | none => rw [hassigned] at h; cases h
    | some assignment =>
      rw [hassigned] at h
      obtain ⟨others, hothers, rfl⟩ := map_eq_ok_iff.mp h
      split
      · exact List.forall_mem_cons.mpr ⟨rfl, ih hothers⟩
      · exact ih hothers

theorem ResolveToken.exposures_ne_invalidClientSecret (t : ResolveToken)
    (used : List AppliedFlag) : t.exposures client used ≠ .error .invalidClientSecret := by
  induction used with
  | nil => intro h; cases h
  | cons u rest ih =>
    intro h
    rw [exposures] at h
    cases hassigned : t.assigned? u.flag with
    | none => rw [hassigned] at h; cases h
    | some assignment =>
      rw [hassigned] at h
      cases hrest : t.exposures client rest with
      | ok others => rw [hrest] at h; cases h
      | error cause =>
        rw [hrest] at h
        cases h
        exact ih hrest

theorem isOf_noted_apply {request : ApplyRequest}
    (hclient : s.clientFor? request.clientSecret = some client) :
    (s.noted config (.apply request)).IsOf client := by
  rw [Snapshot.noted, apply, hclient]
  dsimp only
  cases ResolveToken.ofText config.secret request.token with
  | error cause => exact Log.isOf_empty client
  | ok token =>
    dsimp only
    by_cases haccount : token.account = s.account
    · rw [if_pos haccount]
      cases hevents : token.exposures client request.flags with
      | error cause => exact Log.isOf_empty client
      | ok events => exact ⟨List.forall_mem_nil _, ResolveToken.client_of_mem_exposures hevents⟩
    · rw [if_neg haccount]
      exact Log.isOf_empty client

theorem verdict_ne_invalidClientSecret {request : ApplyRequest}
    (hclient : s.clientFor? request.clientSecret = some client) :
    s.verdict config request ≠ .error (.resolve .invalidClientSecret) := by
  intro hverdict
  rw [Snapshot.verdict, apply, hclient] at hverdict
  dsimp only at hverdict
  cases htoken : ResolveToken.ofText config.secret request.token with
  | error cause =>
    rw [htoken] at hverdict
    cases hverdict
  | ok token =>
    rw [htoken] at hverdict
    dsimp only at hverdict
    by_cases haccount : token.account = s.account
    · rw [if_pos haccount] at hverdict
      cases hevents : token.exposures client request.flags with
      | ok events =>
        rw [hevents] at hverdict
        cases hverdict
      | error cause =>
        rw [hevents] at hverdict
        cases hverdict
        exact token.exposures_ne_invalidClientSecret request.flags hevents
    · rw [if_neg haccount] at hverdict
      cases hverdict

end Clients

namespace Snapshot

variable {input : SnapshotInput} {s : Snapshot} {c : Credential}

/-- A credential is honoured if its secret stands for its client. -/
theorem honours_iff : s.Honours c ↔ s.clientFor? c.secret = some c.client := by
  refine ⟨Honours.client, fun hclient => ⟨hclient, ?_, ?_⟩⟩
  · intro e request occasion hs hsecret
    rw [← hsecret] at hclient
    have hanswer : e.answer request occasion ≠ .error (.resolve .invalidClientSecret) := by
      rw [LocalEngine.answer, hs]
      exact answer_ne_invalidClientSecret hclient
    have hnoted : (e.noted (.resolve request occasion)).IsOf c.client := by
      rw [LocalEngine.noted, hs]
      exact isOf_noted_resolve hclient
    rw [LocalEngine.resolve_eq]
    exact ⟨hanswer, _, hnoted, rfl⟩
  · intro e request hs hsecret
    rw [← hsecret] at hclient
    have hverdict : e.verdict request ≠ .error (.resolve .invalidClientSecret) := by
      rw [LocalEngine.verdict, hs]
      exact verdict_ne_invalidClientSecret hclient
    have hnoted : (e.noted (.apply request)).IsOf c.client := by
      rw [LocalEngine.noted, hs]
      exact isOf_noted_apply hclient
    rw [LocalEngine.apply_eq]
    exact ⟨hverdict, _, hnoted, rfl⟩

/-! ## Which client a secret stands for -/

theorem clientFor?_eq (h : build input = .ok s) (secret : String) :
    s.clientFor? secret = (input.credentialFor? secret).map (·.client) := by
  rw [clientFor?, (builtFrom_of_build h).clients, Dict.get?_ofList, ← List.map_reverse,
    List.find?_map, Option.map_map]
  rfl

/-- There is a last credential with the secret, and it is honoured. -/
theorem exists_honoured (h : build input = .ok s) (hc : c ∈ input.credentials) :
    ∃ d ∈ input.credentials, input.credentialFor? c.secret = some d ∧ d.secret = c.secret ∧
      s.Honours d := by
  have hfound : (input.credentialFor? c.secret).isSome := by
    rw [SnapshotInput.credentialFor?, List.find?_isSome]
    exact ⟨c, List.mem_reverse.mpr hc, decide_eq_true rfl⟩
  obtain ⟨d, hd⟩ := Option.isSome_iff_exists.mp hfound
  have hsecret : d.secret = c.secret := by
    rw [SnapshotInput.credentialFor?] at hd
    simpa using List.find?_some hd
  refine ⟨d, List.mem_reverse.mp (List.mem_of_find?_eq_some hd), hd, hsecret, ?_⟩
  rw [honours_iff, clientFor?_eq h, hsecret, hd]
  rfl

theorem honours_iff_client_eq {d : Credential} (hd : s.Honours d) (hsecret : d.secret = c.secret) :
    s.Honours c ↔ c.client = d.client := by
  rw [honours_iff, ← hsecret, hd.client, Option.some.injEq]
  exact eq_comm

/-- **Credentials are honoured** if those with one secret name one client. In any case the last
credential with a secret is honoured, and another one with it is if it names the same client. -/
theorem credentials_honoured_iff (h : build input = .ok s) :
    ((∀ c ∈ input.credentials, s.Honours c) ↔
        ∀ c ∈ input.credentials, ∀ d ∈ input.credentials, c.secret = d.secret →
          c.client = d.client) ∧
      ∀ c ∈ input.credentials, ∃ d ∈ input.credentials,
        input.credentialFor? c.secret = some d ∧ s.Honours d ∧
          (s.Honours c ↔ c.client = d.client) := by
  constructor
  · constructor
    · intro hall c hc d hd hsecret
      exact (honours_iff_client_eq (hall d hd) hsecret.symm).mp (hall c hc)
    · intro hagree c hc
      obtain ⟨d, hd, -, hsecret, hhonoured⟩ := exists_honoured h hc
      exact (honours_iff_client_eq hhonoured hsecret).mpr (hagree c hc d hd hsecret.symm)
  · intro c hc
    obtain ⟨d, hd, hlast, hsecret, hhonoured⟩ := exists_honoured h hc
    exact ⟨d, hd, hlast, hhonoured, honours_iff_client_eq hhonoured hsecret⟩

end Snapshot

namespace Rollout

theorem web_honoured : Snapshot.build configuration =
      .ok { snapshot with fingerprint := configuration.fingerprint } ∧
    Snapshot.Honours { snapshot with fingerprint := configuration.fingerprint }
      { client := "web", secret := "secret" } := by
  refine ⟨build_configuration, ?_⟩
  refine (Snapshot.credentials_honoured_iff build_configuration).1.mpr ?_ _ List.mem_cons_self
  exact List.forall_mem_singleton.mpr (List.forall_mem_singleton.mpr fun _ => rfl)

/-- The rollout, where another client was given the secret of the web. -/
def sharedSecret : SnapshotInput :=
  { configuration with
    credentials := [{ client := "web", secret := "secret" },
      { client := "app", secret := "secret" }] }

/-- The secret of the web stands for the other client, which may not resolve the banner. -/
theorem web_shadowed : ∃ s, Snapshot.build sharedSecret = .ok s ∧
    { client := "web", secret := "secret" } ∈ sharedSecret.credentials ∧
    s.clientFor? "secret" = some "app" ∧
    ((LocalEngine.ofSnapshot .default s).resolve { visitorRequest with flags := ["banner"] }
      (visitedAt "visit")).1 = .error (.resolve (.flagNotEligible "banner" "app")) := by
  have hflags : Snapshot.gatherFlags .empty sharedSecret.flags = .ok snapshot.flags :=
    Snapshot.gatherFlags_singleton expandFlag_banner
  refine ⟨{ snapshot with
    clients := .ofList [("secret", "app")], fingerprint := sharedSecret.fingerprint }, ?_, ?_⟩
  · rw [Snapshot.build_eq_map hflags]
    rfl
  · exact ⟨List.mem_cons_self, rfl, rfl⟩

end Rollout

end FeatureFlags
