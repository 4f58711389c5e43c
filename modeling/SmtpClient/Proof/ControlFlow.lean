import SmtpClient.Proof.Transitions

/-!
# A connection follows the protocol

Every step of a connection is a step of the abstract session: seen through its phase and through the
actions on its trace, a connection is a run of the protocol automaton. The phase is a function of
the connection, so this is a refinement with nothing to choose, and soundness of the session carries
over to every reachable connection.
-/

namespace SmtpClient

variable {E : TlsEngine}

namespace Conn

open World Protocol

/-- The phase of the session a connection is in. -/
def phase (conn : Connection E) : Phase := ⟨conn.state, conn.tls.isSome, conn.bannerSeen⟩

/-! ### What the exits do to the settings -/

section Settings

variable {env : Env E} {identity plaintext input : Bytes} {nowMs : Nat} {w w' : World E}
  {tls : E.State} {result : IoResult}

@[simp] theorem settings_reads : (reads env w).conn.settings = w.conn.settings := by
  simp [reads, Connection.settings]

theorem SubmitsCommand.settings_eq (h : SubmitsCommand env w plaintext w') :
    w'.conn.settings = w.conn.settings := by
  cases h <;> simp [Connection.settings, encrypting]

theorem SendsEhlo.settings_eq (h : SendsEhlo env identity nowMs w w') :
    w'.conn.settings = w.conn.settings := by
  cases h with
  | tooLong _ hquits => exact hquits.settings
  | submits _ _ hsubmits => exact hsubmits.settings_eq

theorem Drives.settings_eq (h : Drives env w tls input w') :
    w'.conn.settings = w.conn.settings := by
  cases h with
  | wantWrite | wantRead => simp [Connection.settings, driveHandshake]
  | refused _ hquits => exact hquits.settings

theorem Begins.settings_eq (h : Begins env nowMs w w') : w'.conn.settings = w.conn.settings := by
  cases h with
  | createFailed _ _ _ hquits => exact hquits.settings
  | drives _ _ _ _ _ hdrives => exact hdrives.settings_eq

theorem Handled.settings_eq (h : Handled env identity nowMs w result w') :
    w'.conn.settings = w.conn.settings := by
  cases h with
  | refuses _ hquits => exact hquits.settings
  | proceeds _ hproceeds =>
      cases hproceeds with
      | connected | waits | ehloSent | starttlsSent | securedFirst => exact settings_reads
      | ready => rfl
      | connectedImplicit _ _ hbegins | starttlsAccepted _ _ _ _ _ hbegins =>
          exact hbegins.settings_eq
      | greeted _ _ _ _ _ _ hsends | securedAgain _ _ _ _ _ _ _ hsends => exact hsends.settings_eq
      | starttlsWanted _ _ _ _ _ _ _ _ hsubmits => exact hsubmits.settings_eq
      | drives _ _ _ _ _ hdrives => exact hdrives.settings_eq

theorem OnIo.settings_eq (h : OnIo env identity nowMs w result w') :
    w'.conn.settings = w.conn.settings := by
  cases h with
  | direct _ hhandled => exact hhandled.settings_eq
  | full _ _ _ hquits => exact hquits.settings
  | undecided => exact settings_reads
  | broken _ _ _ _ _ hquits => exact hquits.settings
  | delivered _ _ _ _ _ hhandled => exact hhandled.settings_eq

end Settings

theorem Took.settings_eq {identity : Bytes} {w w' : World E} {event : Event E}
    (h : Took identity w event w') : w'.conn.settings = w.conn.settings := by
  cases h with
  | completes env op result data nowMs _ _ honIo => simpa using honIo.settings_eq
  | inTime | expires | others => rfl

/-! ### What the exits do to the session -/

section Session

variable {env : Env E} {identity plaintext input : Bytes} {nowMs : Nat} {w w' : World E}
  {tls : E.State} {result : IoResult}

theorem phase_reads : phase (reads env w).conn = phase w.conn
    ∨ (phase (reads env w).conn).state = .error := by
  by_cases hrc : env.submitRc = 0 <;> simp [reads, phase, hrc]

@[simp] theorem actions_reads : actions (reads env w).trace = actions w.trace := by
  simp [reads, Effect.action]

theorem Quits.actions_eq (h : Quits w w') : actions w'.trace = actions w.trace :=
  h.filterMap_eq fun _ _ => rfl

/-- The action a submitted command line is. -/
def commandAction (plaintext : Bytes) (encrypted : Bool) : Action :=
  if plaintext = starttlsLine then .starttls encrypted else .ehlo encrypted

theorem SubmitsCommand.phase_eq (h : SubmitsCommand env w plaintext w') :
    phase w'.conn = phase w.conn ∨ (phase w'.conn).state = .error := by
  by_cases hrc : env.submitRc = 0 <;> cases h <;>
    simp_all [phase, encrypting]

theorem SubmitsCommand.actions_eq (h : SubmitsCommand env w plaintext w') :
    actions w'.trace
        = actions w.trace ++ [commandAction plaintext w.conn.tls.isSome]
      ∨ w'.conn.state = .error ∧ actions w'.trace = actions w.trace := by
  cases h with
  | plain htls len hlen =>
      left
      simp [Effect.action, commandAction, starttlsLine, htls]
  | encrypted tls htls hdone out hout hstatus =>
      left
      simp [Effect.action, commandAction, starttlsLine, htls, encrypting]
  | encryptFailed tls htls hdone hstatus =>
      right
      simp [Effect.action, encrypting]

theorem SubmitsCommand.step (mode : TlsMode) (p : Phase) (encrypted : Bool)
    (h : SubmitsCommand env w plaintext w') (hencrypted : w.conn.tls.isSome = encrypted)
    (hmove : Move mode p [commandAction plaintext encrypted] (phase w.conn)) :
    ∃ acts, actions w'.trace = actions w.trace ++ acts
      ∧ Step mode p acts (phase w'.conn) := by
  subst hencrypted
  rcases h.actions_eq with hacts | ⟨herror, hacts⟩
  · exact ⟨_, hacts, .lands (.inl hmove) h.phase_eq⟩
  · exact ⟨[], by simp [hacts], .ends _ (.inl herror)⟩

theorem commandAction_ehloLine (identity : Bytes) (encrypted : Bool) :
    commandAction (ehloLine identity) encrypted = .ehlo encrypted := by
  have hne : ehloLine identity ≠ starttlsLine := by
    intro heq
    have hhead := congrArg List.head? heq
    simp [ehloLine, starttlsLine, bytes] at hhead
  simp [commandAction, hne]

theorem SendsEhlo.phase_eq (h : SendsEhlo env identity nowMs w w') :
    phase w'.conn = ⟨.sendingEhlo, w.conn.tls.isSome, w.conn.bannerSeen⟩
      ∨ (phase w'.conn).state = .error := by
  cases h with
  | tooLong _ hquits => exact .inr hquits.state
  | submits _ _ hsubmits => exact hsubmits.phase_eq

theorem SendsEhlo.step (mode : TlsMode) (p : Phase) {encrypted : Bool}
    (h : SendsEhlo env identity nowMs w w') (hencrypted : w.conn.tls.isSome = encrypted)
    (hmove : Move mode p [.ehlo encrypted] ⟨.sendingEhlo, encrypted, w.conn.bannerSeen⟩) :
    ∃ acts, actions w'.trace = actions w.trace ++ acts
      ∧ Step mode p acts (phase w'.conn) := by
  cases h with
  | tooLong _ hquits => exact ⟨[], by simp [hquits.actions_eq], .ends _ (.inl hquits.state)⟩
  | submits _ _ hsubmits =>
      subst hencrypted
      obtain ⟨acts, hacts, hstep⟩ := hsubmits.step mode p _ rfl (by
        rw [commandAction_ehloLine]
        exact hmove)
      exact ⟨acts, by simpa [ehloBuilt, Effect.action] using hacts, hstep⟩

theorem Drives.phase_eq (h : Drives env w tls input w') (hstate : w.conn.tls.isSome = true) :
    phase w'.conn = phase w.conn ∨ (phase w'.conn).state = .error := by
  cases h with
  | wantWrite | wantRead =>
      by_cases hrc : env.submitRc = 0 <;> simp [phase, driveHandshake, hstate, hrc]
  | refused _ hquits => exact .inr hquits.state

theorem Drives.actions_eq (h : Drives env w tls input w') :
    actions w'.trace = actions w.trace := by
  cases h with
  | wantWrite | wantRead => simp [driveHandshake, Effect.action]
  | refused _ hquits => simp [hquits.actions_eq, driveHandshake, Effect.action]

theorem Begins.phase_eq (h : Begins env nowMs w w') :
    phase w'.conn = ⟨.tlsHandshaking, true, w.conn.bannerSeen⟩
      ∨ (phase w'.conn).state = .error := by
  cases h with
  | createFailed _ _ _ hquits => exact .inr hquits.state
  | drives _ _ _ _ _ hdrives => exact hdrives.phase_eq rfl

theorem Begins.step (mode : TlsMode) (p : Phase) (h : Begins env nowMs w w')
    (hmove : Move mode p [.handshake] ⟨.tlsHandshaking, true, w.conn.bannerSeen⟩) :
    ∃ acts, actions w'.trace = actions w.trace ++ acts
      ∧ Step mode p acts (phase w'.conn) := by
  cases h with
  | createFailed _ _ _ hquits =>
      exact ⟨[], by simp [hquits.actions_eq, Effect.action], .ends _ (.inl hquits.state)⟩
  | drives _ _ _ _ _ hdrives =>
      refine ⟨[.handshake], ?_, .lands (.inl hmove) (hdrives.phase_eq rfl)⟩
      simp [hdrives.actions_eq, handshaking, Effect.action]

/-- **A handler is a step of the session.** -/
theorem Handled.step (h : Handled env identity nowMs w result w')
    (hconsistent : Consistent (phase w.conn)) :
    ∃ acts, actions w'.trace = actions w.trace ++ acts
      ∧ Step w.conn.tlsMode (phase w.conn) acts (phase w'.conn) := by
  cases h with
  | refuses _ hquits => exact ⟨[], by simp [hquits.actions_eq], .ends _ (.inl hquits.state)⟩
  | proceeds _ hproceeds =>
      unfold phase at hconsistent ⊢
      cases hproceeds with
      | connected hstate hmode =>
          rw [hstate] at hconsistent ⊢
          obtain ⟨htls, hbanner⟩ := hconsistent
          refine ⟨[], by simp [Effect.action], .lands (.inl ?_) phase_reads⟩
          simpa [phase, htls, hbanner] using Move.connect hmode
      | connectedImplicit hstate hmode hbegins =>
          rw [hstate] at hconsistent ⊢
          obtain ⟨htls, hbanner⟩ := hconsistent
          rw [htls, hbanner]
          obtain ⟨acts, hacts, hstep⟩ := hbegins.step w.conn.tlsMode ⟨.connecting, false, false⟩ (by
            simpa [hbanner] using Move.connectImplicit hmode)
          exact ⟨acts, by simpa [Effect.action] using hacts, hstep⟩
      | waits => exact ⟨[], by simp [grown], .lands (.inr ⟨rfl, rfl⟩) phase_reads⟩
      | greeted hstate _ reply _ _ _ hsends =>
          rw [hstate] at hconsistent ⊢
          have hbanner : w.conn.bannerSeen = false := hconsistent
          rw [hbanner]
          obtain ⟨acts, hacts, hstep⟩ := hsends.step w.conn.tlsMode _ rfl
            (Move.greet w.conn.tls.isSome)
          exact ⟨acts, by simpa [greetedBy, grown, Effect.action] using hacts, hstep⟩
      | ehloSent hstate =>
          rw [hstate] at hconsistent ⊢
          have hbanner : w.conn.bannerSeen = true := hconsistent
          refine ⟨[], by simp, .lands (.inl ?_) phase_reads⟩
          simpa [phase, hbanner] using Move.ehloSent w.conn.tls.isSome
      | ready hstate _ reply caps _ hmode =>
          rw [hstate] at hconsistent ⊢
          have hbanner : w.conn.bannerSeen = true := hconsistent
          refine ⟨[], by simp [readied, capabilitiesOf, grown, Effect.action], .moves ?_⟩
          have hmove := @Move.finish w.conn.tlsMode w.conn.tls.isSome (by tauto)
          simpa [readied, capabilitiesOf, grown, hbanner] using hmove
      | starttlsWanted hstate _ reply caps _ htls hmode _ hsubmits =>
          rw [hstate] at hconsistent ⊢
          have hbanner : w.conn.bannerSeen = true := hconsistent
          obtain ⟨acts, hacts, hstep⟩ := hsubmits.step w.conn.tlsMode ⟨.waitEhlo, false, true⟩ false
            (by simp [starttlsBuilt, capabilitiesOf, grown, htls])
            (by
              simpa [phase, commandAction, starttlsBuilt, capabilitiesOf, grown, htls, hbanner]
                using Move.starttls hmode)
          refine ⟨acts, by simpa [starttlsBuilt, capabilitiesOf, grown, Effect.action] using hacts,
            ?_⟩
          simpa [htls, hbanner, phase] using hstep
      | starttlsSent hstate =>
          rw [hstate] at hconsistent ⊢
          obtain ⟨htls, hbanner⟩ := hconsistent
          refine ⟨[], by simp, .lands (.inl ?_) phase_reads⟩
          simpa [phase, htls, hbanner] using Move.starttlsSent
      | starttlsAccepted hstate _ reply _ _ hbegins =>
          rw [hstate] at hconsistent ⊢
          obtain ⟨htls, hbanner⟩ := hconsistent
          rw [htls, hbanner]
          obtain ⟨acts, hacts, hstep⟩ := hbegins.step w.conn.tlsMode
            ⟨.waitStarttlsReply, false, true⟩ (by simpa [grown, hbanner] using Move.upgrade)
          exact ⟨acts, by simpa [grown] using hacts, hstep⟩
      | drives hstate tls htls _ _ hdrives =>
          exact ⟨[], by simp [hdrives.actions_eq],
            .lands (.inr ⟨rfl, rfl⟩) (hdrives.phase_eq (by simp [htls]))⟩
      | securedFirst hstate tls htls _ _ _ hbanner =>
          rw [hstate, hbanner, htls]
          refine ⟨[], by simp [secured, driveHandshake, Effect.action], .lands (.inl ?_) phase_reads⟩
          simpa [phase, secured, driveHandshake, hbanner] using Move.secureFirst
      | securedAgain hstate tls htls _ _ _ hbanner hsends =>
          rw [hstate, hbanner, htls]
          obtain ⟨acts, hacts, hstep⟩ := hsends.step w.conn.tlsMode ⟨.tlsHandshaking, true, true⟩ rfl
            (by simpa [secured, driveHandshake, hbanner] using Move.secureAgain)
          exact ⟨acts, by simpa [secured, driveHandshake, Effect.action] using hacts, hstep⟩

@[simp] theorem decrypted_state (n : Nat) :
    (decrypted w tls n).conn.state = w.conn.state := rfl

@[simp] theorem decrypted_settings (n : Nat) :
    (decrypted w tls n).conn.settings = w.conn.settings := rfl

@[simp] theorem decrypted_tlsMode (n : Nat) :
    (decrypted w tls n).conn.tlsMode = w.conn.tlsMode := rfl

@[simp] theorem decrypted_inFlight (n : Nat) : (decrypted w tls n).inFlight = w.inFlight := rfl

theorem phase_decrypted (htls : w.conn.tls = some tls) (n : Nat) :
    phase (decrypted w tls n).conn = phase w.conn := by
  simp [phase, decrypted, htls]

@[simp] theorem actions_decrypted (n : Nat) :
    actions (decrypted w tls n).trace = actions w.trace := by
  simp [decrypted, Effect.action]

theorem OnIo.step (h : OnIo env identity nowMs w result w')
    (hconsistent : Consistent (phase w.conn)) :
    ∃ acts, actions w'.trace = actions w.trace ++ acts
      ∧ Step w.conn.tlsMode (phase w.conn) acts (phase w'.conn) := by
  cases h with
  | direct _ hhandled => exact hhandled.step hconsistent
  | full _ _ _ hquits => exact ⟨[], by simp [hquits.actions_eq], .ends _ (.inl hquits.state)⟩
  | undecided tls hdecrypts =>
      refine ⟨[], by simp, .lands (.inr ⟨rfl, rfl⟩) ?_⟩
      rw [← phase_decrypted hdecrypts.tls result.bytesTransferred]
      exact phase_reads
  | broken _ _ _ _ _ hquits =>
      exact ⟨[], by simp [hquits.actions_eq], .ends _ (.inl hquits.state)⟩
  | delivered tls hdecrypts _ _ _ hhandled =>
      rw [← phase_decrypted hdecrypts.tls result.bytesTransferred] at hconsistent ⊢
      simpa using hhandled.step hconsistent

end Session

theorem ne_of_live {conn : Connection E} (hlive : conn.state.terminal = false) :
    conn.state ≠ .error ∧ conn.state ≠ .timedOut := by
  constructor <;>
  · intro heq
    rw [heq] at hlive
    exact absurd hlive (by decide)

theorem consistent_of_sound {w : World E}
    (h : Sound w.conn.tlsMode (phase w.conn) (actions w.trace))
    (hlive : w.conn.state.terminal = false) : Consistent (phase w.conn) := by
  obtain ⟨herror, htimedOut⟩ := ne_of_live hlive
  exact consistent_of_history (h.history herror htimedOut)

/-- **Refinement.** A step of a connection is a step of its session. -/
theorem Took.step {identity : Bytes} {w w' : World E} {event : Event E}
    (h : Took identity w event w')
    (hsound : Sound w.conn.tlsMode (phase w.conn) (actions w.trace)) :
    ∃ acts, actions w'.trace = actions w.trace ++ acts
      ∧ Step w.conn.tlsMode (phase w.conn) acts (phase w'.conn) := by
  cases h with
  | completes env op result data nowMs hlive _ honIo =>
      have hconsistent := consistent_of_sound hsound hlive
      simpa [phase, Effect.action] using honIo.step (by simpa [phase] using hconsistent)
  | inTime => exact ⟨[], by simp, .stays⟩
  | expires => exact ⟨[], by simp [expired, Effect.action], .ends _ (.inr rfl)⟩
  | others => exact ⟨[], by simp, .stays⟩

theorem start_fresh_ok {logId : LogId} {actor : Bytes} {tlsMode : TlsMode} {tlsCtx : Option E.Ctx}
    {trust : Bool} {caps : Capabilities} {nowMs connectTimeoutMs : Nat} {submitRc rc : Int}
    {w : World E} (h : start (fresh logId actor tlsMode tlsCtx trust caps) nowMs connectTimeoutMs
      submitRc = .ok (w, rc)) :
    rc = submitRc ∧ containsCrOrLf (clip maxActorSize actor) = false
      ∧ w = { conn := { init logId actor tlsMode tlsCtx trust with
                state := if submitRc = 0 then .connecting else .error
                connectTimeoutMs := connectTimeoutMs
                deadlineMs := addMs nowMs connectTimeoutMs }
              caps := caps
              inFlight := if submitRc = 0 then [⟨.connect, .null, 0⟩] else []
              trace := [.log .connecting (bytes "connecting"), .submitConnect submitRc] } := by
  unfold start logEmit at h
  cases hactor : containsCrOrLf (clip maxActorSize actor) with
  | true => exact absurd h (by simp [fresh, init, hactor, bind, Except.bind])
  | false =>
      have hdetail : containsCrOrLf (bytes "connecting") = false := by decide
      simp only [fresh, init, modify_conn, hactor, hdetail] at h
      cases Except.ok.inj h
      by_cases hrc : submitRc = 0 <;> simp [hrc, init, record, fail, World.modify]

theorem start_fresh_error {logId : LogId} {actor : Bytes} {tlsMode : TlsMode}
    {tlsCtx : Option E.Ctx} {trust : Bool} {caps : Capabilities} {nowMs connectTimeoutMs : Nat}
    {submitRc : Int} {e : Assertion} (h : start (fresh logId actor tlsMode tlsCtx trust caps) nowMs
      connectTimeoutMs submitRc = .error e) :
    e = .logActor ∧ containsCrOrLf (clip maxActorSize actor) = true := by
  unfold start logEmit at h
  cases hactor : containsCrOrLf (clip maxActorSize actor) with
  | true =>
      simp only [fresh, init, modify_conn, hactor] at h
      exact ⟨(Except.error.inj h).symm, rfl⟩
  | false =>
      have hdetail : containsCrOrLf (bytes "connecting") = false := by decide
      simp only [fresh, init, modify_conn, hactor, hdetail] at h
      cases h

theorem Started.shape {w : World E} (h : Started w) :
    ∃ logId actor tlsMode tlsCtx trust caps nowMs connectTimeoutMs,
      (tlsMode = .none ∨ tlsCtx.isSome) ∧ containsCrOrLf (clip maxActorSize actor) = false
        ∧ w = { conn := { init logId actor tlsMode tlsCtx trust (E := E) with
                  connectTimeoutMs := connectTimeoutMs
                  deadlineMs := addMs nowMs connectTimeoutMs }
                caps := caps
                inFlight := [⟨.connect, .null, 0⟩]
                trace := [.log .connecting (bytes "connecting"), .submitConnect 0] } := by
  obtain ⟨logId, actor, tlsMode, tlsCtx, trust, caps, nowMs, connectTimeoutMs, hctx, h⟩ := h
  obtain ⟨-, hactor, hw⟩ := start_fresh_ok h
  exact ⟨logId, actor, tlsMode, tlsCtx, trust, caps, nowMs, connectTimeoutMs, hctx, hactor, hw⟩

/-- **A reachable connection is a sound session.** -/
theorem sound_of_reachable {identity : Bytes} {w : World E} (h : Reachable identity w) :
    Sound w.conn.tlsMode (phase w.conn) (actions w.trace) := by
  refine h.invariant (I := fun w => Sound w.conn.tlsMode (phase w.conn) (actions w.trace))
    (fun w hstart => ?_) (fun w event w' hsound hstep => ?_)
  · obtain ⟨logId, actor, tlsMode, tlsCtx, trust, caps, nowMs, connectTimeoutMs, -, -, rfl⟩ :=
      hstart.shape
    simp [Sound, phase, init, Protocol.history, Effect.action]
  · have htook := took_of_steps hstep
    obtain ⟨acts, hacts, hnext⟩ := htook.step hsound
    have hmode : w'.conn.tlsMode = w.conn.tlsMode := congrArg Settings.tlsMode htook.settings_eq
    rw [hacts, hmode]
    exact hsound.step hnext

end Conn

end SmtpClient
