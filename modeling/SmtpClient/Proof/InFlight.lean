import SmtpClient.Proof.ControlFlow
import SmtpClient.Proof.Aborts
import SmtpClient.Proof.ReplyLines
import SmtpClient.RecordEngine

/-!
# One operation in flight

Every exit of every handler submits exactly once or ends the connection. Together with the phase of
the session and with what is known of the engine outside the handshake, this leaves an on-going
connection with the one operation its state waits for, and no completion it can receive runs into an
assertion other than the one on the text of a log line.
-/

namespace SmtpClient

variable {E : TlsEngine}

namespace Conn

open World Protocol

/-- The operation a state waits for. -/
def OpFits (conn : Connection E) : Prop :=
  match conn.state with
  | .connecting => conn.op = ⟨.connect, .null, 0⟩
  | .waitBanner | .waitEhlo | .waitStarttlsReply => conn.op = readOp conn
  | .sendingEhlo | .sendingStarttls =>
      conn.op = ⟨.write, if conn.tls.isSome then .cipherBuf else .writeBuf, conn.wireWriteLen⟩
  | .tlsHandshaking =>
      conn.op = ⟨.read, .cipherBuf, readBufSize⟩ ∨ conn.op = ⟨.write, .cipherBuf, conn.wireWriteLen⟩
  | _ => True

theorem expects_of_opFits {conn : Connection E} (h : OpFits conn)
    (hlive : conn.state.terminal = false) : expects conn.state conn.op.kind = true := by
  unfold OpFits at h
  cases hstate : conn.state <;> simp only [hstate] at h hlive
  case connecting | sendingEhlo | sendingStarttls => rw [h]; rfl
  case waitBanner | waitEhlo | waitStarttlsReply =>
    rw [h, readOp]
    cases conn.tls <;> rfl
  case tlsHandshaking => rcases h with h | h <;> rw [h] <;> rfl
  all_goals exact absurd hlive (by decide)

/-- An on-going connection holds its operation in flight, and a finished one holds nothing. -/
structure Flight (w : World E) : Prop where
  idle : w.conn.state = .ready ∨ w.conn.state = .error → w.inFlight = []
  live : w.conn.state.terminal = false → w.inFlight = [w.conn.op] ∧ OpFits w.conn

theorem Flight.of_error {w : World E} (hstate : w.conn.state = .error) (hidle : w.inFlight = []) :
    Flight w where
  idle _ := hidle
  live hlive := by
    rw [hstate] at hlive
    exact absurd hlive (by decide)

section Exits

variable {env : Env E} {identity plaintext input : Bytes} {nowMs : Nat} {w w' : World E}
  {tls : E.State} {result : IoResult}

theorem Quits.flight (h : Quits w w') (hidle : w.inFlight = []) : Flight w' :=
  .of_error h.state (h.inFlight.trans hidle)

theorem flight_orFail_submit {op : IoOp} {effect : Effect} (hidle : w.inFlight = [])
    (hlive : w.conn.state.terminal = false) (hfits : OpFits { w.conn with op := op }) :
    Flight (orFail (w.submit env op effect)) := by
  by_cases hrc : env.submitRc = 0
  · refine ⟨?_, ?_⟩
    · intro hover
      rcases hover with hover | hover <;>
      · simp only [orFail_submit_conn, hrc, if_true] at hover
        rw [hover] at hlive
        exact absurd hlive (by decide)
    · intro _
      simpa [hrc, hidle] using hfits
  · exact .of_error (by simp [hrc]) (by simp [hrc, hidle])

theorem flight_reads (hidle : w.inFlight = []) (hstate : awaitsReply w.conn.state = true) :
    Flight (reads env w) := by
  refine flight_orFail_submit hidle ?_ ?_
  · cases h : w.conn.state <;> simp_all [awaitsReply, ConnState.terminal]
  · unfold OpFits
    cases h : w.conn.state <;> simp_all [awaitsReply, readOp]

theorem SubmitsCommand.flight (h : SubmitsCommand env w plaintext w') (hidle : w.inFlight = [])
    (hstate : sendsCommand w.conn.state = true) : Flight w' := by
  have hlive : w.conn.state.terminal = false := by
    cases hs : w.conn.state <;> simp_all [sendsCommand, ConnState.terminal]
  cases h with
  | plain htls len hlen =>
      refine flight_orFail_submit hidle hlive ?_
      unfold OpFits
      cases hs : w.conn.state <;> simp_all [sendsCommand]
  | encrypted tls htls hdone out hout hstatus =>
      refine flight_orFail_submit hidle hlive ?_
      unfold OpFits
      cases hs : w.conn.state <;> simp_all [sendsCommand, encrypting]
  | encryptFailed => exact .of_error rfl hidle

theorem SendsEhlo.flight (h : SendsEhlo env identity nowMs w w') (hidle : w.inFlight = []) :
    Flight w' := by
  cases h with
  | tooLong _ hquits => exact hquits.flight hidle
  | submits _ _ hsubmits => exact hsubmits.flight hidle rfl

theorem Drives.flight (h : Drives env w tls input w') (hidle : w.inFlight = [])
    (hstate : w.conn.state = .tlsHandshaking) : Flight w' := by
  have hlive : w.conn.state.terminal = false := by rw [hstate]; rfl
  cases h with
  | wantWrite out =>
      refine flight_orFail_submit hidle hlive ?_
      simp [OpFits, driveHandshake, hstate]
  | wantRead =>
      refine flight_orFail_submit hidle hlive ?_
      simp [OpFits, driveHandshake, hstate]
  | refused _ hquits => exact hquits.flight hidle

theorem Begins.flight (h : Begins env nowMs w w') (hidle : w.inFlight = []) : Flight w' := by
  cases h with
  | createFailed _ _ _ hquits => exact hquits.flight hidle
  | drives _ _ _ _ _ hdrives => exact hdrives.flight hidle rfl

theorem Handled.flight (h : Handled env identity nowMs w result w') (hidle : w.inFlight = []) :
    Flight w' := by
  cases h with
  | refuses _ hquits => exact hquits.flight hidle
  | proceeds _ hproceeds =>
      cases hproceeds with
      | connected | ehloSent | starttlsSent | securedFirst => exact flight_reads hidle rfl
      | waits hstate => exact flight_reads hidle hstate
      | connectedImplicit _ _ hbegins | starttlsAccepted _ _ _ _ _ hbegins =>
          exact hbegins.flight hidle
      | greeted _ _ _ _ _ _ hsends | securedAgain _ _ _ _ _ _ _ hsends => exact hsends.flight hidle
      | ready => exact ⟨fun _ => hidle, fun hlive => nomatch hlive⟩
      | starttlsWanted _ _ _ _ _ _ _ _ hsubmits => exact hsubmits.flight hidle rfl
      | drives hstate _ _ _ _ hdrives => exact hdrives.flight hidle hstate

theorem awaitsReply_of_expects {state : ConnState} (h : expects state .read = true)
    (hstate : state ≠ .tlsHandshaking) : awaitsReply state = true := by
  cases state <;> simp_all [expects, awaitsReply]

theorem OnIo.flight (h : OnIo env identity nowMs w result w') (hidle : w.inFlight = [])
    (hexpects : expects w.conn.state result.kind = true) : Flight w' := by
  cases h with
  | direct _ hhandled => exact hhandled.flight hidle
  | full _ _ _ hquits => exact hquits.flight hidle
  | undecided tls hdecrypts =>
      rw [hdecrypts.kind] at hexpects
      exact flight_reads hidle (awaitsReply_of_expects hexpects hdecrypts.state)
  | broken _ _ _ _ _ hquits => exact hquits.flight hidle
  | delivered _ _ _ _ _ hhandled => exact hhandled.flight hidle

end Exits

theorem Flight.deliver {w : World E} (h : Flight w) (hlive : w.conn.state.terminal = false)
    {op : IoOp} {result : Int} {data : Bytes} (hdelivers : Delivers w op result data) :
    op = w.conn.op ∧ (w.deliver op result data).inFlight = []
      ∧ expects w.conn.state op.kind = true := by
  obtain ⟨hflight, hfits⟩ := h.live hlive
  have hop : op = w.conn.op := by simpa [hflight] using hdelivers.held
  refine ⟨hop, ?_, ?_⟩
  · simp [hflight, hop]
  · rw [hop]
    exact expects_of_opFits hfits hlive

theorem Took.flight {identity : Bytes} {w w' : World E} {event : Event E}
    (h : Took identity w event w') (hflight : Flight w) : Flight w' := by
  cases h with
  | completes env op result data nowMs hlive hdelivers honIo =>
      obtain ⟨-, hidle, hexpects⟩ := hflight.deliver hlive hdelivers
      exact honIo.flight hidle (by simpa using hexpects)
  | inTime => exact hflight
  | expires => exact ⟨fun hover => by simp [expired] at hover, fun hlive => nomatch hlive⟩
  | others => exact ⟨hflight.idle, hflight.live⟩

theorem flight_of_reachable {identity : Bytes} {w : World E} (h : Reachable identity w) :
    Flight w := by
  refine h.invariant (fun w hstart => ?_) fun w event w' hflight hstep =>
    (took_of_steps hstep).flight hflight
  obtain ⟨_, _, _, _, _, _, _, _, -, -, rfl⟩ := hstart.shape
  exact ⟨fun hover => by simp [init] at hover, fun _ => ⟨rfl, rfl⟩⟩

/-! ### The engine outside the handshake -/

/-- Outside the handshake an engine is one that has finished it. -/
def HandshakeDone (conn : Connection E) : Prop :=
  conn.state ≠ .tlsHandshaking → conn.state ≠ .error → conn.state ≠ .timedOut →
    ∀ tls, conn.tls = some tls → E.handshakeDone tls = true

section Exits

variable {env : Env E} {identity plaintext input : Bytes} {nowMs : Nat} {w w' : World E}
  {tls : E.State} {result : IoResult}

theorem HandshakeDone.of_error {conn : Connection E} (hstate : conn.state = .error) :
    HandshakeDone conn := fun _ herror => absurd hstate herror

theorem HandshakeDone.of_tls {conn : Connection E}
    (h : ∀ tls, conn.tls = some tls → E.handshakeDone tls = true) : HandshakeDone conn :=
  fun _ _ _ => h

theorem handshakeDone_reads
    (h : ∀ tls, w.conn.tls = some tls → E.handshakeDone tls = true) :
    HandshakeDone (reads env w).conn := .of_tls (by simpa [reads] using h)

theorem SubmitsCommand.handshakeDone (h : SubmitsCommand env w plaintext w') :
    HandshakeDone w'.conn := by
  cases h with
  | plain htls => exact .of_tls (by simp [htls])
  | encrypted tls htls hdone =>
      refine .of_tls ?_
      simpa [encrypting] using E.handshakeDone_encrypt tls plaintext readBufSize hdone
  | encryptFailed => exact .of_error rfl

theorem SendsEhlo.handshakeDone (h : SendsEhlo env identity nowMs w w') :
    HandshakeDone w'.conn := by
  cases h with
  | tooLong _ hquits => exact .of_error hquits.state
  | submits _ _ hsubmits => exact hsubmits.handshakeDone

theorem Drives.handshakeDone (h : Drives env w tls input w')
    (hstate : w.conn.state = .tlsHandshaking) : HandshakeDone w'.conn := by
  cases h with
  | wantWrite | wantRead =>
      intro hnot herror
      by_cases hrc : env.submitRc = 0 <;> simp [hrc, driveHandshake, hstate] at hnot herror
  | refused _ hquits => exact .of_error hquits.state

theorem Begins.handshakeDone (h : Begins env nowMs w w') : HandshakeDone w'.conn := by
  cases h with
  | createFailed _ _ _ hquits => exact .of_error hquits.state
  | drives _ _ _ _ _ hdrives => exact hdrives.handshakeDone rfl

theorem Handled.handshakeDone (h : Handled env identity nowMs w result w')
    (hdone : HandshakeDone w.conn) : HandshakeDone w'.conn := by
  have hkeep {state : ConnState} (hstate : w.conn.state = state) (hnot : state ≠ .tlsHandshaking)
      (herror : state ≠ .error) (htimedOut : state ≠ .timedOut) :=
    hdone (hstate ▸ hnot) (hstate ▸ herror) (hstate ▸ htimedOut)
  cases h with
  | refuses _ hquits => exact .of_error hquits.state
  | proceeds _ hproceeds =>
      cases hproceeds with
      | connected hstate | ehloSent hstate | starttlsSent hstate =>
          exact handshakeDone_reads (hkeep hstate (by decide) (by decide) (by decide))
      | waits hstate =>
          refine handshakeDone_reads (hkeep rfl ?_ ?_ ?_) <;>
          · intro heq
            rw [heq] at hstate
            exact absurd hstate (by decide)
      | connectedImplicit _ _ hbegins | starttlsAccepted _ _ _ _ _ hbegins =>
          exact hbegins.handshakeDone
      | greeted _ _ _ _ _ _ hsends | securedAgain _ _ _ _ _ _ _ hsends =>
          exact hsends.handshakeDone
      | ready hstate =>
          exact .of_tls (hkeep hstate (by decide) (by decide) (by decide))
      | starttlsWanted _ _ _ _ _ _ _ _ hsubmits => exact hsubmits.handshakeDone
      | drives hstate _ _ _ _ hdrives => exact hdrives.handshakeDone hstate
      | securedFirst _ tls _ hstatus =>
          refine handshakeDone_reads ?_
          simpa [secured, driveHandshake] using E.handshakeDone_of_ok _ _ _ hstatus

theorem OnIo.handshakeDone (h : OnIo env identity nowMs w result w')
    (hdone : HandshakeDone w.conn) : HandshakeDone w'.conn := by
  have hnext (tls : E.State) (htls : E.handshakeDone tls = true) (n : Nat) :
      ∀ next, (decrypted w tls n).conn.tls = some next → E.handshakeDone next = true := by
    simpa [decrypted, decryption] using E.handshakeDone_decrypt tls _ _ htls
  cases h with
  | direct _ hhandled => exact hhandled.handshakeDone hdone
  | full _ _ _ hquits => exact .of_error hquits.state
  | undecided tls _ _ htls => exact handshakeDone_reads (hnext tls htls _)
  | broken _ _ _ _ _ hquits => exact .of_error hquits.state
  | delivered tls _ _ htls _ hhandled =>
      exact hhandled.handshakeDone (.of_tls (hnext tls htls _))

end Exits

theorem handshakeDone_of_reachable {identity : Bytes} {w : World E} (h : Reachable identity w) :
    HandshakeDone w.conn := by
  refine h.invariant (I := fun w => HandshakeDone w.conn) (fun w hstart => ?_)
    fun w event w' hdone hstep => ?_
  · obtain ⟨_, _, _, _, _, _, _, _, -, -, rfl⟩ := hstart.shape
    exact .of_tls (by simp [init])
  · cases took_of_steps hstep with
    | completes _ _ _ _ _ _ _ honIo =>
        refine honIo.handshakeDone ?_
        simpa [HandshakeDone] using hdone
    | inTime => exact hdone
    | expires => exact fun _ _ htimedOut => absurd rfl htimedOut
    | others => exact hdone

/-! ### No assertion but one -/

/-- The actor of a connection that has been started is a line of its own, and only a connection that
needs no TLS context lacks one. -/
theorem configured_of_reachable {identity : Bytes} {w : World E} (h : Reachable identity w) :
    containsCrOrLf w.conn.actor = false
      ∧ (w.conn.tlsMode = .none ∨ w.conn.tlsCtx.isSome = true) := by
  refine h.invariant (I := fun w => containsCrOrLf w.conn.settings.actor = false
      ∧ (w.conn.settings.tlsMode = .none ∨ w.conn.settings.tlsCtx.isSome = true))
    (fun w hstart => ?_) fun w event w' hconfigured hstep => ?_
  · obtain ⟨_, _, _, _, _, _, _, _, hctx, hactor, rfl⟩ := hstart.shape
    exact ⟨hactor, hctx⟩
  · rw [(took_of_steps hstep).settings_eq]
    exact hconfigured

theorem not_implicit_plain {mode : TlsMode} {greeted : Bool} {acts : List Action}
    (h : history mode ⟨.waitEhlo, false, greeted⟩ = some acts) : mode ≠ .implicit := by
  rintro rfl
  cases greeted <;> simp [history] at h

theorem ne_none_of_starttls {mode : TlsMode} {secured greeted : Bool} {acts : List Action}
    (h : history mode ⟨.waitStarttlsReply, secured, greeted⟩ = some acts) : mode ≠ .none := by
  rintro rfl
  cases secured <;> cases greeted <;> simp [history] at h

theorem Aborts.eq_logDetail {identity : Bytes} {w : World E} {result : IoResult} {e : Assertion}
    {acts : List Action} (h : Aborts identity w result e)
    (hactor : containsCrOrLf w.conn.actor = false)
    (hctx : w.conn.tlsMode = .none ∨ w.conn.tlsCtx.isSome = true)
    (hhistory : history w.conn.tlsMode (phase w.conn) = some acts)
    (hdone : HandshakeDone w.conn) : e = .logDetail := by
  unfold phase at hhistory
  cases h with
  | actor hdirty => exact absurd hdirty (by simp [hactor])
  | greeting | summary | identity | identityAgain | certificate => rfl
  | reparse hparse => exact absurd hparse (Cap.parseEhloResponse_ne_none _ _ _)
  | modeImplicit hstate htls hmode =>
      rw [hstate, htls] at hhistory
      exact absurd hmode (not_implicit_plain hhistory)
  | ctxNull hstate hnull =>
      have hmode : w.conn.tlsMode ≠ .none := by
        rcases hstate with ⟨-, himplicit⟩ | hstate
        · simp [himplicit]
        · rw [hstate] at hhistory
          exact ne_none_of_starttls hhistory
      exact absurd (hctx.resolve_left hmode) (by simp [hnull])
  | tlsNull hstate htls =>
      rw [hstate] at hhistory
      have hsecured : w.conn.tls.isSome = true := consistent_of_history hhistory
      exact absurd hsecured (by simp [htls])
  | encryptHandshakeDone hstate tls htls hnot =>
      have hyes := hdone (by simp [hstate]) (by simp [hstate]) (by simp [hstate]) tls htls
      exact absurd hyes (by simp [hnot])

/-- Why a completion of a reachable connection aborts: over the text of a log line, or because
decryption asks for a write. -/
inductive CompletionAborts (identity : Bytes) (w : World E) (op : IoOp) (result : Int)
    (data : Bytes) : Assertion → Prop where
  | raw (haborts : Aborts identity (w.deliver op result data) ⟨op.kind, result, data.length⟩
        .logDetail)
      (hraw : w.conn.state = .tlsHandshaking ∨ w.conn.tls = none
        ∨ ¬ (op.kind = .read ∧ result = 0)) :
      CompletionAborts identity w op result data .logDetail
  | decrypted (tls : E.State)
      (hdecrypts : Decrypts (w.deliver op result data) ⟨op.kind, result, data.length⟩ tls)
      (hstatus : (decryption (w.deliver op result data) tls data.length).status = .ok)
      (haborts : Aborts identity (Conn.decrypted (w.deliver op result data) tls data.length)
        (decryptedResult (w.deliver op result data) tls ⟨op.kind, result, data.length⟩)
        .logDetail) : CompletionAborts identity w op result data .logDetail
  | status (tls : E.State)
      (hdecrypts : Decrypts (w.deliver op result data) ⟨op.kind, result, data.length⟩ tls)
      (hstatus : (decryption (w.deliver op result data) tls data.length).status = .wantWrite) :
      CompletionAborts identity w op result data .decryptStatus

theorem Reachable.completion_aborts {identity : Bytes} {w : World E} {env : Env E} {op : IoOp}
    {result : Int} {data : Bytes} {nowMs : Nat} {e : Assertion} (h : Reachable identity w)
    (hlive : w.conn.state.terminal = false) (hdelivers : Delivers w op result data)
    (herror : onIo env (w.deliver op result data) ⟨op.kind, result, data.length⟩ identity nowMs
      = .error e) : CompletionAborts identity w op result data e := by
  obtain ⟨hactor, hctx⟩ := configured_of_reachable h
  have hdone := handshakeDone_of_reachable h
  obtain ⟨-, -, hexpects⟩ := (flight_of_reachable h).deliver hlive hdelivers
  obtain ⟨hne, hne'⟩ := ne_of_live hlive
  have hhistory := (sound_of_reachable h).history hne hne'
  have hsettings := deliver_settings w op result data
  have hactor' : containsCrOrLf (w.deliver op result data).conn.actor = false := by
    rw [show (w.deliver op result data).conn.actor = w.conn.actor from
      congrArg Settings.actor hsettings]
    exact hactor
  have hctx' : (w.deliver op result data).conn.tlsMode = .none
      ∨ (w.deliver op result data).conn.tlsCtx.isSome = true := by
    rw [deliver_tlsMode, show (w.deliver op result data).conn.tlsCtx = w.conn.tlsCtx from
      congrArg Settings.tlsCtx hsettings]
    exact hctx
  have hphase : phase (w.deliver op result data).conn = phase w.conn := by simp [phase]
  have hdone' : HandshakeDone (w.deliver op result data).conn := by
    simpa [HandshakeDone] using hdone
  rw [← hphase, ← deliver_tlsMode w op result data] at hhistory
  cases onIo_error herror with
  | handler haborts hraw =>
      obtain rfl := haborts.eq_logDetail hactor' hctx' hhistory hdone'
      exact .raw haborts (by simpa using hraw)
  | dispatch hnot => exact absurd hexpects (by simpa using hnot)
  | actor hdirty => exact absurd hdirty (by simp [hactor'])
  | decryptHandshakeDone tls hdecrypts hnot =>
      have hyes := hdone' hdecrypts.state (by simpa using hne) (by simpa using hne') tls
        hdecrypts.tls
      exact absurd hyes (by simp [hnot])
  | decryptStatus tls hdecrypts hstatus => exact .status tls hdecrypts hstatus
  | delivered tls hdecrypts _ hyes hstatus haborts =>
      rw [← phase_decrypted hdecrypts.tls data.length] at hhistory
      have hnext : HandshakeDone
          (Conn.decrypted (w.deliver op result data) tls data.length).conn := by
        refine .of_tls ?_
        simpa [Conn.decrypted, decryption] using E.handshakeDone_decrypt tls _ _ hyes
      obtain rfl := haborts.eq_logDetail hactor' hctx' hhistory hnext
      exact .decrypted tls hdecrypts hstatus haborts

theorem Reachable.checkTimeout_ok {identity : Bytes} {w : World E} (h : Reachable identity w)
    (nowMs : Nat) : ∃ w', checkTimeout w nowMs = .ok w' := by
  obtain ⟨hactor, -⟩ := configured_of_reachable h
  cases hcheck : checkTimeout w nowMs with
  | ok w' => exact ⟨w', rfl⟩
  | error e =>
      unfold checkTimeout at hcheck
      split at hcheck
      · exact absurd hcheck (by simp)
      split at hcheck
      · rcases logEmit_bind_error hcheck with ⟨-, hdirty⟩ | ⟨-, hdirty⟩ | hcheck
        · exact absurd hdirty (by simp [hactor])
        · exact absurd hdirty (by decide)
        · exact absurd hcheck (by simp [pure, Except.pure])
      · exact absurd hcheck (by simp)

theorem step_error {identity : Bytes} {w : World E} {event : Event E} {e : Assertion}
    (hdecrypt : ∀ tls input n, (E.decrypt tls input n).status ≠ .wantWrite)
    (h : Reachable identity w) (hadmissible : admissible w event)
    (herror : step identity w event = .error e) : e = .logDetail := by
  cases event with
  | completion env op result data nowMs =>
      cases h.completion_aborts hadmissible.1 hadmissible.2 herror with
      | raw | decrypted => rfl
      | status tls _ hstatus => exact absurd hstatus (hdecrypt _ _ _)
  | timeout nowMs =>
      obtain ⟨w', hok⟩ := h.checkTimeout_ok nowMs
      rw [show step identity w (.timeout nowMs) = checkTimeout w nowMs from rfl, hok] at herror
      exact absurd herror (by simp)
  | others caps => exact absurd herror (by simp [step])

/-- **One operation in flight, of the kind the state expects.** An on-going connection has exactly
the operation it owns in flight, a finished one has none, and the only assertion a run can hit is
the one on the text of a log line. -/
theorem one_operation_in_flight {identity : Bytes} {w : World E}
    (hdecrypt : ∀ tls input n, (E.decrypt tls input n).status ≠ .wantWrite)
    (h : Reachable identity w) :
    (w.conn.state.terminal = false →
        w.inFlight = [w.conn.op] ∧ expects w.conn.state w.conn.op.kind = true)
      ∧ (w.conn.state = .ready ∨ w.conn.state = .error → w.inFlight = [])
      ∧ ∀ event e, admissible w event → step identity w event = .error e → e = .logDetail := by
  have hflight := flight_of_reachable h
  refine ⟨?_, hflight.idle, fun event e => step_error hdecrypt h⟩
  intro hlive
  obtain ⟨hone, hfits⟩ := hflight.live hlive
  exact ⟨hone, expects_of_opFits hfits hlive⟩

/-- An implicit session over the record engine, its first flight sent, waits for the server's. -/
theorem one_operation_in_flight_implicit :
    ∃ w, playSample sampleInfo .implicit [.connected, .sentAll] = some w
      ∧ w.conn.state = .tlsHandshaking ∧ w.inFlight = [w.conn.op]
      ∧ expects .tlsHandshaking w.conn.op.kind = true := by
  have hplay : (playSample sampleInfo .implicit [.connected, .sentAll]).map (fun w => w.conn.state)
      = some .tlsHandshaking := by decide +kernel
  obtain ⟨w, hw, hstate⟩ := Option.map_eq_some_iff.mp hplay
  obtain ⟨hlive, -, -⟩ := one_operation_in_flight
    (recordEngine_decrypt_ne_wantWrite sampleInfo) (reachable_of_playSample hw)
  obtain ⟨hone, hkind⟩ := hlive (by rw [hstate]; rfl)
  exact ⟨w, hw, hstate, hone, hstate ▸ hkind⟩

end Conn

end SmtpClient
