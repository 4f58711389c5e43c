import SmtpClient.Proof.Exits

/-!
# What one call can do

One inversion lemma per handler of the state machine: if the call returns, either it refused the
connection for one of the reasons in `Refused`, or it took one of the exits of `Proceeds` and left
exactly the world written there. Every invariant of the development is a case analysis over the two,
and no later proof unfolds a handler again.
-/

namespace SmtpClient

variable {E : TlsEngine}

namespace Conn

open World

/-- The states in which a reply is accumulated in `read_buf`. -/
def awaitsReply : ConnState → Bool
  | .waitBanner | .waitEhlo | .waitStarttlsReply => true
  | _ => false

/-- The states in which a command is on its way out. -/
def sendsCommand : ConnState → Bool
  | .sendingEhlo | .sendingStarttls => true
  | _ => false

/-- `conn->read_len += n`. -/
def grown (w : World E) (n : Nat) : World E :=
  w.modify fun c => { c with readLen := c.readLen + n }

/-- The bytes the reply parser is given once `n` more have arrived. -/
def offered (w : World E) (n : Nat) : Bytes := w.conn.readBuf.slice 0 (w.conn.readLen + n)

theorem slice_grown (w : World E) (n : Nat) :
    (w.modify fun c => { c with readLen := c.readLen + n }).conn.readBuf.slice 0
      (w.modify fun c => { c with readLen := c.readLen + n }).conn.readLen = offered w n := rfl

/-- The submission of the next raw read, from a world otherwise finished with. -/
def reads (env : Env E) (w : World E) : World E :=
  orFail (w.submit env (readOp w.conn) (.submitRead env.submitRc))

/-- The text of the greeting that is logged. -/
def greetingText (w : World E) (reply : Reply) : Bytes :=
  copyReplyText w.conn.readBuf 0 (reply.consumed - 2) 256

/-- The world behind a positive greeting. -/
def greetedBy (w : World E) (n : Nat) (reply : Reply) : World E :=
  ((grown w n).modify fun c =>
      { c with greetingCode := reply.code, bannerSeen := true }).record
    (.log .reply (greetingText w reply))

/-- The world behind a complete EHLO reply. -/
def capabilitiesOf (w : World E) (n : Nat) (caps : Capabilities) : World E :=
  { grown w n with caps := caps }.record (.log .capabilities (Cap.formatSummary caps 256))

/-- The world of a connection that has reached its goal. -/
def readied (w : World E) (n : Nat) (caps : Capabilities) : World E :=
  (capabilitiesOf w n caps).modify fun c => { c with state := .ready }

/-- The world in which the STARTTLS command is submitted. -/
def starttlsBuilt (w : World E) (nowMs : Nat) : World E :=
  ((w.modify fun c => { c with writeBuf := (buildStarttlsCommand c.writeBuf).1 }).record
      (.log .starttls (bytes "sending STARTTLS"))).modify fun c =>
    { c with state := .sendingStarttls, deadlineMs := addMs nowMs ehloTimeoutMs }

/-- The end of the EHLO handler, behind the log line. -/
def afterEhlo (env : Env E) (w : World E) (n : Nat) (caps : Capabilities) (nowMs : Nat) :
    Except Assertion (World E) :=
  if w.conn.tls.isSome then .ok (readied w n caps)
  else
    match w.conn.tlsMode with
    | .none => .ok (readied w n caps)
    | .opportunistic =>
        if !caps.hasStarttls then .ok (readied w n caps)
        else sendStarttls env (capabilitiesOf w n caps) nowMs
    | .explicit =>
        if !caps.hasStarttls then
          (capabilitiesOf w n caps).failWith .error
            "STARTTLS required but not offered by the server"
        else sendStarttls env (capabilitiesOf w n caps) nowMs
    | .implicit => .error .ehloModeImplicit

/-- The line logged about the certificate once the handshake is done. -/
def certLine (info : TlsCertInfo) : LogEvent × Bytes :=
  if info.validated then (.tlsOk, info.subject) else (.tlsCertWarning, info.failureReason)

/-- The line logged about the certificate if this call on the engine finishes the handshake. -/
def handshakeLine (tls : E.State) (input : Bytes) : LogEvent × Bytes :=
  certLine (E.certInfo (E.handshake tls input readBufSize).next)

/-- The world behind `SMTP_TLS_OK`. -/
def secured (w : World E) (tls : E.State) (input : Bytes) : World E :=
  ((driveHandshake w tls input).1.record
      (.log (handshakeLine tls input).1 (handshakeLine tls input).2)).modify fun c =>
    { c with readLen := 0 }

/-- What a completion feeds the handshake. -/
def handshakeInput (w : World E) (result : IoResult) : Bytes :=
  if result.kind = .read then w.conn.cipherBuf.slice 0 result.bytesTransferred else []

/-- Why a handler gives a connection up. -/
inductive Refused (w : World E) (result : IoResult) : Prop where
  | failed (h : result.result ≠ 0)
  | closed (hstate : awaitsReply w.conn.state = true
        ∨ w.conn.state = .tlsHandshaking ∧ result.kind = .read)
      (hbytes : result.bytesTransferred = 0)
  | short (hstate : sendsCommand w.conn.state = true)
      (hbytes : result.bytesTransferred ≠ w.conn.wireWriteLen)
  | unfinished (hstate : awaitsReply w.conn.state = true) (hbytes : result.bytesTransferred ≠ 0)
      (hread : Reply.read (offered w result.bytesTransferred) maxReplyLines = .incomplete)
      (hroom : readBufSize ≤ w.conn.readLen + result.bytesTransferred)
  | malformed (hstate : awaitsReply w.conn.state = true) (hbytes : result.bytesTransferred ≠ 0)
      (hincomplete :
        Reply.read (offered w result.bytesTransferred) maxReplyLines ≠ .incomplete)
      (hok : ∀ reply, Reply.read (offered w result.bytesTransferred) maxReplyLines ≠ .ok reply)
  | negative (reply : Reply) (hbytes : result.bytesTransferred ≠ 0)
      (hread : Reply.read (offered w result.bytesTransferred) maxReplyLines = .ok reply)
      (hnegative : Reply.positive reply.code = false)
      (hstate : w.conn.state = .waitBanner ∧ containsCrOrLf (greetingText w reply) = false
        ∨ w.conn.state = .waitStarttlsReply)
  | unoffered (hstate : w.conn.state = .waitEhlo) (hbytes : result.bytesTransferred ≠ 0)
      (reply : Reply) (caps : Capabilities)
      (hparse : Cap.parseEhloResponse w.caps (offered w result.bytesTransferred) maxReplyLines
        = some (.ok reply, caps))
      (htls : w.conn.tls = none) (hmode : w.conn.tlsMode = .explicit)
      (hoffered : caps.hasStarttls = false)

/-- The exits of the handlers that go on with the protocol, each with the state it is taken in. -/
inductive Proceeds (env : Env E) (identity : Bytes) (nowMs : Nat) (w : World E)
    (result : IoResult) : World E → Prop where
  | connected (hstate : w.conn.state = .connecting) (hmode : w.conn.tlsMode ≠ .implicit) :
      Proceeds env identity nowMs w result
        (reads env ((w.record (.log .connected (bytes "connected"))).modify fun c =>
          { c with
            state := .waitBanner
            deadlineMs := addMs nowMs greetingTimeoutMs
            readLen := 0 }))
  | connectedImplicit {w' : World E} (hstate : w.conn.state = .connecting)
      (hmode : w.conn.tlsMode = .implicit)
      (hbegins : Begins env nowMs (w.record (.log .connected (bytes "connected"))) w') :
      Proceeds env identity nowMs w result w'
  | waits (hstate : awaitsReply w.conn.state = true) (hbytes : result.bytesTransferred ≠ 0)
      (hread : Reply.read (offered w result.bytesTransferred) maxReplyLines = .incomplete)
      (hroom : w.conn.readLen + result.bytesTransferred < readBufSize) :
      Proceeds env identity nowMs w result (reads env (grown w result.bytesTransferred))
  | greeted {w' : World E} (hstate : w.conn.state = .waitBanner)
      (hbytes : result.bytesTransferred ≠ 0) (reply : Reply)
      (hread : Reply.read (offered w result.bytesTransferred) maxReplyLines = .ok reply)
      (hclean : containsCrOrLf (greetingText w reply) = false)
      (hpositive : Reply.positive reply.code = true)
      (hsends : SendsEhlo env identity nowMs (greetedBy w result.bytesTransferred reply) w') :
      Proceeds env identity nowMs w result w'
  | ehloSent (hstate : w.conn.state = .sendingEhlo)
      (hfull : result.bytesTransferred = w.conn.wireWriteLen) :
      Proceeds env identity nowMs w result
        (reads env (w.modify fun c => { c with state := .waitEhlo, readLen := 0 }))
  | ready (hstate : w.conn.state = .waitEhlo) (hbytes : result.bytesTransferred ≠ 0)
      (reply : Reply) (caps : Capabilities)
      (hparse : Cap.parseEhloResponse w.caps (offered w result.bytesTransferred) maxReplyLines
        = some (.ok reply, caps))
      (hmode : w.conn.tls.isSome = true ∨ w.conn.tls = none ∧ (w.conn.tlsMode = .none
        ∨ w.conn.tlsMode = .opportunistic ∧ caps.hasStarttls = false)) :
      Proceeds env identity nowMs w result (readied w result.bytesTransferred caps)
  | starttlsWanted {w' : World E} (hstate : w.conn.state = .waitEhlo)
      (hbytes : result.bytesTransferred ≠ 0) (reply : Reply) (caps : Capabilities)
      (hparse : Cap.parseEhloResponse w.caps (offered w result.bytesTransferred) maxReplyLines
        = some (.ok reply, caps))
      (htls : w.conn.tls = none)
      (hmode : w.conn.tlsMode = .opportunistic ∨ w.conn.tlsMode = .explicit)
      (hoffered : caps.hasStarttls = true)
      (hsubmits : SubmitsCommand env
        (starttlsBuilt (capabilitiesOf w result.bytesTransferred caps) nowMs) starttlsLine w') :
      Proceeds env identity nowMs w result w'
  | starttlsSent (hstate : w.conn.state = .sendingStarttls)
      (hfull : result.bytesTransferred = w.conn.wireWriteLen) :
      Proceeds env identity nowMs w result
        (reads env (w.modify fun c => { c with state := .waitStarttlsReply, readLen := 0 }))
  | starttlsAccepted {w' : World E} (hstate : w.conn.state = .waitStarttlsReply)
      (hbytes : result.bytesTransferred ≠ 0) (reply : Reply)
      (hread : Reply.read (offered w result.bytesTransferred) maxReplyLines = .ok reply)
      (hpositive : Reply.positive reply.code = true)
      (hbegins : Begins env nowMs (grown w result.bytesTransferred) w') :
      Proceeds env identity nowMs w result w'
  | drives {w' : World E} (hstate : w.conn.state = .tlsHandshaking) (tls : E.State)
      (htls : w.conn.tls = some tls)
      (hstatus : (E.handshake tls (handshakeInput w result) readBufSize).status ≠ .ok)
      (hbytes : result.kind = .read → result.bytesTransferred ≠ 0)
      (hdrives : Drives env w tls (handshakeInput w result) w') :
      Proceeds env identity nowMs w result w'
  | securedFirst (hstate : w.conn.state = .tlsHandshaking) (tls : E.State)
      (htls : w.conn.tls = some tls)
      (hstatus : (E.handshake tls (handshakeInput w result) readBufSize).status = .ok)
      (hbytes : result.kind = .read → result.bytesTransferred ≠ 0)
      (hclean : containsCrOrLf (handshakeLine tls (handshakeInput w result)).2 = false)
      (hbanner : w.conn.bannerSeen = false) :
      Proceeds env identity nowMs w result
        (reads env ((secured w tls (handshakeInput w result)).modify fun c =>
          { c with state := .waitBanner, deadlineMs := addMs nowMs greetingTimeoutMs }))
  | securedAgain {w' : World E} (hstate : w.conn.state = .tlsHandshaking) (tls : E.State)
      (htls : w.conn.tls = some tls)
      (hstatus : (E.handshake tls (handshakeInput w result) readBufSize).status = .ok)
      (hbytes : result.kind = .read → result.bytesTransferred ≠ 0)
      (hclean : containsCrOrLf (handshakeLine tls (handshakeInput w result)).2 = false)
      (hbanner : w.conn.bannerSeen = true)
      (hsends : SendsEhlo env identity nowMs
        { secured w tls (handshakeInput w result) with caps := Cap.init } w') :
      Proceeds env identity nowMs w result w'

/-- A handler that returns has refused the connection or has gone on with it. -/
inductive Handled (env : Env E) (identity : Bytes) (nowMs : Nat) (w : World E)
    (result : IoResult) (w' : World E) : Prop where
  | refuses (hwhy : Refused w result) (hquits : Quits w w')
  | proceeds (hresult : result.result = 0) (hproceeds : Proceeds env identity nowMs w result w')

variable {env : Env E} {identity : Bytes} {nowMs : Nat} {w w' : World E} {result : IoResult}

theorem handleConnectCompletion_ok (hstate : w.conn.state = .connecting)
    (h : handleConnectCompletion env w result nowMs = .ok w') :
    Handled env identity nowMs w result w' := by
  unfold handleConnectCompletion at h
  by_cases hresult : result.result = 0
  swap
  · rw [if_pos hresult] at h
    exact .refuses (.failed hresult) (.of_failWith_self h)
  rw [if_neg (not_not.mpr hresult)] at h
  obtain ⟨-, -, h⟩ := logEmit_bind_ok.mp h
  by_cases hmode : w.conn.tlsMode = .implicit
  · rw [if_pos (by exact hmode)] at h
    exact .proceeds hresult (.connectedImplicit hstate hmode (beginTlsHandshake_ok h))
  · rw [if_neg (by exact hmode)] at h
    dsimp only at h
    rw [submitReadBytes_eq] at h
    cases Except.ok.inj h
    exact .proceeds hresult (.connected hstate hmode)

/-- How every handler of a read completion begins. -/
theorem Handled.of_read {lost closed : String} {rest : Except Assertion (World E)}
    (hawaits : awaitsReply w.conn.state = true)
    (h : (if result.result ≠ 0 then w.failWith .error lost
      else if result.bytesTransferred = 0 then w.failWith .error closed else rest) = .ok w')
    (hrest : result.result = 0 → result.bytesTransferred ≠ 0 → rest = .ok w' →
      Handled env identity nowMs w result w') : Handled env identity nowMs w result w' := by
  by_cases hresult : result.result = 0
  swap
  · rw [if_pos hresult] at h
    exact .refuses (.failed hresult) (.of_failWith_self h)
  by_cases hbytes : result.bytesTransferred = 0
  · rw [if_neg (not_not.mpr hresult), if_pos hbytes] at h
    exact .refuses (.closed (.inl hawaits) hbytes) (.of_failWith_self h)
  · rw [if_neg (not_not.mpr hresult), if_neg hbytes] at h
    exact hrest hresult hbytes h

/-- What every handler of a read completion makes of an unfinished reply. -/
theorem Handled.of_incomplete {detail : String} (hawaits : awaitsReply w.conn.state = true)
    (hresult : result.result = 0) (hbytes : result.bytesTransferred ≠ 0)
    (hread : Reply.read (offered w result.bytesTransferred) maxReplyLines = .incomplete)
    (h : (if readBufSize ≤ (grown w result.bytesTransferred).conn.readLen then
        (grown w result.bytesTransferred).failWith .error detail
      else .ok (orFail (submitReadBytes env (grown w result.bytesTransferred)))) = .ok w') :
    Handled env identity nowMs w result w' := by
  by_cases hroom : readBufSize ≤ w.conn.readLen + result.bytesTransferred
  · rw [if_pos (by exact hroom)] at h
    exact .refuses (.unfinished hawaits hbytes hread hroom)
      (.of_failWith [] h rfl rfl rfl rfl (by simp [grown]))
  · rw [if_neg (by exact hroom), submitReadBytes_eq] at h
    cases Except.ok.inj h
    exact .proceeds hresult (.waits hawaits hbytes hread (Nat.lt_of_not_le hroom))

theorem handleBannerRead_ok (hstate : w.conn.state = .waitBanner)
    (h : handleBannerRead env w result identity nowMs = .ok w') :
    Handled env identity nowMs w result w' := by
  have hawaits : awaitsReply w.conn.state = true := by rw [hstate]; rfl
  unfold handleBannerRead at h
  apply Handled.of_read hawaits h
  intro hresult hbytes h
  dsimp only at h
  split at h
  · rename_i hread
    exact .of_incomplete hawaits hresult hbytes hread h
  · rename_i reply hread
    obtain ⟨-, hclean, h⟩ := logEmit_bind_ok.mp h
    cases hpositive : Reply.positive reply.code with
    | false =>
        rw [hpositive] at h
        exact .refuses (.negative reply hbytes hread hpositive (.inl ⟨hstate, hclean⟩))
          (.of_failWith [(.reply, greetingText w reply)] h rfl rfl rfl rfl (by simp; rfl))
    | true =>
        rw [hpositive] at h
        exact .proceeds hresult
          (.greeted hstate hbytes reply hread hclean hpositive (sendEhlo_ok h))
  · rename_i hincomplete hok
    exact .refuses (.malformed hawaits hbytes hincomplete hok)
      (.of_failWith [] h rfl rfl rfl rfl (by simp))

theorem handleEhloWriteCompletion_ok (hstate : w.conn.state = .sendingEhlo)
    (h : handleEhloWriteCompletion env w result = .ok w') :
    Handled env identity nowMs w result w' := by
  unfold handleEhloWriteCompletion at h
  by_cases hresult : result.result = 0
  swap
  · rw [if_pos hresult] at h
    exact .refuses (.failed hresult) (.of_failWith_self h)
  by_cases hfull : result.bytesTransferred = w.conn.wireWriteLen
  swap
  · rw [if_neg (not_not.mpr hresult), if_pos hfull] at h
    exact .refuses (.short (by rw [hstate]; rfl) hfull) (.of_failWith_self h)
  rw [if_neg (not_not.mpr hresult), if_neg (not_not.mpr hfull)] at h
  dsimp only at h
  rw [submitReadBytes_eq] at h
  cases Except.ok.inj h
  exact .proceeds hresult (.ehloSent hstate hfull)

theorem sendStarttls_ok (h : sendStarttls env w nowMs = .ok w') :
    SubmitsCommand env (starttlsBuilt w nowMs) starttlsLine w' := by
  unfold sendStarttls at h
  obtain ⟨-, -, h⟩ := logEmit_bind_ok.mp h
  exact submitWriteBytes_ok (slice_buildStarttlsCommand _) h

theorem handleEhloRead_ok (hstate : w.conn.state = .waitEhlo)
    (h : handleEhloRead env w result nowMs = .ok w') :
    Handled env identity nowMs w result w' := by
  have hawaits : awaitsReply w.conn.state = true := by rw [hstate]; rfl
  unfold handleEhloRead at h
  apply Handled.of_read hawaits h
  intro hresult hbytes h
  dsimp only at h
  split at h
  · exact absurd h (by simp)
  · rename_i hparse
    have hread := Cap.read_of_parseEhloResponse hparse
    exact .of_incomplete hawaits hresult hbytes hread h
  · rename_i reply caps hparse
    obtain ⟨-, -, h⟩ := logEmit_bind_ok.mp h
    change afterEhlo env w result.bytesTransferred caps nowMs = Except.ok w' at h
    unfold afterEhlo at h
    cases htls : w.conn.tls with
    | some tls =>
        rw [htls] at h
        cases Except.ok.inj h
        exact .proceeds hresult
          (.ready hstate hbytes reply caps hparse (.inl (by rw [htls]; rfl)))
    | none =>
        rw [htls] at h
        cases hmode : w.conn.tlsMode <;> rw [hmode] at h
        case none =>
          cases Except.ok.inj h
          exact .proceeds hresult
            (.ready hstate hbytes reply caps hparse (.inr ⟨htls, .inl hmode⟩))
        case opportunistic =>
          cases hoffered : caps.hasStarttls with
          | false =>
              rw [hoffered] at h
              cases Except.ok.inj h
              exact .proceeds hresult
                (.ready hstate hbytes reply caps hparse (.inr ⟨htls, .inr ⟨hmode, hoffered⟩⟩))
          | true =>
              rw [hoffered] at h
              exact .proceeds hresult (.starttlsWanted hstate hbytes reply caps hparse htls
                (.inl hmode) hoffered (sendStarttls_ok h))
        case explicit =>
          cases hoffered : caps.hasStarttls with
          | false =>
              rw [hoffered] at h
              exact .refuses (.unoffered hstate hbytes reply caps hparse htls hmode hoffered)
                (.of_failWith [(.capabilities, Cap.formatSummary caps 256)] h rfl rfl rfl rfl
                  (by simp [capabilitiesOf, grown]))
          | true =>
              rw [hoffered] at h
              exact .proceeds hresult (.starttlsWanted hstate hbytes reply caps hparse htls
                (.inr hmode) hoffered (sendStarttls_ok h))
        case implicit => exact absurd h (by simp)
  · rename_i verdict hincomplete hok hparse
    have hread : Reply.read (offered w result.bytesTransferred) maxReplyLines = verdict.1 :=
      Cap.read_of_parseEhloResponse hparse
    refine .refuses (.malformed hawaits hbytes ?_ ?_) (.of_failWith [] h rfl rfl rfl rfl (by simp))
    · rw [hread]
      exact fun heq => hincomplete _ (by rw [← heq])
    · intro reply
      rw [hread]
      exact fun heq => hok reply _ (by rw [← heq])

theorem handleStarttlsWriteCompletion_ok (hstate : w.conn.state = .sendingStarttls)
    (h : handleStarttlsWriteCompletion env w result = .ok w') :
    Handled env identity nowMs w result w' := by
  unfold handleStarttlsWriteCompletion at h
  by_cases hresult : result.result = 0
  swap
  · rw [if_pos (.inl hresult)] at h
    exact .refuses (.failed hresult) (.of_failWith_self h)
  by_cases hfull : result.bytesTransferred = w.conn.wireWriteLen
  swap
  · rw [if_pos (.inr hfull)] at h
    exact .refuses (.short (by rw [hstate]; rfl) hfull) (.of_failWith_self h)
  rw [if_neg (by simp [hresult, hfull])] at h
  dsimp only at h
  rw [submitReadBytes_eq] at h
  cases Except.ok.inj h
  exact .proceeds hresult (.starttlsSent hstate hfull)

theorem handleStarttlsReply_ok (hstate : w.conn.state = .waitStarttlsReply)
    (h : handleStarttlsReply env w result nowMs = .ok w') :
    Handled env identity nowMs w result w' := by
  have hawaits : awaitsReply w.conn.state = true := by rw [hstate]; rfl
  unfold handleStarttlsReply at h
  apply Handled.of_read hawaits h
  intro hresult hbytes h
  dsimp only at h
  split at h
  · rename_i hread
    exact .of_incomplete hawaits hresult hbytes hread h
  · rename_i reply hread
    cases hpositive : Reply.positive reply.code with
    | false =>
        rw [hpositive] at h
        exact .refuses (.negative reply hbytes hread hpositive (.inr hstate))
          (.of_failWith [] h rfl rfl rfl rfl (by simp))
    | true =>
        rw [hpositive] at h
        exact .proceeds hresult
          (.starttlsAccepted hstate hbytes reply hread hpositive (beginTlsHandshake_ok h))
  · rename_i hincomplete hok
    exact .refuses (.malformed hawaits hbytes hincomplete hok)
      (.of_failWith [] h rfl rfl rfl rfl (by simp))

theorem finishTlsHandshake_ok {tls : E.State}
    (h : finishTlsHandshake env w tls identity nowMs = .ok w') :
    containsCrOrLf (certLine (E.certInfo tls)).2 = false ∧
      (let logged := (w.record (.log (certLine (E.certInfo tls)).1
          (certLine (E.certInfo tls)).2)).modify fun c => { c with readLen := 0 }
        if !w.conn.bannerSeen then
          Except.ok (orFail (submitReadBytes env (logged.modify fun c =>
            { c with state := .waitBanner, deadlineMs := addMs nowMs greetingTimeoutMs })))
        else sendEhlo env { logged with caps := Cap.init } identity nowMs) = .ok w' := by
  unfold finishTlsHandshake at h
  unfold certLine
  cases hvalidated : (E.certInfo tls).validated <;> simp only [hvalidated] at h
  all_goals
    obtain ⟨-, hclean, h⟩ := logEmit_bind_ok.mp h
    exact ⟨hclean, h⟩

theorem handleTlsHandshake_ok (hstate : w.conn.state = .tlsHandshaking)
    (h : handleTlsHandshake env w result identity nowMs = .ok w') :
    Handled env identity nowMs w result w' := by
  unfold handleTlsHandshake at h
  by_cases hresult : result.result = 0
  swap
  · rw [if_pos hresult] at h
    exact .refuses (.failed hresult) (.of_failWith_self h)
  by_cases hclosed : result.kind = .read ∧ result.bytesTransferred = 0
  · rw [if_neg (not_not.mpr hresult), if_pos hclosed] at h
    exact .refuses (.closed (.inr ⟨hstate, hclosed.1⟩) hclosed.2) (.of_failWith_self h)
  rw [if_neg (not_not.mpr hresult), if_neg hclosed] at h
  have hbytes : result.kind = .read → result.bytesTransferred ≠ 0 := not_and.mp hclosed
  split at h
  · exact absurd h (by simp)
  rename_i tls htls
  dsimp only at h
  split at h <;> rename_i hstatus <;>
    change (E.handshake tls (handshakeInput w result) readBufSize).status = _ at hstatus
  · cases Except.ok.inj h
    exact .proceeds hresult
      (.drives hstate tls htls (by simp [hstatus]) hbytes (drives_submitHandshakeOutput hstatus))
  · cases Except.ok.inj h
    exact .proceeds hresult
      (.drives hstate tls htls (by simp [hstatus]) hbytes (.wantRead hstatus))
  · exact .proceeds hresult (.drives hstate tls htls (by simp [hstatus]) hbytes
      (.refused (by simp [hstatus]) (.of_failWith_self h)))
  · obtain ⟨hclean, h⟩ := finishTlsHandshake_ok h
    cases hbanner : w.conn.bannerSeen with
    | false =>
        rw [if_pos (by simpa [driveHandshake] using hbanner), submitReadBytes_eq] at h
        cases Except.ok.inj h
        exact .proceeds hresult (.securedFirst hstate tls htls hstatus hbytes hclean hbanner)
    | true =>
        rw [if_neg (by simpa [driveHandshake] using hbanner)] at h
        exact .proceeds hresult
          (.securedAgain hstate tls htls hstatus hbytes hclean hbanner (sendEhlo_ok h))

/-! ### One completion -/

theorem dispatch_ok {plain : IoResult} (hplain : plain = result ∨ result.kind = .read)
    (h : dispatch env w result plain identity nowMs = .ok w') :
    Handled env identity nowMs w plain w' := by
  unfold dispatch at h
  split at h <;> rename_i hstate
  · split at h
    · rename_i hkind
      obtain rfl : plain = result := hplain.resolve_right (by simp [hkind])
      exact handleConnectCompletion_ok hstate h
    · exact absurd h (by simp)
  · split at h
    · exact handleBannerRead_ok hstate h
    · exact absurd h (by simp)
  · split at h
    · rename_i hkind
      obtain rfl : plain = result := hplain.resolve_right (by simp [hkind])
      exact handleEhloWriteCompletion_ok hstate h
    · exact absurd h (by simp)
  · split at h
    · exact handleEhloRead_ok hstate h
    · exact absurd h (by simp)
  · split at h
    · rename_i hkind
      obtain rfl : plain = result := hplain.resolve_right (by simp [hkind])
      exact handleStarttlsWriteCompletion_ok hstate h
    · exact absurd h (by simp)
  · split at h
    · exact handleStarttlsReply_ok hstate h
    · exact absurd h (by simp)
  · exact absurd h (by simp)

/-- What the engine makes of the first `n` bytes of `cipher_buf`. -/
def decryption (w : World E) (tls : E.State) (n : Nat) : TlsOutcome E.State :=
  E.decrypt tls (w.conn.cipherBuf.slice 0 n) (readBufSize - w.conn.readLen)

/-- The world behind the call to `smtp_tls_decrypt`. -/
def decrypted (w : World E) (tls : E.State) (n : Nat) : World E :=
  (w.modify fun c =>
      { c with
        tls := some (decryption w tls n).next
        readBuf := c.readBuf.blit c.readLen (decryption w tls n).out }).record
    (.tlsDecrypt (w.conn.cipherBuf.slice 0 n) (readBufSize - w.conn.readLen)
      (decryption w tls n).status (decryption w tls n).out)

/-- The completion the handlers are shown in place of the raw one. -/
def decryptedResult (w : World E) (tls : E.State) (result : IoResult) : IoResult :=
  { result with bytesTransferred := (decryption w tls result.bytesTransferred).out.length }

/-- The TLS layer of `smtp_connection_on_io` comes into play. -/
structure Decrypts (w : World E) (result : IoResult) (tls : E.State) : Prop where
  state : w.conn.state ≠ .tlsHandshaking
  tls : w.conn.tls = some tls
  kind : result.kind = .read
  result : result.result = 0

/-- The exits of `smtp_connection_on_io`. -/
inductive OnIo (env : Env E) (identity : Bytes) (nowMs : Nat) (w : World E)
    (result : IoResult) : World E → Prop where
  | direct {w' : World E} (hraw : w.conn.state = .tlsHandshaking ∨ w.conn.tls = none
        ∨ ¬ (result.kind = .read ∧ result.result = 0))
      (hhandled : Handled env identity nowMs w result w') : OnIo env identity nowMs w result w'
  | full {w' : World E} (tls : E.State) (hdecrypts : Decrypts w result tls)
      (hroom : readBufSize ≤ w.conn.readLen) (hquits : Quits w w') :
      OnIo env identity nowMs w result w'
  | undecided (tls : E.State) (hdecrypts : Decrypts w result tls)
      (hroom : w.conn.readLen < readBufSize) (hdone : E.handshakeDone tls = true)
      (hstatus : (decryption w tls result.bytesTransferred).status = .wantRead) :
      OnIo env identity nowMs w result (reads env (decrypted w tls result.bytesTransferred))
  | broken {w' : World E} (tls : E.State) (hdecrypts : Decrypts w result tls)
      (hroom : w.conn.readLen < readBufSize) (hdone : E.handshakeDone tls = true)
      (hstatus : (decryption w tls result.bytesTransferred).status = .error)
      (hquits : Quits (decrypted w tls result.bytesTransferred) w') :
      OnIo env identity nowMs w result w'
  | delivered {w' : World E} (tls : E.State) (hdecrypts : Decrypts w result tls)
      (hroom : w.conn.readLen < readBufSize) (hdone : E.handshakeDone tls = true)
      (hstatus : (decryption w tls result.bytesTransferred).status = .ok)
      (hhandled : Handled env identity nowMs (decrypted w tls result.bytesTransferred)
        (decryptedResult w tls result) w') : OnIo env identity nowMs w result w'

theorem decryptThenDispatch_ok {tls : E.State} (hdecrypts : Decrypts w result tls)
    (h : decryptThenDispatch env w tls result identity nowMs = .ok w') :
    OnIo env identity nowMs w result w' := by
  unfold decryptThenDispatch at h
  by_cases hroom : readBufSize ≤ w.conn.readLen
  · rw [if_pos hroom] at h
    exact .full tls hdecrypts hroom (.of_failWith_self h)
  rw [if_neg hroom] at h
  cases hdone : E.handshakeDone tls with
  | false =>
      rw [hdone] at h
      exact absurd h (by simp)
  | true =>
      rw [hdone, if_neg (by simp)] at h
      dsimp only at h
      split at h <;> rename_i hstatus
      · rw [submitReadBytes_eq] at h
        cases Except.ok.inj h
        exact .undecided tls hdecrypts (Nat.lt_of_not_le hroom) hdone hstatus
      · exact .broken tls hdecrypts (Nat.lt_of_not_le hroom) hdone hstatus (.of_failWith_self h)
      · exact absurd h (by simp)
      · exact .delivered tls hdecrypts (Nat.lt_of_not_le hroom) hdone hstatus
          (dispatch_ok (.inr hdecrypts.kind) h)

theorem onIo_ok (h : onIo env w result identity nowMs = .ok w') :
    OnIo env identity nowMs w result w' := by
  unfold onIo at h
  by_cases hstate : w.conn.state = .tlsHandshaking
  · rw [if_pos hstate] at h
    split at h
    · exact absurd h (by simp)
    · exact .direct (.inl hstate) (handleTlsHandshake_ok hstate h)
  rw [if_neg hstate] at h
  cases htls : w.conn.tls with
  | none =>
      rw [htls] at h
      exact .direct (.inr (.inl htls)) (dispatch_ok (.inl rfl) h)
  | some tls =>
      simp only [htls] at h
      by_cases hread : result.kind = .read ∧ result.result = 0
      · rw [if_pos hread] at h
        exact decryptThenDispatch_ok ⟨hstate, htls, hread.1, hread.2⟩ h
      · rw [if_neg hread] at h
        exact .direct (.inr (.inr hread)) (dispatch_ok (.inl rfl) h)

/-! ### One step of a run -/

/-- The world behind an expired deadline. -/
def expired (w : World E) : World E :=
  (w.record (.log .timeout (bytes "step deadline exceeded"))).modify fun c =>
    { c with state := .timedOut }

/-- **Inversion of a step.** -/
inductive Took (identity : Bytes) (w : World E) : Event E → World E → Prop where
  | completes {w' : World E} (env : Env E) (op : IoOp) (result : Int) (data : Bytes) (nowMs : Nat)
      (hlive : w.conn.state.terminal = false) (hdelivers : Delivers w op result data)
      (honIo : OnIo env identity nowMs (w.deliver op result data) ⟨op.kind, result, data.length⟩
        w') : Took identity w (.completion env op result data nowMs) w'
  | inTime (nowMs : Nat) (h : w.conn.state.terminal = true ∨ nowMs < w.conn.deadlineMs) :
      Took identity w (.timeout nowMs) w
  | expires (nowMs : Nat) (hlive : w.conn.state.terminal = false)
      (hdeadline : w.conn.deadlineMs ≤ nowMs) : Took identity w (.timeout nowMs) (expired w)
  | others (caps : Capabilities) : Took identity w (.others caps) { w with caps := caps }

theorem took_of_steps {event : Event E} (h : (machine E identity).Steps w event w') :
    Took identity w event w' := by
  obtain ⟨hadm, h⟩ := h
  cases event with
  | completion env op result data nowMs =>
      exact .completes env op result data nowMs hadm.1 hadm.2 (onIo_ok h)
  | timeout nowMs =>
      change checkTimeout w nowMs = .ok w' at h
      unfold checkTimeout at h
      cases hterminal : w.conn.state.terminal with
      | true =>
          rw [hterminal] at h
          cases Except.ok.inj h
          exact .inTime nowMs (.inl hterminal)
      | false =>
          rw [hterminal] at h
          by_cases hdeadline : w.conn.deadlineMs ≤ nowMs
          · rw [if_neg (by simp), if_pos hdeadline] at h
            obtain ⟨-, -, h⟩ := logEmit_bind_ok.mp h
            cases Except.ok.inj h
            exact .expires nowMs hterminal hdeadline
          · rw [if_neg (by simp), if_neg hdeadline] at h
            cases Except.ok.inj h
            exact .inTime nowMs (.inr (Nat.lt_of_not_le hdeadline))
  | others caps =>
      cases Except.ok.inj h
      exact .others caps

end Conn

end SmtpClient
