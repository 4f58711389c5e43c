import SmtpClient.Proof.Transitions

/-!
# What makes a call abort

The other half of the inversion: an assertion that fires names its cause. The texts the state
machine writes to the log itself contain no line break, so only the texts it was handed can.
-/

namespace SmtpClient

variable {E : TlsEngine}

namespace World

theorem logEmit_bind_error {w : World E} {event : LogEvent} {detail : Bytes}
    {f : World E → Except Assertion (World E)} {e : Assertion}
    (h : (w.logEmit event detail >>= f) = .error e) :
    e = .logActor ∧ containsCrOrLf w.conn.actor = true
      ∨ e = .logDetail ∧ containsCrOrLf detail = true
      ∨ f (w.record (.log event detail)) = .error e := by
  unfold logEmit at h
  cases hactor : containsCrOrLf w.conn.actor with
  | true =>
      rw [hactor] at h
      exact .inl ⟨(Except.error.inj h).symm, rfl⟩
  | false =>
      rw [hactor] at h
      cases hdetail : containsCrOrLf detail with
      | true =>
          rw [hdetail] at h
          exact .inr (.inl ⟨(Except.error.inj h).symm, rfl⟩)
      | false =>
          rw [hdetail] at h
          exact .inr (.inr h)

theorem failWith_error {w : World E} {event : LogEvent} {detail : String} {e : Assertion}
    (h : w.failWith event detail = .error e) (hclean : containsCrOrLf (bytes detail) = false) :
    e = .logActor ∧ containsCrOrLf w.conn.actor = true := by
  rcases logEmit_bind_error h with hactor | ⟨-, hdirty⟩ | h
  · exact hactor
  · exact absurd hdirty (by simp [hclean])
  · exact absurd h (by simp [pure, Except.pure])

end World

namespace Conn

open World

/-- Why a handler aborts. -/
inductive Aborts (identity : Bytes) (w : World E) (result : IoResult) : Assertion → Prop where
  | actor (h : containsCrOrLf w.conn.actor = true) : Aborts identity w result .logActor
  | greeting (hstate : w.conn.state = .waitBanner) (hresult : result.result = 0)
      (hbytes : result.bytesTransferred ≠ 0) (reply : Reply)
      (hread : Reply.read (offered w result.bytesTransferred) maxReplyLines = .ok reply)
      (h : containsCrOrLf (greetingText w reply) = true) : Aborts identity w result .logDetail
  | summary (reply : Reply) (caps : Capabilities)
      (hparse : Cap.parseEhloResponse w.caps (offered w result.bytesTransferred) maxReplyLines
        = some (.ok reply, caps))
      (h : containsCrOrLf (Cap.formatSummary caps 256) = true) : Aborts identity w result .logDetail
  | identity (hstate : w.conn.state = .waitBanner) (hbytes : result.bytesTransferred ≠ 0)
      (reply : Reply)
      (hread : Reply.read (offered w result.bytesTransferred) maxReplyLines = .ok reply)
      (hpositive : Reply.positive reply.code = true)
      (hfits : (ehloLine identity).length < writeBufSize) (h : containsCrOrLf identity = true) :
      Aborts identity w result .logDetail
  | identityAgain (hstate : w.conn.state = .tlsHandshaking)
      (hbytes : result.kind = .read → result.bytesTransferred ≠ 0)
      (h : containsCrOrLf identity = true) : Aborts identity w result .logDetail
  | certificate (hstate : w.conn.state = .tlsHandshaking) (hresult : result.result = 0)
      (hbytes : result.kind = .read → result.bytesTransferred ≠ 0) (tls : E.State)
      (htls : w.conn.tls = some tls)
      (hstatus : (E.handshake tls (handshakeInput w result) readBufSize).status = .ok)
      (h : containsCrOrLf (handshakeLine tls (handshakeInput w result)).2 = true) :
      Aborts identity w result .logDetail
  | reparse (hparse : Cap.parseEhloResponse w.caps (offered w result.bytesTransferred) maxReplyLines
      = none) : Aborts identity w result .capLineReparse
  | modeImplicit (hstate : w.conn.state = .waitEhlo) (htls : w.conn.tls = none)
      (hmode : w.conn.tlsMode = .implicit) : Aborts identity w result .ehloModeImplicit
  | ctxNull (hstate : w.conn.state = .connecting ∧ w.conn.tlsMode = .implicit
        ∨ w.conn.state = .waitStarttlsReply)
      (hctx : w.conn.tlsCtx = none) : Aborts identity w result .tlsCtxNull
  | tlsNull (hstate : w.conn.state = .tlsHandshaking) (htls : w.conn.tls = none) :
      Aborts identity w result .tlsNull
  | encryptHandshakeDone (hstate : w.conn.state = .waitBanner) (tls : E.State)
      (htls : w.conn.tls = some tls) (hdone : E.handshakeDone tls = false) :
      Aborts identity w result .encryptHandshakeDone

variable {env : Env E} {identity : Bytes} {nowMs : Nat} {w : World E} {result : IoResult}
  {e : Assertion}

theorem Aborts.of_failWith {w₁ : World E} {event : LogEvent} {detail : String}
    (h : w₁.failWith event detail = .error e) (hclean : containsCrOrLf (bytes detail) = false)
    (hsettings : w₁.conn.settings = w.conn.settings) : Aborts identity w result e := by
  obtain ⟨rfl, hactor⟩ := failWith_error h hclean
  rw [show w₁.conn.actor = w.conn.actor from congrArg Settings.actor hsettings] at hactor
  exact .actor hactor

/-- What every handler of a read completion makes of an unfinished reply. -/
theorem Aborts.of_incomplete {detail : String} (hclean : containsCrOrLf (bytes detail) = false)
    (h : (if readBufSize ≤ (grown w result.bytesTransferred).conn.readLen then
        (grown w result.bytesTransferred).failWith .error detail
      else .ok (orFail (submitReadBytes env (grown w result.bytesTransferred)))) = .error e) :
    Aborts identity w result e := by
  split at h
  · exact .of_failWith h hclean rfl
  · cases h

theorem submitWriteBytes_error {len : Nat}
    (h : (submitWriteBytes env w len >>= fun submitted => pure (orFail submitted)) = .error e) :
    e = .encryptHandshakeDone
      ∧ ∃ tls, w.conn.tls = some tls ∧ E.handshakeDone tls = false := by
  unfold submitWriteBytes at h
  cases htls : w.conn.tls with
  | none =>
      simp only [htls] at h
      exact absurd h (by simp [bind, Except.bind, pure, Except.pure])
  | some tls =>
      simp only [htls] at h
      cases hdone : E.handshakeDone tls with
      | false =>
          rw [hdone] at h
          exact ⟨(Except.error.inj h).symm, tls, rfl, hdone⟩
      | true =>
          rw [hdone] at h
          by_cases hstatus :
              (E.encrypt tls (w.conn.writeBuf.slice 0 len) readBufSize).status = .wantWrite <;>
            exact absurd h (by simp [hstatus, bind, Except.bind, pure, Except.pure])

theorem sendEhlo_error (h : sendEhlo env w identity nowMs = .error e) :
    e = .logActor ∧ containsCrOrLf w.conn.actor = true
      ∨ (e = .logDetail ∧ (ehloLine identity).length < writeBufSize
        ∧ containsCrOrLf identity = true)
      ∨ e = .encryptHandshakeDone
        ∧ ∃ tls, w.conn.tls = some tls ∧ E.handshakeDone tls = false := by
  unfold sendEhlo at h
  by_cases hlen : (buildEhloCommand w.conn.writeBuf identity).2 = 0
  · rw [if_pos (by exact hlen)] at h
    have hactor := failWith_error h (by decide +kernel)
    exact .inl hactor
  · rw [if_neg (by exact hlen)] at h
    rcases logEmit_bind_error h with hactor | hdetail | h
    · exact .inl hactor
    · have hfits : (ehloLine identity).length < writeBufSize := by
        by_contra hlong
        exact hlen (if_pos (Nat.le_of_not_lt hlong))
      exact .inr (.inl ⟨hdetail.1, hfits, hdetail.2⟩)
    · obtain ⟨rfl, tls, htls, hdone⟩ := submitWriteBytes_error h
      exact .inr (.inr ⟨rfl, tls, htls, hdone⟩)

theorem beginTlsHandshake_error {detail : String} (hclean : containsCrOrLf (bytes detail) = false)
    (h : beginTlsHandshake env w nowMs detail = .error e) :
    e = .logActor ∧ containsCrOrLf w.conn.actor = true
      ∨ e = .tlsCtxNull ∧ w.conn.tlsCtx = none := by
  unfold beginTlsHandshake at h
  split at h
  · rename_i hctx
    exact .inr ⟨(Except.error.inj h).symm, hctx⟩
  split at h
  · have hactor := failWith_error h (by decide +kernel)
    exact .inl hactor
  rename_i tls hcreate
  rcases logEmit_bind_error h with hactor | ⟨-, hdirty⟩ | h
  · exact .inl hactor
  · exact absurd hdirty (by simp [hclean])
  dsimp only at h
  split at h
  · exact absurd h (by simp [pure, Except.pure])
  · exact absurd h (by simp [pure, Except.pure])
  · have hactor := failWith_error h (by decide +kernel)
    exact .inl hactor

theorem handleConnectCompletion_error (hstate : w.conn.state = .connecting)
    (h : handleConnectCompletion env w result nowMs = .error e) : Aborts identity w result e := by
  unfold handleConnectCompletion at h
  split at h
  · exact .of_failWith h (by decide +kernel) rfl
  rcases logEmit_bind_error h with ⟨rfl, hactor⟩ | ⟨-, hdirty⟩ | h
  · exact .actor hactor
  · exact absurd hdirty (by decide +kernel)
  by_cases hmode : w.conn.tlsMode = .implicit
  · rw [if_pos (by exact hmode)] at h
    rcases beginTlsHandshake_error (by decide +kernel) h with ⟨rfl, hactor⟩ | ⟨rfl, hctx⟩
    · exact .actor hactor
    · exact .ctxNull (.inl ⟨hstate, hmode⟩) hctx
  · rw [if_neg (by exact hmode)] at h
    exact absurd h (by simp [pure, Except.pure])

theorem handleBannerRead_error (hstate : w.conn.state = .waitBanner)
    (h : handleBannerRead env w result identity nowMs = .error e) :
    Aborts identity w result e := by
  unfold handleBannerRead at h
  by_cases hresult : result.result = 0
  swap
  · rw [if_pos hresult] at h
    exact .of_failWith h (by decide +kernel) rfl
  by_cases hbytes : result.bytesTransferred = 0
  · rw [if_neg (not_not.mpr hresult), if_pos hbytes] at h
    exact .of_failWith h (by decide +kernel) rfl
  rw [if_neg (not_not.mpr hresult), if_neg hbytes] at h
  dsimp only at h
  split at h
  · exact .of_incomplete (by decide +kernel) h
  · rename_i reply hread
    rcases logEmit_bind_error h with ⟨rfl, hactor⟩ | ⟨rfl, hdirty⟩ | h
    · exact .actor hactor
    · exact .greeting hstate hresult hbytes reply hread hdirty
    cases hpositive : Reply.positive reply.code with
    | false =>
        rw [hpositive] at h
        exact .of_failWith h (by decide +kernel) rfl
    | true =>
        rw [hpositive] at h
        rcases sendEhlo_error h with ⟨rfl, hactor⟩ | ⟨rfl, hfits, hdirty⟩ | ⟨rfl, tls, htls, hdone⟩
        · exact .actor hactor
        · exact .identity hstate hbytes reply hread hpositive hfits hdirty
        · exact .encryptHandshakeDone hstate tls htls hdone
  · exact .of_failWith h (by decide +kernel) rfl

theorem handleEhloWriteCompletion_error (h : handleEhloWriteCompletion env w result = .error e) :
    Aborts identity w result e := by
  unfold handleEhloWriteCompletion at h
  split at h
  · exact .of_failWith h (by decide +kernel) rfl
  split at h
  · exact .of_failWith h (by decide +kernel) rfl
  exact absurd h (by simp)

theorem sendStarttls_error (htls : w.conn.tls = none)
    (h : sendStarttls env w nowMs = .error e) :
    e = .logActor ∧ containsCrOrLf w.conn.actor = true := by
  unfold sendStarttls at h
  rcases logEmit_bind_error h with hactor | ⟨-, hdirty⟩ | h
  · exact hactor
  · exact absurd hdirty (by decide +kernel)
  · obtain ⟨-, tls, hsome, -⟩ := submitWriteBytes_error h
    exact absurd hsome (by simp [htls])

theorem handleEhloRead_error (hstate : w.conn.state = .waitEhlo)
    (h : handleEhloRead env w result nowMs = .error e) : Aborts identity w result e := by
  unfold handleEhloRead at h
  split at h
  · exact .of_failWith h (by decide +kernel) rfl
  split at h
  · exact .of_failWith h (by decide +kernel) rfl
  dsimp only at h
  split at h
  · rename_i hparse
    cases Except.error.inj h
    exact .reparse hparse
  · exact .of_incomplete (by decide +kernel) h
  · rename_i reply caps hparse
    rcases logEmit_bind_error h with ⟨rfl, hactor⟩ | ⟨rfl, hdirty⟩ | h
    · exact .actor hactor
    · exact .summary reply caps hparse hdirty
    change afterEhlo env w result.bytesTransferred caps nowMs = Except.error e at h
    unfold afterEhlo at h
    cases htls : w.conn.tls with
    | some tls =>
        rw [htls] at h
        exact absurd h (by simp)
    | none =>
        rw [htls] at h
        have htls' (caps : Capabilities) :
            (capabilitiesOf w result.bytesTransferred caps).conn.tls = none := htls
        cases hmode : w.conn.tlsMode <;> rw [hmode] at h
        case none => exact absurd h (by simp)
        case implicit =>
          cases Except.error.inj h
          exact .modeImplicit hstate htls hmode
        case opportunistic =>
          cases hoffered : caps.hasStarttls with
          | false =>
              rw [hoffered] at h
              exact absurd h (by simp)
          | true =>
              rw [hoffered] at h
              obtain ⟨rfl, hactor⟩ := sendStarttls_error (htls' caps) h
              exact .actor hactor
        case explicit =>
          cases hoffered : caps.hasStarttls with
          | false =>
              rw [hoffered] at h
              exact .of_failWith h (by decide +kernel) rfl
          | true =>
              rw [hoffered] at h
              obtain ⟨rfl, hactor⟩ := sendStarttls_error (htls' caps) h
              exact .actor hactor
  · exact .of_failWith h (by decide +kernel) rfl

theorem handleStarttlsWriteCompletion_error
    (h : handleStarttlsWriteCompletion env w result = .error e) : Aborts identity w result e := by
  unfold handleStarttlsWriteCompletion at h
  split at h
  · exact .of_failWith h (by decide +kernel) rfl
  exact absurd h (by simp)

theorem handleStarttlsReply_error (hstate : w.conn.state = .waitStarttlsReply)
    (h : handleStarttlsReply env w result nowMs = .error e) : Aborts identity w result e := by
  unfold handleStarttlsReply at h
  split at h
  · exact .of_failWith h (by decide +kernel) rfl
  split at h
  · exact .of_failWith h (by decide +kernel) rfl
  dsimp only at h
  split at h
  · exact .of_incomplete (by decide +kernel) h
  · split at h
    · exact .of_failWith h (by decide +kernel) rfl
    · rcases beginTlsHandshake_error (by decide +kernel) h with ⟨rfl, hactor⟩ | ⟨rfl, hctx⟩
      · exact .actor hactor
      · exact .ctxNull (.inr hstate) hctx
  · exact .of_failWith h (by decide +kernel) rfl

theorem finishTlsHandshake_error {tls : E.State} (hdone : E.handshakeDone tls = true)
    (htls : w.conn.tls = some tls)
    (h : finishTlsHandshake env w tls identity nowMs = .error e) :
    e = .logActor ∧ containsCrOrLf w.conn.actor = true
      ∨ e = .logDetail ∧ (containsCrOrLf identity = true
        ∨ containsCrOrLf (certLine (E.certInfo tls)).2 = true) := by
  unfold finishTlsHandshake at h
  unfold certLine
  cases hvalidated : (E.certInfo tls).validated <;> simp only [hvalidated] at h
  all_goals
    rcases logEmit_bind_error h with hactor | ⟨rfl, hdirty⟩ | h
    · exact .inl hactor
    · exact .inr ⟨rfl, .inr hdirty⟩
    split at h
    · exact absurd h (by simp [pure, Except.pure])
    · rcases sendEhlo_error h with hactor | ⟨rfl, -, hdirty⟩ | ⟨rfl, tls', htls', hdone'⟩
      · exact .inl hactor
      · exact .inr ⟨rfl, .inl hdirty⟩
      · obtain rfl : tls = tls' := Option.some.inj (htls.symm.trans htls')
        exact absurd hdone' (by simp [hdone])

theorem handleTlsHandshake_error (hstate : w.conn.state = .tlsHandshaking)
    (h : handleTlsHandshake env w result identity nowMs = .error e) :
    Aborts identity w result e := by
  unfold handleTlsHandshake at h
  by_cases hresult : result.result = 0
  swap
  · rw [if_pos hresult] at h
    exact .of_failWith h (by decide +kernel) rfl
  by_cases hclosed : result.kind = .read ∧ result.bytesTransferred = 0
  · rw [if_neg (not_not.mpr hresult), if_pos hclosed] at h
    exact .of_failWith h (by decide +kernel) rfl
  rw [if_neg (not_not.mpr hresult), if_neg hclosed] at h
  have hbytes : result.kind = .read → result.bytesTransferred ≠ 0 := not_and.mp hclosed
  split at h
  · rename_i htls
    cases Except.error.inj h
    exact .tlsNull hstate htls
  rename_i tls htls
  dsimp only at h
  split at h
  · exact absurd h (by simp)
  · exact absurd h (by simp)
  · exact .of_failWith h (by decide +kernel) rfl
  · rename_i hstatus
    have hdone := E.handshakeDone_of_ok _ _ _ hstatus
    rcases finishTlsHandshake_error hdone rfl h with ⟨rfl, hactor⟩ | ⟨rfl, hdirty | hdirty⟩
    · exact .actor hactor
    · exact .identityAgain hstate hbytes hdirty
    · exact .certificate hstate hresult hbytes tls htls hstatus hdirty

/-- The kinds of completion a state has a handler for. -/
def expects : ConnState → IoKind → Bool
  | .connecting, .connect => true
  | .waitBanner, .read | .waitEhlo, .read | .waitStarttlsReply, .read => true
  | .sendingEhlo, .write | .sendingStarttls, .write => true
  | .tlsHandshaking, .read | .tlsHandshaking, .write => true
  | _, _ => false

theorem dispatch_error {plain : IoResult} (hplain : plain = result ∨ result.kind = .read)
    (hkind : plain.kind = result.kind) (hstate : w.conn.state ≠ .tlsHandshaking)
    (h : dispatch env w result plain identity nowMs = .error e) :
    Aborts identity w plain e
      ∨ e = .dispatch ∧ expects w.conn.state result.kind = false := by
  unfold dispatch at h
  split at h <;> rename_i hs
  · split at h
    · rename_i hconnect
      obtain rfl : plain = result := hplain.resolve_right (by simp [hconnect])
      exact .inl (handleConnectCompletion_error hs h)
    · cases Except.error.inj h
      cases hk : result.kind <;> simp_all [expects]
  · split at h
    · exact .inl (handleBannerRead_error hs h)
    · cases Except.error.inj h
      cases hk : result.kind <;> simp_all [expects]
  · split at h
    · rename_i hwrite
      obtain rfl : plain = result := hplain.resolve_right (by simp [hwrite])
      exact .inl (handleEhloWriteCompletion_error h)
    · cases Except.error.inj h
      cases hk : result.kind <;> simp_all [expects]
  · split at h
    · exact .inl (handleEhloRead_error hs h)
    · cases Except.error.inj h
      cases hk : result.kind <;> simp_all [expects]
  · split at h
    · rename_i hwrite
      obtain rfl : plain = result := hplain.resolve_right (by simp [hwrite])
      exact .inl (handleStarttlsWriteCompletion_error h)
    · cases Except.error.inj h
      cases hk : result.kind <;> simp_all [expects]
  · split at h
    · exact .inl (handleStarttlsReply_error hs h)
    · cases Except.error.inj h
      cases hk : result.kind <;> simp_all [expects]
  · cases Except.error.inj h
    cases hs' : w.conn.state <;> simp_all [expects]

/-- Why `smtp_connection_on_io` aborts. -/
inductive OnIoAborts (identity : Bytes) (w : World E) (result : IoResult) : Assertion → Prop where
  | handler {e : Assertion} (haborts : Aborts identity w result e)
      (hraw : w.conn.state = .tlsHandshaking ∨ w.conn.tls = none
        ∨ ¬ (result.kind = .read ∧ result.result = 0)) : OnIoAborts identity w result e
  | dispatch (h : expects w.conn.state result.kind = false) : OnIoAborts identity w result .dispatch
  | actor (h : containsCrOrLf w.conn.actor = true) : OnIoAborts identity w result .logActor
  | decryptHandshakeDone (tls : E.State) (hdecrypts : Decrypts w result tls)
      (hdone : E.handshakeDone tls = false) : OnIoAborts identity w result .decryptHandshakeDone
  | decryptStatus (tls : E.State) (hdecrypts : Decrypts w result tls)
      (hstatus : (decryption w tls result.bytesTransferred).status = .wantWrite) :
      OnIoAborts identity w result .decryptStatus
  | delivered {e : Assertion} (tls : E.State) (hdecrypts : Decrypts w result tls)
      (hroom : w.conn.readLen < readBufSize) (hdone : E.handshakeDone tls = true)
      (hstatus : (decryption w tls result.bytesTransferred).status = .ok)
      (haborts : Aborts identity (decrypted w tls result.bytesTransferred)
        (decryptedResult w tls result) e) : OnIoAborts identity w result e

theorem decryptThenDispatch_error {tls : E.State} (hdecrypts : Decrypts w result tls)
    (h : decryptThenDispatch env w tls result identity nowMs = .error e) :
    OnIoAborts identity w result e := by
  unfold decryptThenDispatch at h
  by_cases hroom : readBufSize ≤ w.conn.readLen
  · rw [if_pos hroom] at h
    obtain ⟨rfl, hactor⟩ := failWith_error h (by decide +kernel)
    exact .actor hactor
  rw [if_neg hroom] at h
  cases hdone : E.handshakeDone tls with
  | false =>
      rw [hdone] at h
      cases Except.error.inj h
      exact .decryptHandshakeDone tls hdecrypts hdone
  | true =>
      rw [hdone, if_neg (by simp)] at h
      dsimp only at h
      split at h <;> rename_i hstatus
      · exact absurd h (by simp)
      · obtain ⟨rfl, hactor⟩ := failWith_error h (by decide +kernel)
        exact .actor hactor
      · cases Except.error.inj h
        exact .decryptStatus tls hdecrypts hstatus
      · have hkind : (decryptedResult w tls result).kind = result.kind := rfl
        have hstate : (decrypted w tls result.bytesTransferred).conn.state ≠ .tlsHandshaking :=
          hdecrypts.state
        rcases dispatch_error (.inr hdecrypts.kind) hkind hstate h with haborts | ⟨rfl, hkind⟩
        · exact .delivered tls hdecrypts (Nat.lt_of_not_le hroom) hdone hstatus haborts
        · exact .dispatch hkind

theorem onIo_error (h : onIo env w result identity nowMs = .error e) :
    OnIoAborts identity w result e := by
  unfold onIo at h
  by_cases hstate : w.conn.state = .tlsHandshaking
  · rw [if_pos hstate] at h
    split at h
    · rename_i hkind
      cases Except.error.inj h
      exact .dispatch (by rw [hstate, hkind]; rfl)
    · exact .handler (handleTlsHandshake_error hstate h) (.inl hstate)
  rw [if_neg hstate] at h
  have hdirect (hraw : w.conn.tls = none ∨ ¬ (result.kind = .read ∧ result.result = 0))
      (h : dispatch env w result result identity nowMs = .error e) :
      OnIoAborts identity w result e := by
    rcases dispatch_error (.inl rfl) rfl hstate h with haborts | ⟨rfl, hkind⟩
    · exact .handler haborts (.inr hraw)
    · exact .dispatch hkind
  cases htls : w.conn.tls with
  | none =>
      rw [htls] at h
      exact hdirect (.inl htls) h
  | some tls =>
      simp only [htls] at h
      by_cases hread : result.kind = .read ∧ result.result = 0
      · rw [if_pos hread] at h
        exact decryptThenDispatch_error ⟨hstate, htls, hread.1, hread.2⟩ h
      · rw [if_neg hread] at h
        exact hdirect (.inr hread) h

end Conn

end SmtpClient
