import SmtpClient.Base.Ensures
import SmtpClient.Base.Labelled
import SmtpClient.Proof.ControlFlow

/-!
# A connection and its engine

The conversation of a connection with its TLS engine: created once, driven until the handshake is
done, asked for the certificate, and only then given plaintext and records, with every call on the
state the call before left. The trace of every run is such a conversation.
-/

namespace SmtpClient

variable {E : TlsEngine}

/-- How far a connection has come with its engine. -/
inductive Tunnel (E : TlsEngine) where
  | unbuilt
  | shaking (tls : E.State)
  | shaken (tls : E.State)
  | established (tls : E.State)

/-- The lines about the certificate. -/
def LogEvent.certLine : LogEvent → Bool
  | .tlsOk | .tlsCertWarning => true
  | _ => false

/-- The effects that leave the engine alone at any time. -/
def Effect.aside : Effect → Bool
  | .completion _ _ _ | .submitConnect _ | .submitRead _ | .tlsCreate _ _ false => true
  | .log event _ => !event.certLine
  | _ => false

namespace Conn

/-- One exchange of a conversation under these settings. -/
inductive Converses (settings : Settings E) : Tunnel E → Effect → Tunnel E → Prop where
  | aside {t : Tunnel E} {effect : Effect} (haside : effect.aside = true) :
      Converses settings t effect t
  | commands (plain wire : Bytes) (rc : Int) :
      Converses settings .unbuilt (.submitWrite (.command plain false) wire rc) .unbuilt
  | creates {tls : E.State} (ctx : E.Ctx) (entropy : E.Entropy) (hctx : settings.tlsCtx = some ctx)
      (hcreate : E.create ctx entropy settings.actor settings.tlsTrustWithoutValidation
        = some tls) :
      Converses settings .unbuilt
        (.tlsCreate settings.actor settings.tlsTrustWithoutValidation true) (.shaking tls)
  | shakes {tls : E.State} (input : Bytes)
      (hstatus : (E.handshake tls input readBufSize).status ≠ .ok) :
      Converses settings (.shaking tls)
        (.tlsHandshake input (E.handshake tls input readBufSize).status
          (E.handshake tls input readBufSize).out)
        (.shaking (E.handshake tls input readBufSize).next)
  | flight {tls : E.State} (wire : Bytes) (rc : Int) :
      Converses settings (.shaking tls) (.submitWrite .handshakeOutput wire rc) (.shaking tls)
  | finishes {tls : E.State} (input : Bytes)
      (hstatus : (E.handshake tls input readBufSize).status = .ok) :
      Converses settings (.shaking tls)
        (.tlsHandshake input (E.handshake tls input readBufSize).status
          (E.handshake tls input readBufSize).out)
        (.shaken (E.handshake tls input readBufSize).next)
  | judges {tls : E.State} :
      Converses settings (.shaken tls)
        (.log (certLine (E.certInfo tls)).1 (certLine (E.certInfo tls)).2) (.established tls)
  | encrypts {tls : E.State} (hdone : E.handshakeDone tls = true) (plain : Bytes) :
      Converses settings (.established tls)
        (.tlsEncrypt plain (E.encrypt tls plain readBufSize).status
          (E.encrypt tls plain readBufSize).out)
        (.established (E.encrypt tls plain readBufSize).next)
  | sends {tls : E.State} (plain wire : Bytes) (rc : Int) :
      Converses settings (.established tls) (.submitWrite (.command plain true) wire rc)
        (.established tls)
  | decrypts {tls : E.State} (hdone : E.handshakeDone tls = true) (input : Bytes) (room : Nat) :
      Converses settings (.established tls)
        (.tlsDecrypt input room (E.decrypt tls input room).status (E.decrypt tls input room).out)
        (.established (E.decrypt tls input room).next)

/-- What the exchanges so far have come to. -/
def Speaks (w : World E) (t : Tunnel E) : Prop :=
  Path (Converses w.conn.settings) .unbuilt w.trace t

/-- The channel of a connection that is not in its handshake. -/
def channel (conn : Connection E) : Tunnel E :=
  match conn.tls with
  | none => .unbuilt
  | some tls => .established tls

def tunnel (conn : Connection E) : Tunnel E :=
  match conn.tls with
  | none => .unbuilt
  | some tls => if conn.state = .tlsHandshaking then .shaking tls else .established tls

section Tunnels

variable {conn : Connection E} {tls : E.State}

theorem tunnel_of_none (htls : conn.tls = none) : tunnel conn = .unbuilt := by
  rw [tunnel, htls]

theorem tunnel_of_some (htls : conn.tls = some tls) (hstate : conn.state ≠ .tlsHandshaking) :
    tunnel conn = .established tls := by
  rw [tunnel, htls]
  exact if_neg hstate

theorem tunnel_of_shaking (htls : conn.tls = some tls) (hstate : conn.state = .tlsHandshaking) :
    tunnel conn = .shaking tls := by
  rw [tunnel, htls]
  exact if_pos hstate

theorem channel_of_none (htls : conn.tls = none) : channel conn = .unbuilt := by
  rw [channel, htls]

theorem channel_of_some (htls : conn.tls = some tls) : channel conn = .established tls := by
  rw [channel, htls]

theorem tunnel_eq_channel (hstate : conn.state ≠ .tlsHandshaking) :
    tunnel conn = channel conn := by
  cases htls : conn.tls with
  | none => rw [tunnel_of_none htls, channel_of_none htls]
  | some tls => rw [tunnel_of_some htls hstate, channel_of_some htls]

end Tunnels

/-- The trace is a conversation, and until the connection is given up it has come to the engine the
connection holds. -/
structure Spoken (w : World E) : Prop where
  speaks : ∃ t, Speaks w t
  live : w.conn.state ≠ .error → w.conn.state ≠ .timedOut → Speaks w (tunnel w.conn)

section Calls

variable {env : Env E} {identity : Bytes} {nowMs : Nat} {u : World E} {t t' : Tunnel E}
  {effect : Effect} {result : IoResult}

namespace Speaks

theorem record (h : Speaks u t) (hstep : Converses u.conn.settings t effect t') :
    Speaks (u.record effect) t' := h.snoc hstep

theorem aside (h : Speaks u t) (haside : effect.aside = true) : Speaks (u.record effect) t :=
  h.record (.aside haside)

theorem modify {f : Connection E → Connection E} (h : Speaks u t)
    (hsettings : (f u.conn).settings = u.conn.settings) : Speaks (u.modify f) t := by
  unfold Speaks
  rw [World.modify_conn, hsettings]
  exact h

/-- The capabilities buffer has no part in it. -/
theorem withCaps (h : Speaks u t) (caps : Capabilities) : Speaks { u with caps := caps } t := h

theorem fail (h : Speaks u t) : Spoken u.fail where
  speaks := ⟨t, h.modify rfl⟩
  live herror := absurd rfl herror

theorem spoken (h : Speaks u (channel u.conn)) (hstate : u.conn.state ≠ .tlsHandshaking) :
    Spoken u where
  speaks := ⟨_, h⟩
  live _ _ := by
    rw [tunnel_eq_channel hstate]
    exact h

theorem failWith {event : LogEvent} {detail : String} (h : Speaks u t)
    (haside : event.certLine = false) : Ensures (u.failWith event detail) Spoken where
  of_ok w' hw' := by
    rw [World.failWith_ok hw']
    exact (h.aside (by simp [Effect.aside, haside])).fail

theorem logEmit {event : LogEvent} {detail : Bytes} :
    Ensures (u.logEmit event detail) (· = u.record (.log event detail)) := by
  unfold World.logEmit
  refine .ite (fun _ => .error _) fun _ => ?_
  exact .ite (fun _ => .error _) fun _ => .ok rfl

/-- A submission, whatever the reactor answers. -/
theorem submits {op : IoOp} (h : Speaks u t) (hstep : Converses u.conn.settings t effect t')
    (htunnel : tunnel u.conn = t') : Spoken (World.orFail (u.submit env op effect)) := by
  subst htunnel
  have hrecorded : Speaks (u.submit env op effect).1 (tunnel u.conn) := h.snoc hstep
  unfold World.orFail
  split
  · exact hrecorded.fail
  · exact ⟨⟨_, hrecorded⟩, fun _ _ => hrecorded⟩

theorem reads (h : Speaks u (channel u.conn)) (hstate : u.conn.state ≠ .tlsHandshaking) :
    Spoken (World.orFail (submitReadBytes env u)) := by
  rw [submitReadBytes_eq]
  exact h.submits (.aside rfl) (tunnel_eq_channel hstate)

end Speaks

theorem submitWriteBytes_speaks {len : Nat} (h : Speaks u (channel u.conn))
    (hstate : u.conn.state ≠ .tlsHandshaking) :
    Ensures (submitWriteBytes env u len) fun submitted => Spoken (World.orFail submitted) := by
  unfold submitWriteBytes
  cases htls : u.conn.tls with
  | none =>
      rw [channel_of_none htls] at h
      refine .ok ?_
      exact Speaks.submits (h.modify rfl) (.commands _ _ _) (tunnel_of_none htls)
  | some tls =>
      rw [channel_of_some htls] at h
      refine .ite (fun _ => .error _) fun hdone => ?_
      have hencrypted {f : Connection E → Connection E}
          (hsettings : (f u.conn).settings = u.conn.settings) :=
        (h.modify hsettings).record
          (.encrypts (by simpa using hdone) (u.conn.writeBuf.slice 0 len))
      refine .ite (fun _ => .ok ?_) fun _ => .ok ?_
      · exact (hencrypted rfl).fail
      · exact Speaks.submits ((hencrypted rfl).modify rfl) (.sends _ _ _)
          (tunnel_of_some rfl hstate)

theorem sendEhlo_speaks (h : Speaks u (channel u.conn)) :
    Ensures (sendEhlo env u identity nowMs) Spoken := by
  unfold sendEhlo
  refine .ite (fun _ => Speaks.failWith (h.modify rfl) rfl) fun _ => ?_
  refine Speaks.logEmit.bind ?_
  rintro v rfl
  refine (submitWriteBytes_speaks ?_ (by simp)).bind fun _ hspoken => .ok hspoken
  exact Speaks.modify (Speaks.aside (h.modify rfl) rfl) rfl

theorem sendStarttls_speaks (h : Speaks u (channel u.conn)) :
    Ensures (sendStarttls env u nowMs) Spoken := by
  unfold sendStarttls
  refine Speaks.logEmit.bind ?_
  rintro v rfl
  refine (submitWriteBytes_speaks ?_ (by simp)).bind fun _ hspoken => .ok hspoken
  exact Speaks.modify (Speaks.aside (h.modify rfl) rfl) rfl

/-! ### The handshake -/

/-- A step of the handshake that does not finish it. -/
theorem driveHandshake_shakes {tls : E.State} (input : Bytes) (h : Speaks u (.shaking tls))
    (hstatus : (E.handshake tls input readBufSize).status ≠ .ok) :
    Speaks (driveHandshake u tls input).1
      (.shaking (E.handshake tls input readBufSize).next) :=
  Speaks.record (h.modify rfl) (.shakes input hstatus)

theorem driveHandshake_finishes {tls : E.State} (input : Bytes) (h : Speaks u (.shaking tls))
    (hstatus : (E.handshake tls input readBufSize).status = .ok) :
    Speaks (driveHandshake u tls input).1
      (.shaken (E.handshake tls input readBufSize).next) :=
  Speaks.record (h.modify rfl) (.finishes input hstatus)

theorem driveHandshake_speaks {tls : E.State} (input : Bytes) (h : Speaks u (.shaking tls)) :
    ∃ t, Speaks (driveHandshake u tls input).1 t := by
  by_cases hstatus : (E.handshake tls input readBufSize).status = .ok
  · exact ⟨_, driveHandshake_finishes input h hstatus⟩
  · exact ⟨_, driveHandshake_shakes input h hstatus⟩

theorem shakes_flight {tls : E.State} {input : Bytes} {outLen : Nat} (h : Speaks u (.shaking tls))
    (hstate : u.conn.state = .tlsHandshaking)
    (hstatus : (E.handshake tls input readBufSize).status ≠ .ok) :
    Spoken (submitHandshakeOutput env (driveHandshake u tls input).1 outLen) := by
  have hdriven := driveHandshake_shakes input h hstatus
  exact Speaks.submits (hdriven.modify rfl) (.flight _ _) (tunnel_of_shaking rfl hstate)

theorem shakes_read {tls : E.State} {input : Bytes} {bufLen : Nat} (h : Speaks u (.shaking tls))
    (hstate : u.conn.state = .tlsHandshaking)
    (hstatus : (E.handshake tls input readBufSize).status ≠ .ok) :
    Spoken (World.orFail ((driveHandshake u tls input).1.submitRead env .cipherBuf bufLen)) := by
  have hdriven := driveHandshake_shakes input h hstatus
  exact Speaks.submits hdriven (.aside rfl) (tunnel_of_shaking rfl hstate)

theorem shakes_fails {tls : E.State} {input : Bytes} {event : LogEvent} {detail : String}
    (h : Speaks u (.shaking tls)) (haside : event.certLine = false) :
    Ensures ((driveHandshake u tls input).1.failWith event detail) Spoken := by
  obtain ⟨t, hdriven⟩ := driveHandshake_speaks input h
  exact hdriven.failWith haside

theorem beginTlsHandshake_speaks {detail : String} (h : Speaks u .unbuilt) :
    Ensures (beginTlsHandshake env u nowMs detail) Spoken := by
  unfold beginTlsHandshake
  split
  · exact .error _
  rename_i ctx hctx
  split
  · exact Speaks.failWith (h.aside rfl) rfl
  rename_i tls hcreate
  refine Speaks.logEmit.bind ?_
  rintro v rfl
  have hcreated : Speaks ((u.record (.tlsCreate u.conn.actor
      u.conn.tlsTrustWithoutValidation true)).modify fun c => { c with tls := some tls })
      (.shaking tls) := Speaks.modify (h.record (.creates ctx env.entropy hctx hcreate)) rfl
  have hbegun := hcreated.aside (show (Effect.log .tlsBegin (bytes detail)).aside = true from rfl)
  dsimp only
  split <;> rename_i hstatus
  · exact .ok (shakes_flight (hbegun.modify rfl) rfl (hstatus.trans_ne (by simp)))
  · exact .ok (shakes_read (hbegun.modify rfl) rfl (hstatus.trans_ne (by simp)))
  · exact shakes_fails (hbegun.modify rfl) rfl

theorem finishTlsHandshake_speaks {tls : E.State} (h : Speaks u (.shaken tls))
    (htls : u.conn.tls = some tls) :
    Ensures (finishTlsHandshake env u tls identity nowMs) Spoken := by
  unfold finishTlsHandshake
  have hjudged : Speaks (u.record (.log (certLine (E.certInfo tls)).1
      (certLine (E.certInfo tls)).2)) (channel u.conn) := by
    rw [channel_of_some htls]
    exact h.record .judges
  have hrest {v : World E}
      (hv : v = u.record (.log (certLine (E.certInfo tls)).1 (certLine (E.certInfo tls)).2)) :
      Ensures
        (if !(v.modify fun c => { c with readLen := 0 }).conn.bannerSeen then
          (Except.ok (World.orFail (submitReadBytes env
            ((v.modify fun c => { c with readLen := 0 }).modify fun c =>
              { c with state := .waitBanner, deadlineMs := addMs nowMs greetingTimeoutMs }))) :
            Except Assertion (World E))
        else sendEhlo env { v.modify fun c => { c with readLen := 0 } with caps := Cap.init }
          identity nowMs) Spoken := by
    subst hv
    refine .ite (fun _ => .ok (Speaks.reads ?_ (by simp))) fun _ => ?_
    · exact Speaks.modify (hjudged.modify rfl) rfl
    · exact sendEhlo_speaks (Speaks.withCaps (hjudged.modify rfl) _)
  dsimp only
  refine .ite (fun hvalidated => Speaks.logEmit.bind fun v hv => hrest ?_) fun hnot =>
    Speaks.logEmit.bind fun v hv => hrest ?_
  · rw [hv, certLine, if_pos hvalidated]
  · rw [hv, certLine, if_neg hnot]

theorem handleTlsHandshake_speaks (h : Speaks u (tunnel u.conn))
    (hstate : u.conn.state = .tlsHandshaking) :
    Ensures (handleTlsHandshake env u result identity nowMs) Spoken := by
  unfold handleTlsHandshake
  refine .ite (fun _ => h.failWith rfl) fun _ => ?_
  refine .ite (fun _ => h.failWith rfl) fun _ => ?_
  split
  · exact .error _
  rename_i tls htls
  rw [tunnel_of_shaking htls hstate] at h
  dsimp only
  split <;> rename_i hstatus
  · exact .ok (shakes_flight h hstate (hstatus.trans_ne (by simp)))
  · exact .ok (shakes_read h hstate (hstatus.trans_ne (by simp)))
  · exact shakes_fails h rfl
  · exact finishTlsHandshake_speaks (driveHandshake_finishes _ h hstatus) rfl

/-! ### The other handlers -/

theorem handleConnectCompletion_speaks (h : Speaks u (channel u.conn)) (htls : u.conn.tls = none) :
    Ensures (handleConnectCompletion env u result nowMs) Spoken := by
  unfold handleConnectCompletion
  refine .ite (fun _ => h.failWith rfl) fun _ => ?_
  refine Speaks.logEmit.bind ?_
  rintro v rfl
  have hlogged := h.aside (show (Effect.log .connected (bytes "connected")).aside = true from rfl)
  refine .ite (fun _ => beginTlsHandshake_speaks ?_) fun _ => .ok (Speaks.reads ?_ (by simp))
  · rw [channel_of_none htls] at hlogged
    exact hlogged
  · exact hlogged.modify rfl

theorem handleBannerRead_speaks (h : Speaks u (channel u.conn))
    (hstate : u.conn.state ≠ .tlsHandshaking) :
    Ensures (handleBannerRead env u result identity nowMs) Spoken := by
  unfold handleBannerRead
  refine .ite (fun _ => h.failWith rfl) fun _ => ?_
  refine .ite (fun _ => h.failWith rfl) fun _ => ?_
  have hgrown : Speaks (grown u result.bytesTransferred) (channel u.conn) := h.modify rfl
  dsimp only
  split
  · exact .ite (fun _ => hgrown.failWith rfl) fun _ => .ok (Speaks.reads hgrown hstate)
  · refine Speaks.logEmit.bind ?_
    rintro v rfl
    refine .ite (fun _ => Speaks.failWith (Speaks.aside (hgrown.modify rfl) rfl) rfl) fun _ => ?_
    exact sendEhlo_speaks (Speaks.aside (hgrown.modify rfl) rfl)
  · exact hgrown.failWith rfl

theorem handleEhloWriteCompletion_speaks (h : Speaks u (channel u.conn)) :
    Ensures (handleEhloWriteCompletion env u result) Spoken := by
  unfold handleEhloWriteCompletion
  refine .ite (fun _ => h.failWith rfl) fun _ => ?_
  refine .ite (fun _ => h.failWith rfl) fun _ => ?_
  exact .ok (Speaks.reads (h.modify rfl) (by simp))

theorem handleEhloRead_speaks (h : Speaks u (channel u.conn))
    (hstate : u.conn.state ≠ .tlsHandshaking) :
    Ensures (handleEhloRead env u result nowMs) Spoken := by
  unfold handleEhloRead
  refine .ite (fun _ => h.failWith rfl) fun _ => ?_
  refine .ite (fun _ => h.failWith rfl) fun _ => ?_
  have hgrown : Speaks (grown u result.bytesTransferred) (channel u.conn) := h.modify rfl
  dsimp only
  split
  · exact .error _
  · exact .ite (fun _ => hgrown.failWith rfl) fun _ => .ok (Speaks.reads hgrown hstate)
  · rename_i caps _
    refine Speaks.logEmit.bind ?_
    rintro v rfl
    have hlogged : Speaks (capabilitiesOf u result.bytesTransferred caps) (channel u.conn) :=
      (hgrown.withCaps caps).aside rfl
    have hready : Spoken (readied u result.bytesTransferred caps) :=
      Speaks.spoken (hlogged.modify rfl) (by simp [readied])
    refine .ite (fun _ => .ok hready) fun _ => ?_
    split
    · exact .ok hready
    · exact .ite (fun _ => .ok hready) fun _ => sendStarttls_speaks hlogged
    · exact .ite (fun _ => hlogged.failWith rfl) fun _ => sendStarttls_speaks hlogged
    · exact .error _
  · exact hgrown.failWith rfl

theorem handleStarttlsWriteCompletion_speaks (h : Speaks u (channel u.conn)) :
    Ensures (handleStarttlsWriteCompletion env u result) Spoken := by
  unfold handleStarttlsWriteCompletion
  refine .ite (fun _ => h.failWith rfl) fun _ => ?_
  exact .ok (Speaks.reads (h.modify rfl) (by simp))

theorem handleStarttlsReply_speaks (h : Speaks u (channel u.conn)) (htls : u.conn.tls = none)
    (hstate : u.conn.state ≠ .tlsHandshaking) :
    Ensures (handleStarttlsReply env u result nowMs) Spoken := by
  unfold handleStarttlsReply
  refine .ite (fun _ => h.failWith rfl) fun _ => ?_
  refine .ite (fun _ => h.failWith rfl) fun _ => ?_
  have hgrown : Speaks (grown u result.bytesTransferred) (channel u.conn) := h.modify rfl
  dsimp only
  split
  · exact .ite (fun _ => hgrown.failWith rfl) fun _ => .ok (Speaks.reads hgrown hstate)
  · refine .ite (fun _ => hgrown.failWith rfl) fun _ => beginTlsHandshake_speaks ?_
    rw [channel_of_none htls] at hgrown
    exact hgrown
  · exact hgrown.failWith rfl

/-- Before the handshake there is no engine. -/
def Bare (conn : Connection E) : Prop :=
  conn.state = .connecting ∨ conn.state = .waitStarttlsReply → conn.tls = none

theorem dispatch_speaks {plain : IoResult} (h : Speaks u (channel u.conn)) (hbare : Bare u.conn) :
    Ensures (dispatch env u result plain identity nowMs) Spoken := by
  unfold dispatch
  split <;> rename_i hstate
  · exact .ite (fun _ => handleConnectCompletion_speaks h (hbare (.inl hstate))) fun _ => .error _
  · exact .ite (fun _ => handleBannerRead_speaks h (by simp [hstate])) fun _ => .error _
  · exact .ite (fun _ => handleEhloWriteCompletion_speaks h) fun _ => .error _
  · exact .ite (fun _ => handleEhloRead_speaks h (by simp [hstate])) fun _ => .error _
  · exact .ite (fun _ => handleStarttlsWriteCompletion_speaks h) fun _ => .error _
  · exact .ite (fun _ => handleStarttlsReply_speaks h (hbare (.inr hstate)) (by simp [hstate]))
      fun _ => .error _
  · exact .error _

theorem decryptThenDispatch_speaks {tls : E.State} (h : Speaks u (channel u.conn))
    (htls : u.conn.tls = some tls) (hbare : Bare u.conn)
    (hstate : u.conn.state ≠ .tlsHandshaking) :
    Ensures (decryptThenDispatch env u tls result identity nowMs) Spoken := by
  have hearly : ¬(u.conn.state = .connecting ∨ u.conn.state = .waitStarttlsReply) := by
    intro hearly
    exact absurd (htls.symm.trans (hbare hearly)) (by simp)
  rw [channel_of_some htls] at h
  unfold decryptThenDispatch
  refine .ite (fun _ => h.failWith rfl) fun _ => ?_
  refine .ite (fun _ => .error _) fun hdone => ?_
  have hdecrypted : Speaks (decrypted u tls result.bytesTransferred)
      (channel (decrypted u tls result.bytesTransferred).conn) :=
    Speaks.record (h.modify rfl) (.decrypts (by simpa using hdone) _ _)
  dsimp only
  split
  · exact .ok (Speaks.reads hdecrypted hstate)
  · exact hdecrypted.failWith rfl
  · exact .error _
  · exact dispatch_speaks hdecrypted fun h => absurd h hearly

theorem onIo_speaks (h : Speaks u (tunnel u.conn)) (hbare : Bare u.conn) :
    Ensures (onIo env u result identity nowMs) Spoken := by
  unfold onIo
  refine .ite (fun hstate => ?_) fun hstate => ?_
  · exact .ite (fun _ => .error _) fun _ => handleTlsHandshake_speaks h hstate
  rw [tunnel_eq_channel hstate] at h
  split
  · rename_i tls htls
    refine .ite (fun _ => ?_) fun _ => dispatch_speaks h hbare
    exact decryptThenDispatch_speaks h htls hbare hstate
  · exact dispatch_speaks h hbare

end Calls

/-! ### Runs -/

variable {identity : Bytes} {w w' : World E} {event : Event E}

theorem bare_of_reachable (h : Reachable identity w) (hlive : w.conn.state.terminal = false) :
    Bare w.conn := by
  have hconsistent := consistent_of_sound (sound_of_reachable h) hlive
  rintro (hstate | hstate)
  · simp only [phase, hstate] at hconsistent
    simpa using hconsistent.1
  · simp only [phase, hstate] at hconsistent
    simpa using hconsistent.1

theorem Spoken.step (h : Spoken w) (hreach : Reachable identity w)
    (hstep : (machine E identity).Steps w event w') : Spoken w' := by
  obtain ⟨hadmissible, hstep⟩ := hstep
  cases event with
  | completion env op result data nowMs =>
      obtain ⟨hlive, -⟩ := hadmissible
      obtain ⟨herror, htimedOut⟩ := ne_of_live hlive
      have hsame : tunnel (w.deliver op result data).conn = tunnel w.conn := by
        rw [tunnel, World.deliver_tls, World.deliver_state]
        rfl
      have hdelivered : Speaks (w.deliver op result data)
          (tunnel (w.deliver op result data).conn) := by
        unfold Speaks
        rw [hsame, World.deliver_settings, World.deliver_trace]
        exact (h.live herror htimedOut).snoc (.aside rfl)
      have hbare : Bare (w.deliver op result data).conn := by
        unfold Bare
        rw [World.deliver_state, World.deliver_tls]
        exact bare_of_reachable hreach hlive
      exact (onIo_speaks hdelivered hbare).of_ok w' hstep
  | timeout nowMs =>
      refine Ensures.of_ok (P := Spoken) ?_ w' hstep
      change Ensures (checkTimeout w nowMs) Spoken
      unfold checkTimeout
      refine .ite (fun _ => .ok h) fun _ => ?_
      refine .ite (fun _ => ?_) fun _ => .ok h
      refine Speaks.logEmit.bind ?_
      rintro v rfl
      obtain ⟨t, hspeaks⟩ := h.speaks
      refine .ok ⟨⟨t, Speaks.modify (hspeaks.aside rfl) rfl⟩, fun _ htimedOut => ?_⟩
      exact absurd rfl htimedOut
  | others caps =>
      cases Except.ok.inj hstep
      exact ⟨h.speaks, h.live⟩

/-- **Every run is a conversation.** -/
theorem spoken_of_reachable (h : Reachable identity w) : Spoken w := by
  obtain ⟨w₀, events, hstart, run⟩ := h
  refine run.relates (I := Reachable identity) ⟨w₀, [], hstart, .nil⟩
    (fun _ _ _ hreach hstep => hreach.step hstep) ?_
    fun u event u' hreach hspoken hstep => hspoken.step hreach hstep
  obtain ⟨_, _, _, _, _, _, _, _, -, -, rfl⟩ := hstart.shape
  refine Speaks.spoken ?_ (by simp [init])
  exact (Path.nil.snoc (.aside rfl)).snoc (.aside rfl)

end Conn

end SmtpClient
