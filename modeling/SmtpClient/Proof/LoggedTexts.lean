import SmtpClient.Base.Ensures
import SmtpClient.Proof.ControlFlow
import SmtpClient.Proof.LogText
import SmtpClient.Proof.Summary

/-!
# What a call adds to the log

Whatever a call on a connection writes to the log, it writes under the identifier and the actor the
connection was given, and every detail is a line of less than 320 bytes: the fixed texts are, the
copies of what the server said are cut, and an identity that does not fit its command is never
logged. Function by function, through what each ensures if it returns.
-/

namespace SmtpClient

variable {E : TlsEngine}

/-- The texts about a certificate fit the arrays of `smtp_tls_cert_info`. -/
structure CertTexts (E : TlsEngine) : Prop where
  failureReason : ∀ tls, (E.certInfo tls).failureReason.length < 128
  subject : ∀ tls, (E.certInfo tls).subject.length < 256

def Effect.isLog : Effect → Bool
  | .log _ _ => true
  | _ => false

/-- From `w` on, only lines have been added to the log, under the same identifier and actor. -/
structure Adds (w w' : World E) : Prop where
  logId : w'.conn.logId = w.conn.logId
  actor : w'.conn.actor = w.conn.actor
  trace : ∃ effects, w'.trace = w.trace ++ effects ∧ ∀ event detail, .log event detail ∈ effects →
    Clean w.conn.actor ∧ Clean detail ∧ detail.length < 320

namespace Adds

variable {w w' u : World E} {env : Env E}

theorem refl (w : World E) : Adds w w := ⟨rfl, rfl, [], (List.append_nil _).symm, by simp⟩

theorem trans (h : Adds w u) (h' : Adds u w') : Adds w w' := by
  obtain ⟨effects, htrace, hlogs⟩ := h.trace
  obtain ⟨effects', htrace', hlogs'⟩ := h'.trace
  refine ⟨h'.logId.trans h.logId, h'.actor.trans h.actor, effects ++ effects', ?_, ?_⟩
  · rw [htrace', htrace, List.append_assoc]
  · intro event detail hmem
    rcases List.mem_append.mp hmem with hmem | hmem
    · exact hlogs event detail hmem
    · rw [← h.actor]
      exact hlogs' event detail hmem

/-- What adds nothing to the log. -/
theorem quiet (effects : List Effect) (hlogId : w'.conn.logId = w.conn.logId)
    (hactor : w'.conn.actor = w.conn.actor) (htrace : w'.trace = w.trace ++ effects)
    (hquiet : ∀ effect ∈ effects, effect.isLog = false) : Adds w w' := by
  refine ⟨hlogId, hactor, effects, htrace, ?_⟩
  intro event detail hmem
  exact absurd (hquiet _ hmem) (by simp [Effect.isLog])

theorem fail (h : Adds w u) : Adds w u.fail :=
  h.trans (.quiet [] rfl rfl (List.append_nil _).symm (by simp))

theorem record {effect : Effect} (h : Adds w u) (hquiet : effect.isLog = false) :
    Adds w (u.record effect) :=
  h.trans (.quiet [effect] rfl rfl rfl (by simpa using hquiet))

theorem modify {f : Connection E → Connection E} (h : Adds w u)
    (hlogId : (f u.conn).logId = u.conn.logId) (hactor : (f u.conn).actor = u.conn.actor) :
    Adds w (u.modify f) :=
  h.trans (.quiet [] hlogId hactor (List.append_nil _).symm (by simp))

theorem submit {op : IoOp} {effect : Effect} (h : Adds w u) (hquiet : effect.isLog = false) :
    Adds w (u.submit env op effect).1 :=
  h.trans (.quiet [effect] rfl rfl rfl (by simpa using hquiet))

theorem orFail {submitted : World E × Int} (h : Adds w submitted.1) :
    Adds w (World.orFail submitted) := by
  unfold World.orFail
  split
  · exact h.fail
  · exact h

theorem reads (h : Adds w u) : Adds w (World.orFail (Conn.submitReadBytes env u)) := by
  apply orFail
  rw [Conn.submitReadBytes_eq]
  exact h.submit rfl

end Adds

namespace Conn

section Calls

variable {env : Env E} {identity : Bytes} {nowMs : Nat} {w u : World E} {result : IoResult}
  (h : Adds w u)
include h

theorem logEmit_adds {event : LogEvent} {detail : Bytes} (hlength : detail.length < 320) :
    Ensures (u.logEmit event detail) (Adds w) := by
  unfold World.logEmit
  refine .ite (fun _ => .error _) fun hactor => ?_
  refine .ite (fun _ => .error _) fun hdetail => ?_
  refine .ok (h.trans ⟨rfl, rfl, [.log event detail], rfl, ?_⟩)
  intro event' detail' hmem
  obtain ⟨rfl, rfl⟩ := Effect.log.inj (List.mem_singleton.mp hmem)
  exact ⟨clean_iff.mp (by simpa using hactor), clean_iff.mp (by simpa using hdetail), hlength⟩

theorem failWith_adds {event : LogEvent} {detail : String} (hlength : (bytes detail).length < 320) :
    Ensures (u.failWith event detail) (Adds w) :=
  (logEmit_adds h hlength).bind fun _ hv => .ok hv.fail

theorem submitWriteBytes_adds {len : Nat} :
    Ensures (submitWriteBytes env u len) fun submitted => Adds w submitted.1 := by
  unfold submitWriteBytes
  cases htls : u.conn.tls with
  | some tls =>
      refine .ite (fun _ => .error _) fun _ => ?_
      have hencrypted {effect : Effect} {f : Connection E → Connection E}
          (hlogId : (f u.conn).logId = u.conn.logId) (hactor : (f u.conn).actor = u.conn.actor)
          (hquiet : effect.isLog = false) : Adds w ((u.modify f).record effect) :=
        (h.modify hlogId hactor).record hquiet
      refine .ite (fun _ => .ok (hencrypted rfl rfl rfl)) fun _ => ?_
      exact .ok (((hencrypted rfl rfl rfl).modify rfl rfl).submit rfl)
  | none => exact .ok ((h.modify rfl rfl).submit rfl)

theorem driveHandshake_adds {tls : E.State} {input : Bytes} :
    Adds w (driveHandshake u tls input).1 :=
  (h.modify rfl rfl).record rfl

theorem submitHandshakeOutput_adds {outLen : Nat} : Adds w (submitHandshakeOutput env u outLen) :=
  ((h.modify rfl rfl).submit rfl).orFail

theorem beginTlsHandshake_adds {detail : String} (hlength : (bytes detail).length < 320) :
    Ensures (beginTlsHandshake env u nowMs detail) (Adds w) := by
  unfold beginTlsHandshake
  split
  · exact .error _
  split
  · exact failWith_adds (h.record rfl) (by simp [bytes])
  rename_i tls _
  have hcreated : Adds w ((u.record (.tlsCreate u.conn.actor
      u.conn.tlsTrustWithoutValidation true)).modify fun c => { c with tls := some tls }) :=
    (h.record rfl).modify rfl rfl
  refine (logEmit_adds hcreated hlength).bind fun v hv => ?_
  have hdriven : Adds w (driveHandshake (v.modify fun c =>
      { c with
        state := .tlsHandshaking
        deadlineMs := addMs nowMs tlsHandshakeTimeoutMs
        readLen := 0 }) tls []).1 := driveHandshake_adds (hv.modify rfl rfl)
  dsimp only
  split
  · exact .ok (submitHandshakeOutput_adds hdriven)
  · exact .ok (hdriven.submit rfl).orFail
  · exact failWith_adds hdriven (by simp [bytes])

theorem handleConnectCompletion_adds :
    Ensures (handleConnectCompletion env u result nowMs) (Adds w) := by
  unfold handleConnectCompletion
  refine .ite (fun _ => failWith_adds h (by simp [bytes])) fun _ => ?_
  refine (logEmit_adds h (by simp [bytes])).bind fun v hv => ?_
  refine .ite (fun _ => beginTlsHandshake_adds hv (by simp [bytes])) fun _ => ?_
  exact .ok (hv.modify rfl rfl).reads

theorem sendEhlo_adds : Ensures (sendEhlo env u identity nowMs) (Adds w) := by
  unfold sendEhlo
  have hbuilt : Adds w (u.modify fun c =>
      { c with
        writeBuf := (buildEhloCommand c.writeBuf identity).1
        writeLen := (buildEhloCommand c.writeBuf identity).2 }) := h.modify rfl rfl
  refine .ite (fun _ => failWith_adds hbuilt (by simp [bytes])) fun hfits => ?_
  -- An identity that is logged has room in the command, and so in 320 bytes.
  have hidentity : identity.length < 320 := by
    have hnot : ¬writeBufSize ≤ (ehloLine identity).length :=
      fun hlong => hfits ((@buildEhloCommand_eq_zero_iff u.conn.writeBuf identity).mpr hlong)
    rw [ehloLine, List.length_append, List.length_append, writeBufSize] at hnot
    omega
  refine (logEmit_adds hbuilt hidentity).bind fun v hv => ?_
  exact (submitWriteBytes_adds (hv.modify rfl rfl)).bind fun _ hsubmitted => .ok hsubmitted.orFail

theorem handleBannerRead_adds :
    Ensures (handleBannerRead env u result identity nowMs) (Adds w) := by
  unfold handleBannerRead
  refine .ite (fun _ => failWith_adds h (by simp [bytes])) fun _ => ?_
  refine .ite (fun _ => failWith_adds h (by simp [bytes])) fun _ => ?_
  have hgrown : Adds w (u.modify fun c =>
      { c with readLen := c.readLen + result.bytesTransferred }) := h.modify rfl rfl
  dsimp only
  split
  · exact .ite (fun _ => failWith_adds hgrown (by simp [bytes])) fun _ => .ok hgrown.reads
  · have hlength (buf : Buffer readBufSize) (offset len : Nat) :
        (copyReplyText buf offset len 256).length < 320 := by
      rw [copyReplyText, length_clip]
      omega
    refine (logEmit_adds (hgrown.modify rfl rfl) (hlength ..)).bind fun v hv => ?_
    exact .ite (fun _ => failWith_adds hv (by simp [bytes])) fun _ => sendEhlo_adds hv
  · exact failWith_adds hgrown (by simp [bytes])

theorem handleEhloWriteCompletion_adds :
    Ensures (handleEhloWriteCompletion env u result) (Adds w) := by
  unfold handleEhloWriteCompletion
  refine .ite (fun _ => failWith_adds h (by simp [bytes])) fun _ => ?_
  refine .ite (fun _ => failWith_adds h (by simp [bytes])) fun _ => ?_
  exact .ok (h.modify rfl rfl).reads

theorem sendStarttls_adds : Ensures (sendStarttls env u nowMs) (Adds w) := by
  unfold sendStarttls
  refine (logEmit_adds (h.modify rfl rfl) (by simp [bytes])).bind fun v hv => ?_
  exact (submitWriteBytes_adds (hv.modify rfl rfl)).bind fun _ hsubmitted => .ok hsubmitted.orFail

theorem handleEhloRead_adds : Ensures (handleEhloRead env u result nowMs) (Adds w) := by
  unfold handleEhloRead
  refine .ite (fun _ => failWith_adds h (by simp [bytes])) fun _ => ?_
  refine .ite (fun _ => failWith_adds h (by simp [bytes])) fun _ => ?_
  have hgrown : Adds w (u.modify fun c =>
      { c with readLen := c.readLen + result.bytesTransferred }) := h.modify rfl rfl
  dsimp only
  split
  · exact .error _
  · exact .ite (fun _ => failWith_adds hgrown (by simp [bytes])) fun _ => .ok hgrown.reads
  · rename_i caps _
    have hparsed : Adds w { u.modify fun c =>
        { c with readLen := c.readLen + result.bytesTransferred } with caps := caps } :=
      ⟨hgrown.logId, hgrown.actor, hgrown.trace⟩
    have hlength : (Cap.formatSummary caps 256).length < 320 := by
      rw [Cap.formatSummary_eq, length_clip]
      omega
    refine (logEmit_adds hparsed hlength).bind fun v hv => ?_
    have hready : Adds w (v.modify fun c => { c with state := .ready }) := hv.modify rfl rfl
    refine .ite (fun _ => .ok hready) fun _ => ?_
    split
    · exact .ok hready
    · exact .ite (fun _ => .ok hready) fun _ => sendStarttls_adds hv
    · exact .ite (fun _ => failWith_adds hv (by simp [bytes])) fun _ => sendStarttls_adds hv
    · exact .error _
  · exact failWith_adds hgrown (by simp [bytes])

theorem handleStarttlsWriteCompletion_adds :
    Ensures (handleStarttlsWriteCompletion env u result) (Adds w) := by
  unfold handleStarttlsWriteCompletion
  refine .ite (fun _ => failWith_adds h (by simp [bytes])) fun _ => ?_
  exact .ok (h.modify rfl rfl).reads

theorem handleStarttlsReply_adds :
    Ensures (handleStarttlsReply env u result nowMs) (Adds w) := by
  unfold handleStarttlsReply
  refine .ite (fun _ => failWith_adds h (by simp [bytes])) fun _ => ?_
  refine .ite (fun _ => failWith_adds h (by simp [bytes])) fun _ => ?_
  have hgrown : Adds w (u.modify fun c =>
      { c with readLen := c.readLen + result.bytesTransferred }) := h.modify rfl rfl
  dsimp only
  split
  · exact .ite (fun _ => failWith_adds hgrown (by simp [bytes])) fun _ => .ok hgrown.reads
  · refine .ite (fun _ => failWith_adds hgrown (by simp [bytes])) fun _ => ?_
    exact beginTlsHandshake_adds hgrown (by simp [bytes])
  · exact failWith_adds hgrown (by simp [bytes])

theorem dispatch_adds {plain : IoResult} :
    Ensures (dispatch env u result plain identity nowMs) (Adds w) := by
  unfold dispatch
  split
  · exact .ite (fun _ => handleConnectCompletion_adds h) fun _ => .error _
  · exact .ite (fun _ => handleBannerRead_adds h) fun _ => .error _
  · exact .ite (fun _ => handleEhloWriteCompletion_adds h) fun _ => .error _
  · exact .ite (fun _ => handleEhloRead_adds h) fun _ => .error _
  · exact .ite (fun _ => handleStarttlsWriteCompletion_adds h) fun _ => .error _
  · exact .ite (fun _ => handleStarttlsReply_adds h) fun _ => .error _
  · exact .error _

theorem decryptThenDispatch_adds {tls : E.State} :
    Ensures (decryptThenDispatch env u tls result identity nowMs) (Adds w) := by
  unfold decryptThenDispatch
  refine .ite (fun _ => failWith_adds h (by simp [bytes])) fun _ => ?_
  refine .ite (fun _ => .error _) fun _ => ?_
  have hdecrypted {effect : Effect} {f : Connection E → Connection E}
      (hlogId : (f u.conn).logId = u.conn.logId) (hactor : (f u.conn).actor = u.conn.actor)
      (hquiet : effect.isLog = false) : Adds w ((u.modify f).record effect) :=
    (h.modify hlogId hactor).record hquiet
  dsimp only
  split
  · exact .ok (hdecrypted rfl rfl rfl).reads
  · exact failWith_adds (hdecrypted rfl rfl rfl) (by simp [bytes])
  · exact .error _
  · exact dispatch_adds (hdecrypted rfl rfl rfl)

variable (htexts : CertTexts E)
include htexts

theorem finishTlsHandshake_adds {tls : E.State} :
    Ensures (finishTlsHandshake env u tls identity nowMs) (Adds w) := by
  have hsubject := Nat.lt_trans (htexts.subject tls) (by decide : 256 < 320)
  have hreason := Nat.lt_trans (htexts.failureReason tls) (by decide : 128 < 320)
  have hreset {v : World E} (hv : Adds w v) : Adds w { v with caps := Cap.init } :=
    ⟨hv.logId, hv.actor, hv.trace⟩
  unfold finishTlsHandshake
  refine .ite (fun _ => (logEmit_adds h hsubject).bind fun v hv => ?_) fun _ =>
    (logEmit_adds h hreason).bind fun v hv => ?_
  all_goals
    refine .ite (fun _ => .ok ((hv.modify rfl rfl).modify rfl rfl).reads) fun _ => ?_
    exact sendEhlo_adds (hreset (hv.modify rfl rfl))

theorem handleTlsHandshake_adds :
    Ensures (handleTlsHandshake env u result identity nowMs) (Adds w) := by
  unfold handleTlsHandshake
  refine .ite (fun _ => failWith_adds h (by simp [bytes])) fun _ => ?_
  refine .ite (fun _ => failWith_adds h (by simp [bytes])) fun _ => ?_
  split
  · exact .error _
  rename_i tls _
  have hdriven (input : Bytes) : Adds w (driveHandshake u tls input).1 := driveHandshake_adds h
  dsimp only
  split
  · exact .ok (submitHandshakeOutput_adds (hdriven _))
  · exact .ok ((hdriven _).submit rfl).orFail
  · exact failWith_adds (hdriven _) (by simp [bytes])
  · exact finishTlsHandshake_adds (hdriven _) htexts

theorem onIo_adds : Ensures (onIo env u result identity nowMs) (Adds w) := by
  unfold onIo
  refine .ite (fun _ => ?_) fun _ => ?_
  · exact .ite (fun _ => .error _) fun _ => handleTlsHandshake_adds h htexts
  split
  · refine .ite (fun _ => ?_) fun _ => dispatch_adds h
    exact decryptThenDispatch_adds h
  · exact dispatch_adds h

end Calls

/-- **What a step adds to the log.** -/
theorem step_adds (htexts : CertTexts E) (identity : Bytes) (w : World E) (event : Event E) :
    Ensures (step identity w event) (Adds w) := by
  cases event with
  | completion env op result data nowMs =>
      have hdelivered : Adds w (w.deliver op result data) := by
        refine .quiet [.completion op.kind result data] ?_ ?_ rfl (by simp [Effect.isLog])
        · unfold World.deliver
          split <;> rfl
        · unfold World.deliver
          split <;> rfl
      exact onIo_adds hdelivered htexts
  | timeout nowMs =>
      unfold step checkTimeout
      refine .ite (fun _ => .ok (.refl w)) fun _ => ?_
      refine .ite (fun _ => ?_) fun _ => .ok (.refl w)
      exact (logEmit_adds (.refl w) (by simp [bytes])).bind fun v hv => .ok (hv.modify rfl rfl)
  | others caps => exact .ok ⟨rfl, rfl, (Adds.refl w).trace⟩

end Conn

end SmtpClient
