import SmtpClient.Run

/-!
# The exits the handlers share

The worlds behind the calls a handler makes on the log, the reactor and the TLS engine, and one
inversion lemma for each stretch of code that several handlers run through: the end of a connection,
the submission of a command, the EHLO, a step of the handshake and its beginning.
-/

namespace SmtpClient

variable {E : TlsEngine}

/-- What `smtp_connection_init` fixes for good. -/
structure Settings (E : TlsEngine) where
  actor : Bytes
  tlsMode : TlsMode
  tlsCtx : Option E.Ctx
  tlsTrustWithoutValidation : Bool

def Connection.settings (conn : Connection E) : Settings E :=
  ⟨conn.actor, conn.tlsMode, conn.tlsCtx, conn.tlsTrustWithoutValidation⟩

namespace World

@[simp] theorem record_conn (w : World E) (e : Effect) : (w.record e).conn = w.conn := rfl
@[simp] theorem record_caps (w : World E) (e : Effect) : (w.record e).caps = w.caps := rfl
@[simp] theorem record_inFlight (w : World E) (e : Effect) :
    (w.record e).inFlight = w.inFlight := rfl
@[simp] theorem record_trace (w : World E) (e : Effect) : (w.record e).trace = w.trace ++ [e] := rfl

@[simp] theorem modify_conn (w : World E) (f : Connection E → Connection E) :
    (w.modify f).conn = f w.conn := rfl
@[simp] theorem modify_caps (w : World E) (f : Connection E → Connection E) :
    (w.modify f).caps = w.caps := rfl
@[simp] theorem modify_inFlight (w : World E) (f : Connection E → Connection E) :
    (w.modify f).inFlight = w.inFlight := rfl
@[simp] theorem modify_trace (w : World E) (f : Connection E → Connection E) :
    (w.modify f).trace = w.trace := rfl

@[simp] theorem fail_conn (w : World E) : w.fail.conn = { w.conn with state := .error } := rfl
@[simp] theorem fail_caps (w : World E) : w.fail.caps = w.caps := rfl
@[simp] theorem fail_inFlight (w : World E) : w.fail.inFlight = w.inFlight := rfl
@[simp] theorem fail_trace (w : World E) : w.fail.trace = w.trace := rfl

section Submit

variable (w : World E) (env : Env E) (op : IoOp) (e : Effect)

@[simp] theorem orFail_submit_conn : (orFail (w.submit env op e)).conn
    = { w.conn with op := op, state := if env.submitRc = 0 then w.conn.state else .error } := by
  by_cases h : env.submitRc = 0 <;> simp [orFail, submit, h]

@[simp] theorem orFail_submit_caps : (orFail (w.submit env op e)).caps = w.caps := by
  by_cases h : env.submitRc = 0 <;> simp [orFail, submit, h]

@[simp] theorem orFail_submit_inFlight : (orFail (w.submit env op e)).inFlight
    = if env.submitRc = 0 then op :: w.inFlight else w.inFlight := by
  by_cases h : env.submitRc = 0 <;> simp [orFail, submit, h]

@[simp] theorem orFail_submit_trace : (orFail (w.submit env op e)).trace = w.trace ++ [e] := by
  by_cases h : env.submitRc = 0 <;> simp [orFail, submit, h]

end Submit

section Deliver

variable (w : World E) (op : IoOp) (result : Int) (data : Bytes)

@[simp] theorem deliver_state : (w.deliver op result data).conn.state = w.conn.state := by
  unfold deliver
  split <;> rfl

@[simp] theorem deliver_op : (w.deliver op result data).conn.op = w.conn.op := by
  unfold deliver
  split <;> rfl

@[simp] theorem deliver_readLen : (w.deliver op result data).conn.readLen = w.conn.readLen := by
  unfold deliver
  split <;> rfl

@[simp] theorem deliver_wireWriteLen :
    (w.deliver op result data).conn.wireWriteLen = w.conn.wireWriteLen := by
  unfold deliver
  split <;> rfl

@[simp] theorem deliver_tls : (w.deliver op result data).conn.tls = w.conn.tls := by
  unfold deliver
  split <;> rfl

@[simp] theorem deliver_bannerSeen :
    (w.deliver op result data).conn.bannerSeen = w.conn.bannerSeen := by
  unfold deliver
  split <;> rfl

@[simp] theorem deliver_deadlineMs :
    (w.deliver op result data).conn.deadlineMs = w.conn.deadlineMs := by
  unfold deliver
  split <;> rfl

@[simp] theorem deliver_settings :
    (w.deliver op result data).conn.settings = w.conn.settings := by
  unfold deliver
  split <;> rfl

@[simp] theorem deliver_tlsMode : (w.deliver op result data).conn.tlsMode = w.conn.tlsMode :=
  congrArg Settings.tlsMode (deliver_settings w op result data)

@[simp] theorem deliver_inFlight :
    (w.deliver op result data).inFlight = w.inFlight.erase op := rfl

@[simp] theorem deliver_caps : (w.deliver op result data).caps = w.caps := rfl

@[simp] theorem deliver_trace : (w.deliver op result data).trace
    = w.trace ++ [.completion op.kind result data] := rfl

end Deliver

theorem logEmit_bind_ok {w w' : World E} {event : LogEvent} {detail : Bytes}
    {f : World E → Except Assertion (World E)} :
    (w.logEmit event detail >>= f) = .ok w' ↔
      containsCrOrLf w.conn.actor = false ∧ containsCrOrLf detail = false
        ∧ f (w.record (.log event detail)) = .ok w' := by
  unfold logEmit
  cases hactor : containsCrOrLf w.conn.actor <;> cases hdetail : containsCrOrLf detail <;>
    simp [bind, Except.bind]

theorem failWith_ok {w w' : World E} {event : LogEvent} {detail : String}
    (h : w.failWith event detail = .ok w') : w' = (w.record (.log event (bytes detail))).fail := by
  obtain ⟨-, -, h⟩ := logEmit_bind_ok.mp h
  exact (Except.ok.inj h).symm

end World

namespace Conn

open World

/-- The operation `smtp_conn_submit_read_bytes` submits. -/
def readOp (conn : Connection E) : IoOp :=
  match conn.tls with
  | some _ => ⟨.read, .cipherBuf, readBufSize⟩
  | none => ⟨.read, .readBuf conn.readLen, readBufSize - conn.readLen⟩

theorem submitReadBytes_eq (env : Env E) (w : World E) :
    submitReadBytes env w = w.submit env (readOp w.conn) (.submitRead env.submitRc) := by
  unfold submitReadBytes readOp World.submitRead
  cases w.conn.tls <;> rfl

/-- The plaintext of the EHLO command. -/
def ehloLine (identity : Bytes) : Bytes := bytes "EHLO " ++ identity ++ bytes "\r\n"

def starttlsLine : Bytes := bytes "STARTTLS\r\n"

theorem buildEhloCommand_eq_zero_iff {dst : Buffer writeBufSize} {identity : Bytes} :
    (buildEhloCommand dst identity).2 = 0 ↔ writeBufSize ≤ (ehloLine identity).length := by
  constructor
  · intro hzero
    by_contra hshort
    rw [show (buildEhloCommand dst identity).2 = (ehloLine identity).length from
      if_neg hshort] at hzero
    simp [ehloLine, bytes] at hzero
  · exact fun hlong => if_pos hlong

theorem slice_buildEhloCommand (dst : Buffer writeBufSize) (identity : Bytes)
    (h : (buildEhloCommand dst identity).2 ≠ 0) :
    (buildEhloCommand dst identity).1.slice 0 (buildEhloCommand dst identity).2
      = ehloLine identity := by
  have hfits : ¬ writeBufSize ≤ (ehloLine identity).length := by
    intro hlong
    exact h (if_pos hlong)
  have hlen : (buildEhloCommand dst identity).2 = (ehloLine identity).length := if_neg hfits
  have hclip : clip writeBufSize (ehloLine identity) = ehloLine identity :=
    List.take_of_length_le (by omega)
  rw [hlen]
  change ((dst.blit 0 (clip writeBufSize (ehloLine identity) ++ [0])).bytes.drop 0).take
    (ehloLine identity).length = _
  have hblit := @Buffer.slice_blit_zero _ dst (ehloLine identity ++ [0]) (by
    simp only [List.length_append, List.length_singleton]
    omega)
  rw [hclip, ← @List.take_left _ (ehloLine identity) [0]]
  conv_rhs => rw [← hblit]
  simp [Buffer.slice, List.take_take]

theorem slice_buildStarttlsCommand (dst : Buffer writeBufSize) :
    (buildStarttlsCommand dst).1.slice 0 (buildStarttlsCommand dst).2 = starttlsLine := by
  have hblit := @Buffer.slice_blit_zero _ dst (starttlsLine ++ [0]) (by decide)
  change ((dst.blit 0 (starttlsLine ++ [0])).bytes.drop 0).take starttlsLine.length = _
  rw [← @List.take_left _ starttlsLine [0]]
  conv_rhs => rw [← hblit]
  simp [Buffer.slice, List.take_take]

/-! ### Exits shared by several handlers -/

/-- The connection is over, and all it did besides was to write to the log. -/
structure Quits (w w' : World E) : Prop where
  state : w'.conn.state = .error
  inFlight : w'.inFlight = w.inFlight
  settings : w'.conn.settings = w.conn.settings
  tls : w'.conn.tls = w.conn.tls
  deadlineMs : w'.conn.deadlineMs = w.conn.deadlineMs
  trace : ∃ logs : List (LogEvent × Bytes), w'.trace = w.trace ++ logs.map fun l => .log l.1 l.2

theorem Quits.of_failWith {w w₁ w' : World E} {event : LogEvent} {detail : String}
    (logs : List (LogEvent × Bytes)) (h : w₁.failWith event detail = .ok w')
    (hinFlight : w₁.inFlight = w.inFlight) (hsettings : w₁.conn.settings = w.conn.settings)
    (htls : w₁.conn.tls = w.conn.tls) (hdeadline : w₁.conn.deadlineMs = w.conn.deadlineMs)
    (htrace : w₁.trace = w.trace ++ logs.map fun l => .log l.1 l.2) : Quits w w' := by
  rw [failWith_ok h]
  exact ⟨rfl, hinFlight, hsettings, htls, hdeadline, logs ++ [(event, bytes detail)],
    by simp [htrace]⟩

theorem Quits.of_failWith_self {w w' : World E} {event : LogEvent} {detail : String}
    (h : w.failWith event detail = .ok w') : Quits w w' :=
  .of_failWith [] h rfl rfl rfl rfl (by simp)

theorem filterMap_logs {α : Type} {f : Effect → Option α}
    (hlog : ∀ event detail, f (.log event detail) = none) (logs : List (LogEvent × Bytes)) :
    (logs.map fun l => Effect.log l.1 l.2).filterMap f = [] := by
  apply List.filterMap_eq_nil_iff.mpr
  intro effect hmem
  obtain ⟨log, -, rfl⟩ := List.mem_map.mp hmem
  exact hlog log.1 log.2

/-- What is read off a trace without its log lines is kept at the end of a connection. -/
theorem Quits.filterMap_eq {α : Type} {f : Effect → Option α} {w w' : World E} (h : Quits w w')
    (hlog : ∀ event detail, f (.log event detail) = none) :
    w'.trace.filterMap f = w.trace.filterMap f := by
  obtain ⟨logs, htrace⟩ := h.trace
  rw [htrace, List.filterMap_append, filterMap_logs hlog, List.append_nil]

/-- The world behind the call to `smtp_tls_encrypt`. -/
def encrypting (w : World E) (tls : E.State) (plaintext : Bytes) : World E :=
  let outcome := E.encrypt tls plaintext readBufSize
  (w.modify fun c =>
      { c with tls := some outcome.next, cipherBuf := c.cipherBuf.blit 0 outcome.out }).record
    (.tlsEncrypt plaintext outcome.status outcome.out)

/-- How a command is submitted: in the clear without an engine, otherwise as the engine's output, or
not at all. -/
inductive SubmitsCommand (env : Env E) (w : World E) (plaintext : Bytes) : World E → Prop where
  | plain (htls : w.conn.tls = none) (len : Nat) (hlen : w.conn.writeBuf.slice 0 len = plaintext) :
      SubmitsCommand env w plaintext
        (orFail ((w.modify fun c => { c with wireWriteLen := len }).submit env
          ⟨.write, .writeBuf, len⟩
          (.submitWrite (.command plaintext false) plaintext env.submitRc)))
  | encrypted (tls : E.State) (htls : w.conn.tls = some tls) (hdone : E.handshakeDone tls = true)
      (out : Bytes) (hout : (E.encrypt tls plaintext readBufSize).out = out)
      (hstatus : (E.encrypt tls plaintext readBufSize).status = .wantWrite) :
      SubmitsCommand env w plaintext
        (orFail (((encrypting w tls plaintext).modify fun c =>
            { c with wireWriteLen := out.length }).submit env
          ⟨.write, .cipherBuf, out.length⟩
          (.submitWrite (.command plaintext true) out env.submitRc)))
  | encryptFailed (tls : E.State) (htls : w.conn.tls = some tls)
      (hdone : E.handshakeDone tls = true)
      (hstatus : (E.encrypt tls plaintext readBufSize).status ≠ .wantWrite) :
      SubmitsCommand env w plaintext (encrypting w tls plaintext).fail

theorem submitWriteBytes_ok {env : Env E} {w w' : World E} {len : Nat} {plaintext : Bytes}
    (hplain : w.conn.writeBuf.slice 0 len = plaintext)
    (h : (submitWriteBytes env w len >>= fun submitted => pure (orFail submitted)) = .ok w') :
    SubmitsCommand env w plaintext w' := by
  subst hplain
  unfold submitWriteBytes at h
  cases htls : w.conn.tls with
  | none =>
      simp only [htls] at h
      cases Except.ok.inj h
      exact .plain htls len rfl
  | some tls =>
      simp only [htls] at h
      cases hdone : E.handshakeDone tls with
      | false =>
          rw [hdone] at h
          exact absurd h (by simp [bind, Except.bind])
      | true =>
          by_cases hstatus :
              (E.encrypt tls (w.conn.writeBuf.slice 0 len) readBufSize).status = .wantWrite
          · simp only [hdone, Bool.not_true, Bool.false_eq_true, if_false, hstatus, ne_eq,
              not_true_eq_false] at h
            cases Except.ok.inj h
            have hcontents := (w.conn.cipherBuf.slice_blit_zero
              (E.encrypt_out_le tls (w.conn.writeBuf.slice 0 len) readBufSize))
            have hexit : SubmitsCommand env w _ _ := .encrypted tls htls hdone _ rfl hstatus
            simpa [encrypting, World.submitWrite, Connection.contents, hcontents, hstatus]
              using hexit
          · simp only [hdone, Bool.not_true, Bool.false_eq_true, if_false, ne_eq, hstatus,
              not_false_eq_true, if_true] at h
            cases Except.ok.inj h
            exact .encryptFailed tls htls hdone hstatus

/-- The world in which the EHLO command is submitted. -/
def ehloBuilt (w : World E) (identity : Bytes) (nowMs : Nat) : World E :=
  let built := buildEhloCommand w.conn.writeBuf identity
  ((w.modify fun c => { c with writeBuf := built.1, writeLen := built.2 }).record
      (.log .ehlo identity)).modify fun c =>
    { c with state := .sendingEhlo, deadlineMs := addMs nowMs ehloTimeoutMs }

/-- The exits of `sendEhlo`. -/
inductive SendsEhlo (env : Env E) (identity : Bytes) (nowMs : Nat) (w : World E) :
    World E → Prop where
  | tooLong {w' : World E} (hlen : (buildEhloCommand w.conn.writeBuf identity).2 = 0)
      (hquits : Quits w w') : SendsEhlo env identity nowMs w w'
  | submits {w' : World E} (hlen : (buildEhloCommand w.conn.writeBuf identity).2 ≠ 0)
      (hclean : containsCrOrLf identity = false)
      (hsubmits : SubmitsCommand env (ehloBuilt w identity nowMs) (ehloLine identity) w') :
      SendsEhlo env identity nowMs w w'

theorem sendEhlo_ok {env : Env E} {w w' : World E} {identity : Bytes} {nowMs : Nat}
    (h : sendEhlo env w identity nowMs = .ok w') : SendsEhlo env identity nowMs w w' := by
  unfold sendEhlo at h
  by_cases hlen : (buildEhloCommand w.conn.writeBuf identity).2 = 0
  · rw [if_pos (by exact hlen)] at h
    exact .tooLong hlen (.of_failWith [] h rfl rfl rfl rfl (by simp))
  · rw [if_neg (by exact hlen)] at h
    obtain ⟨-, hclean, h⟩ := logEmit_bind_ok.mp h
    exact .submits hlen hclean (submitWriteBytes_ok (slice_buildEhloCommand _ _ hlen) h)

/-- The exits behind a call to the engine that did not finish the handshake. -/
inductive Drives (env : Env E) (w : World E) (tls : E.State) (input : Bytes) :
    World E → Prop where
  | wantWrite (out : Bytes) (hout : (E.handshake tls input readBufSize).out = out)
      (hstatus : (E.handshake tls input readBufSize).status = .wantWrite) :
      Drives env w tls input
        (orFail (((driveHandshake w tls input).1.modify fun c =>
            { c with wireWriteLen := out.length }).submit env
          ⟨.write, .cipherBuf, out.length⟩ (.submitWrite .handshakeOutput out env.submitRc)))
  | wantRead (hstatus : (E.handshake tls input readBufSize).status = .wantRead) :
      Drives env w tls input
        (orFail ((driveHandshake w tls input).1.submit env ⟨.read, .cipherBuf, readBufSize⟩
          (.submitRead env.submitRc)))
  | refused {w' : World E} (hstatus : (E.handshake tls input readBufSize).status ≠ .wantWrite
        ∧ (E.handshake tls input readBufSize).status ≠ .wantRead)
      (hquits : Quits (driveHandshake w tls input).1 w') : Drives env w tls input w'

theorem submitHandshakeOutput_eq (env : Env E) (w : World E) (tls : E.State) (input : Bytes) :
    submitHandshakeOutput env (driveHandshake w tls input).1
        (E.handshake tls input readBufSize).out.length
      = orFail (((driveHandshake w tls input).1.modify fun c =>
            { c with wireWriteLen := (E.handshake tls input readBufSize).out.length }).submit env
          ⟨.write, .cipherBuf, (E.handshake tls input readBufSize).out.length⟩
          (.submitWrite .handshakeOutput (E.handshake tls input readBufSize).out
            env.submitRc)) := by
  have hcontents := w.conn.cipherBuf.slice_blit_zero (E.handshake_out_le tls input readBufSize)
  simp only [submitHandshakeOutput, World.submitWrite, Connection.contents, driveHandshake,
    modify_conn, record_conn, hcontents]

theorem drives_submitHandshakeOutput {env : Env E} {w : World E} {tls : E.State} {input : Bytes}
    (hstatus : (E.handshake tls input readBufSize).status = .wantWrite) :
    Drives env w tls input (submitHandshakeOutput env (driveHandshake w tls input).1
      (E.handshake tls input readBufSize).out.length) := by
  rw [submitHandshakeOutput_eq]
  exact .wantWrite _ rfl hstatus

/-- The world in which the engine is first driven. -/
def handshaking (w : World E) (tls : E.State) (nowMs : Nat) (beginLogDetail : String) : World E :=
  (((w.record (.tlsCreate w.conn.actor w.conn.tlsTrustWithoutValidation true)).modify fun c =>
      { c with tls := some tls }).record (.log .tlsBegin (bytes beginLogDetail))).modify fun c =>
    { c with
      state := .tlsHandshaking
      deadlineMs := addMs nowMs tlsHandshakeTimeoutMs
      readLen := 0 }

/-- The exits of `smtp_conn_begin_tls_handshake`. -/
inductive Begins (env : Env E) (nowMs : Nat) (w : World E) : World E → Prop where
  | createFailed {w' : World E} (ctx : E.Ctx) (hctx : w.conn.tlsCtx = some ctx)
      (hcreate : E.create ctx env.entropy w.conn.actor w.conn.tlsTrustWithoutValidation = none)
      (hquits : Quits
        (w.record (.tlsCreate w.conn.actor w.conn.tlsTrustWithoutValidation false)) w') :
      Begins env nowMs w w'
  | drives {w' : World E} (ctx : E.Ctx) (hctx : w.conn.tlsCtx = some ctx) (tls : E.State)
      (hcreate : E.create ctx env.entropy w.conn.actor w.conn.tlsTrustWithoutValidation = some tls)
      (beginLogDetail : String)
      (hdrives : Drives env (handshaking w tls nowMs beginLogDetail) tls [] w') :
      Begins env nowMs w w'

theorem beginTlsHandshake_ok {env : Env E} {w w' : World E} {nowMs : Nat} {detail : String}
    (h : beginTlsHandshake env w nowMs detail = .ok w') : Begins env nowMs w w' := by
  unfold beginTlsHandshake at h
  split at h
  · exact absurd h (by simp)
  · rename_i ctx hctx
    split at h
    · rename_i hcreate
      exact .createFailed ctx hctx hcreate (.of_failWith_self h)
    · rename_i tls hcreate
      obtain ⟨-, -, h⟩ := logEmit_bind_ok.mp h
      refine .drives ctx hctx tls hcreate detail ?_
      dsimp only at h
      split at h
      · rename_i hstatus
        cases Except.ok.inj h
        exact drives_submitHandshakeOutput hstatus
      · rename_i hstatus
        cases Except.ok.inj h
        exact .wantRead hstatus
      · rename_i hnotWrite hnotRead
        exact .refused ⟨hnotWrite, hnotRead⟩ (.of_failWith_self h)

end Conn

end SmtpClient
