import SmtpClient.Capabilities
import SmtpClient.Reactor
import SmtpClient.Protocol
import SmtpClient.Log

/-!
# The connection state machine

`smtp_connection.c`, function by function, each under its name less the prefix `smtp_conn_` or
`smtp_connection_`. A call works on a `World`: the connection, the capabilities buffer it shares
with the other connections of its thread, the operations the reactor holds for it, and the trace of
every call it has made to the reactor, the TLS engine and the log, with the answer each of them got.
What the outside answers is an input: `Env` for the reactor and for the creation of an engine, the
engine itself for the rest. A failed assertion, which aborts the process, is an `Assertion`.
-/

namespace SmtpClient

/-- The assertions a connection can run into. -/
inductive Assertion where
  | logActor
  | logDetail
  | dispatch
  | ehloModeImplicit
  | tlsNull
  | tlsCtxNull
  | encryptHandshakeDone
  | decryptHandshakeDone
  | decryptStatus
  | capLineReparse
  | tlsAlreadyCreated
  deriving DecidableEq, Repr

/-- What a submitted buffer is: a command line, in the clear or encrypted, or handshake output. -/
inductive Payload where
  | command (plain : Bytes) (encrypted : Bool)
  | handshakeOutput
  deriving DecidableEq, Repr

/-- One exchange of a connection with the outside. -/
inductive Effect where
  | completion (kind : IoKind) (result : Int) (data : Bytes)
  | log (event : LogEvent) (detail : Bytes)
  | submitConnect (rc : Int)
  | submitRead (rc : Int)
  | submitWrite (payload : Payload) (wire : Bytes) (rc : Int)
  | tlsCreate (hostname : Bytes) (trustWithoutValidation created : Bool)
  | tlsHandshake (input : Bytes) (status : TlsStatus) (out : Bytes)
  | tlsEncrypt (plaintext : Bytes) (status : TlsStatus) (out : Bytes)
  | tlsDecrypt (input : Bytes) (room : Nat) (status : TlsStatus) (chunk : Bytes)
  deriving DecidableEq, Repr

def readBufSize : Nat := 4096
def writeBufSize : Nat := 320
def maxReplyLines : Nat := 64
def maxActorSize : Nat := 320
def greetingTimeoutMs : Nat := 5 * 60 * 1000
def ehloTimeoutMs : Nat := 5 * 60 * 1000
def tlsHandshakeTimeoutMs : Nat := 5 * 60 * 1000

/-- `uint64_t` addition. -/
def addMs (now timeout : Nat) : Nat := (now + timeout) % 2 ^ 64

/-- `smtp_connection`, less its pointer to the capabilities buffer. -/
structure Connection (E : TlsEngine) where
  state : ConnState
  op : IoOp
  readBuf : Buffer readBufSize
  readLen : Nat
  writeBuf : Buffer writeBufSize
  writeLen : Nat
  wireWriteLen : Nat
  connectTimeoutMs : Nat
  deadlineMs : Nat
  logId : LogId
  actor : Bytes
  greetingCode : Nat
  tlsMode : TlsMode
  tlsCtx : Option E.Ctx
  tls : Option E.State
  tlsTrustWithoutValidation : Bool
  bannerSeen : Bool
  cipherBuf : Buffer readBufSize

/-- What the outside answers to one call: what `create` depends on, should an engine be created, and
what the reactor returns, should an operation be submitted. -/
structure Env (E : TlsEngine) where
  entropy : E.Entropy
  submitRc : Int

structure World (E : TlsEngine) where
  conn : Connection E
  caps : Capabilities
  inFlight : List IoOp
  trace : List Effect

variable {E : TlsEngine}

/-- The first `length` bytes an operation points to. -/
def Connection.contents (conn : Connection E) (buf : BufRef) (length : Nat) : Bytes :=
  match buf with
  | .null => []
  | .readBuf offset => conn.readBuf.slice offset length
  | .writeBuf => conn.writeBuf.slice 0 length
  | .cipherBuf => conn.cipherBuf.slice 0 length

namespace World

def record (w : World E) (effect : Effect) : World E := { w with trace := w.trace ++ [effect] }

def modify (w : World E) (f : Connection E → Connection E) : World E := { w with conn := f w.conn }

def logEmit (w : World E) (event : LogEvent) (detail : Bytes) : Except Assertion (World E) :=
  if containsCrOrLf w.conn.actor then .error .logActor
  else if containsCrOrLf detail then .error .logDetail
  else .ok (w.record (.log event detail))

/-- `conn->state = SMTP_CONN_STATE_ERROR`. -/
def fail (w : World E) : World E := w.modify fun c => { c with state := .error }

/-- A log line, and the connection is over. -/
def failWith (w : World E) (event : LogEvent) (detail : String) : Except Assertion (World E) := do
  let w ← w.logEmit event (bytes detail)
  return w.fail

/-- `if (submit(...) != 0) conn->state = SMTP_CONN_STATE_ERROR`. -/
def orFail (submitted : World E × Int) : World E :=
  if submitted.2 ≠ 0 then submitted.1.fail else submitted.1

/-- A submission: the reactor fills in the operation, and holds it if it accepts. -/
def submit (w : World E) (env : Env E) (op : IoOp) (effect : Effect) : World E × Int :=
  ({ w with
      conn := { w.conn with op := op }
      inFlight := if env.submitRc = 0 then op :: w.inFlight else w.inFlight
      trace := w.trace ++ [effect] },
    env.submitRc)

def submitRead (w : World E) (env : Env E) (buf : BufRef) (bufLen : Nat) : World E × Int :=
  w.submit env ⟨.read, buf, bufLen⟩ (.submitRead env.submitRc)

def submitWrite (w : World E) (env : Env E) (payload : Payload) (buf : BufRef) (bufLen : Nat) :
    World E × Int :=
  w.submit env ⟨.write, buf, bufLen⟩
    (.submitWrite payload (w.conn.contents buf bufLen) env.submitRc)

end World

namespace Conn

/-- `smtp_conn_build_ehlo_command`: the write buffer afterwards, and the length, 0 if the command
does not fit. -/
def buildEhloCommand (dst : Buffer writeBufSize) (identity : Bytes) : Buffer writeBufSize × Nat :=
  let text := bytes "EHLO " ++ identity ++ bytes "\r\n"
  (dst.blit 0 (clip writeBufSize text ++ [0]), if writeBufSize ≤ text.length then 0 else text.length)

def buildStarttlsCommand (dst : Buffer writeBufSize) : Buffer writeBufSize × Nat :=
  let text := bytes "STARTTLS\r\n"
  (dst.blit 0 (text ++ [0]), text.length)

/-- `smtp_conn_copy_reply_text`: the string left in `dst`. -/
def copyReplyText (buf : Buffer readBufSize) (offset len dstSize : Nat) : Bytes :=
  clip dstSize (buf.slice offset len)

def submitReadBytes (env : Env E) (w : World E) : World E × Int :=
  match w.conn.tls with
  | some _ => w.submitRead env .cipherBuf readBufSize
  | none => w.submitRead env (.readBuf w.conn.readLen) (readBufSize - w.conn.readLen)

/-- `smtp_conn_submit_write_bytes`, whose `plaintext` is `conn->write_buf` at both call sites. -/
def submitWriteBytes (env : Env E) (w : World E) (plaintextLen : Nat) :
    Except Assertion (World E × Int) :=
  let plaintext := w.conn.writeBuf.slice 0 plaintextLen
  match w.conn.tls with
  | some tls =>
      if !E.handshakeDone tls then .error .encryptHandshakeDone
      else
        let outcome := E.encrypt tls plaintext readBufSize
        let w := (w.modify fun c =>
            { c with tls := some outcome.next, cipherBuf := c.cipherBuf.blit 0 outcome.out }).record
          (.tlsEncrypt plaintext outcome.status outcome.out)
        if outcome.status ≠ .wantWrite then .ok (w, -1)
        else
          let w := w.modify fun c => { c with wireWriteLen := outcome.out.length }
          .ok (w.submitWrite env (.command plaintext true) .cipherBuf outcome.out.length)
  | none =>
      let w := w.modify fun c => { c with wireWriteLen := plaintextLen }
      .ok (w.submitWrite env (.command plaintext false) .writeBuf plaintextLen)

/-- One step of the handshake: the engine, its output in `cipher_buf`, and the call on the trace. -/
def driveHandshake (w : World E) (tls : E.State) (input : Bytes) : World E × TlsOutcome E.State :=
  let outcome := E.handshake tls input readBufSize
  ((w.modify fun c =>
      { c with tls := some outcome.next, cipherBuf := c.cipherBuf.blit 0 outcome.out }).record
    (.tlsHandshake input outcome.status outcome.out), outcome)

/-- The submission of handshake output, made in two places. -/
def submitHandshakeOutput (env : Env E) (w : World E) (outLen : Nat) : World E :=
  World.orFail ((w.modify fun c => { c with wireWriteLen := outLen }).submitWrite env
    .handshakeOutput .cipherBuf outLen)

def beginTlsHandshake (env : Env E) (w : World E) (nowMs : Nat) (beginLogDetail : String) :
    Except Assertion (World E) :=
  match w.conn.tlsCtx with
  | none => .error .tlsCtxNull
  | some ctx =>
      match E.create ctx env.entropy w.conn.actor w.conn.tlsTrustWithoutValidation with
      | none =>
          (w.record (.tlsCreate w.conn.actor w.conn.tlsTrustWithoutValidation false)).failWith
            .tlsFail "failed to create the TLS engine"
      | some tls => do
          let w := (w.record
              (.tlsCreate w.conn.actor w.conn.tlsTrustWithoutValidation true)).modify fun c =>
            { c with tls := some tls }
          let w ← w.logEmit .tlsBegin (bytes beginLogDetail)
          let w := w.modify fun c =>
            { c with
              state := .tlsHandshaking
              deadlineMs := addMs nowMs tlsHandshakeTimeoutMs
              readLen := 0 }
          let (w, outcome) := driveHandshake w tls []
          match outcome.status with
          | .wantWrite => return submitHandshakeOutput env w outcome.out.length
          | .wantRead => return World.orFail (w.submitRead env .cipherBuf readBufSize)
          | _ => w.failWith .tlsFail "TLS handshake failed to start"

def handleConnectCompletion (env : Env E) (w : World E) (result : IoResult) (nowMs : Nat) :
    Except Assertion (World E) :=
  if result.result ≠ 0 then w.failWith .error "connect failed"
  else do
    let w ← w.logEmit .connected (bytes "connected")
    if w.conn.tlsMode = .implicit then
      beginTlsHandshake env w nowMs "starting implicit TLS handshake"
    else
      let w := w.modify fun c =>
        { c with
          state := .waitBanner
          deadlineMs := addMs nowMs greetingTimeoutMs
          readLen := 0 }
      return World.orFail (submitReadBytes env w)

/-- The tail of the greeting and of the handshake handler: build the EHLO command, log it, and
submit it. -/
def sendEhlo (env : Env E) (w : World E) (ehloIdentity : Bytes) (nowMs : Nat) :
    Except Assertion (World E) :=
  let w := w.modify fun c =>
    let built := buildEhloCommand c.writeBuf ehloIdentity
    { c with writeBuf := built.1, writeLen := built.2 }
  if w.conn.writeLen = 0 then
    w.failWith .error "EHLO identity too long to fit the command buffer"
  else do
    let w ← w.logEmit .ehlo ehloIdentity
    let w := w.modify fun c =>
      { c with state := .sendingEhlo, deadlineMs := addMs nowMs ehloTimeoutMs }
    return World.orFail (← submitWriteBytes env w w.conn.writeLen)

def handleBannerRead (env : Env E) (w : World E) (result : IoResult) (ehloIdentity : Bytes)
    (nowMs : Nat) : Except Assertion (World E) :=
  if result.result ≠ 0 then w.failWith .error "banner read failed"
  else if result.bytesTransferred = 0 then
    w.failWith .error "peer closed before sending a greeting"
  else
    let w := w.modify fun c => { c with readLen := c.readLen + result.bytesTransferred }
    match Reply.read (w.conn.readBuf.slice 0 w.conn.readLen) maxReplyLines with
    | .incomplete =>
        if readBufSize ≤ w.conn.readLen then
          w.failWith .error "greeting exceeded the read buffer without completing"
        else .ok (World.orFail (submitReadBytes env w))
    | .ok reply => do
        let w := w.modify fun c => { c with greetingCode := reply.code, bannerSeen := true }
        -- `text[256]` keeps 255 bytes of the reply, whose lines are still separated by CRLF.
        let w ← w.logEmit .reply (copyReplyText w.conn.readBuf 0 (reply.consumed - 2) 256)
        if !Reply.positive reply.code then w.failWith .error "greeting was not a 2xx reply"
        else sendEhlo env w ehloIdentity nowMs
    | _ => w.failWith .error "malformed greeting"

def handleEhloWriteCompletion (env : Env E) (w : World E) (result : IoResult) :
    Except Assertion (World E) :=
  if result.result ≠ 0 then w.failWith .error "sending EHLO failed"
  else if result.bytesTransferred ≠ w.conn.wireWriteLen then
    w.failWith .error "EHLO write was partial (not yet handled)"
  else
    let w := w.modify fun c => { c with state := .waitEhlo, readLen := 0 }
    .ok (World.orFail (submitReadBytes env w))

/-- The end of the EHLO handler, where STARTTLS was offered and is wanted. -/
def sendStarttls (env : Env E) (w : World E) (nowMs : Nat) : Except Assertion (World E) := do
  let built := buildStarttlsCommand w.conn.writeBuf
  let w := w.modify fun c => { c with writeBuf := built.1 }
  let w ← w.logEmit .starttls (bytes "sending STARTTLS")
  let w := w.modify fun c =>
    { c with state := .sendingStarttls, deadlineMs := addMs nowMs ehloTimeoutMs }
  return World.orFail (← submitWriteBytes env w built.2)

def handleEhloRead (env : Env E) (w : World E) (result : IoResult) (nowMs : Nat) :
    Except Assertion (World E) :=
  if result.result ≠ 0 then w.failWith .error "EHLO response read failed"
  else if result.bytesTransferred = 0 then
    w.failWith .error "peer closed before completing the EHLO response"
  else
    let w := w.modify fun c => { c with readLen := c.readLen + result.bytesTransferred }
    match Cap.parseEhloResponse w.caps (w.conn.readBuf.slice 0 w.conn.readLen) maxReplyLines with
    | none => .error .capLineReparse
    | some (.incomplete, _) =>
        if readBufSize ≤ w.conn.readLen then
          w.failWith .error "EHLO response exceeded the read buffer without completing"
        else .ok (World.orFail (submitReadBytes env w))
    | some (.ok _, caps) => do
        -- The code of the reply is not looked at here.
        let w := { w with caps := caps }
        let w ← w.logEmit .capabilities (Cap.formatSummary w.caps 256)
        if w.conn.tls.isSome then return w.modify fun c => { c with state := .ready }
        else
          match w.conn.tlsMode with
          | .none => return w.modify fun c => { c with state := .ready }
          | .opportunistic =>
              if !w.caps.hasStarttls then return w.modify fun c => { c with state := .ready }
              else sendStarttls env w nowMs
          | .explicit =>
              if !w.caps.hasStarttls then
                w.failWith .error "STARTTLS required but not offered by the server"
              else sendStarttls env w nowMs
          | .implicit => .error .ehloModeImplicit
    | some _ => w.failWith .error "malformed EHLO response"

def handleStarttlsWriteCompletion (env : Env E) (w : World E) (result : IoResult) :
    Except Assertion (World E) :=
  if result.result ≠ 0 ∨ result.bytesTransferred ≠ w.conn.wireWriteLen then
    w.failWith .error "sending STARTTLS failed"
  else
    let w := w.modify fun c => { c with state := .waitStarttlsReply, readLen := 0 }
    .ok (World.orFail (submitReadBytes env w))

def handleStarttlsReply (env : Env E) (w : World E) (result : IoResult) (nowMs : Nat) :
    Except Assertion (World E) :=
  if result.result ≠ 0 then w.failWith .error "STARTTLS reply read failed"
  else if result.bytesTransferred = 0 then
    w.failWith .error "peer closed before replying to STARTTLS"
  else
    let w := w.modify fun c => { c with readLen := c.readLen + result.bytesTransferred }
    match Reply.read (w.conn.readBuf.slice 0 w.conn.readLen) maxReplyLines with
    | .incomplete =>
        if readBufSize ≤ w.conn.readLen then
          w.failWith .error "STARTTLS reply exceeded the read buffer without completing"
        else .ok (World.orFail (submitReadBytes env w))
    | .ok reply =>
        if !Reply.positive reply.code then w.failWith .tlsFail "server declined STARTTLS"
        else beginTlsHandshake env w nowMs "starting TLS handshake after STARTTLS"
    | _ => w.failWith .error "malformed STARTTLS reply"

/-- The part of `smtp_conn_handle_tls_handshake` behind `SMTP_TLS_OK`. -/
def finishTlsHandshake (env : Env E) (w : World E) (tls : E.State) (ehloIdentity : Bytes)
    (nowMs : Nat) : Except Assertion (World E) := do
  let certInfo := E.certInfo tls
  let w ← if certInfo.validated then w.logEmit .tlsOk certInfo.subject
    else w.logEmit .tlsCertWarning certInfo.failureReason
  let w := w.modify fun c => { c with readLen := 0 }
  if !w.conn.bannerSeen then
    -- Implicit TLS: the greeting arrives over the channel just encrypted.
    let w := w.modify fun c =>
      { c with state := .waitBanner, deadlineMs := addMs nowMs greetingTimeoutMs }
    return World.orFail (submitReadBytes env w)
  else
    -- The capabilities from before STARTTLS are discarded.
    sendEhlo env { w with caps := Cap.init } ehloIdentity nowMs

/-- `smtp_conn_handle_tls_handshake`. A write completion feeds the engine nothing, whatever number
of bytes it reports. -/
def handleTlsHandshake (env : Env E) (w : World E) (result : IoResult) (ehloIdentity : Bytes)
    (nowMs : Nat) : Except Assertion (World E) :=
  if result.result ≠ 0 then w.failWith .tlsFail "TLS handshake I/O failed"
  else if result.kind = .read ∧ result.bytesTransferred = 0 then
    w.failWith .tlsFail "peer closed during the TLS handshake"
  else
    match w.conn.tls with
    | none => .error .tlsNull
    | some tls =>
        let input :=
          if result.kind = .read then w.conn.cipherBuf.slice 0 result.bytesTransferred else []
        let (w, outcome) := driveHandshake w tls input
        match outcome.status with
        | .wantWrite => .ok (submitHandshakeOutput env w outcome.out.length)
        | .wantRead => .ok (World.orFail (w.submitRead env .cipherBuf readBufSize))
        | .error => w.failWith .tlsFail "TLS handshake failed"
        | .ok => finishTlsHandshake env w outcome.next ehloIdentity nowMs

/-- `smtp_connection_init`, on memory whose previous contents do not matter. -/
def init (logId : LogId) (actor : Bytes) (tlsMode : TlsMode) (tlsCtx : Option E.Ctx)
    (tlsTrustWithoutValidation : Bool) : Connection E where
  state := .connecting
  op := ⟨.connect, .null, 0⟩
  readBuf := .zero _
  readLen := 0
  writeBuf := .zero _
  writeLen := 0
  wireWriteLen := 0
  connectTimeoutMs := 0
  deadlineMs := 0
  logId := logId
  actor := clip maxActorSize actor
  greetingCode := 0
  tlsMode := tlsMode
  tlsCtx := tlsCtx
  tls := none
  tlsTrustWithoutValidation := tlsTrustWithoutValidation
  bannerSeen := false
  cipherBuf := .zero _

def close (conn : Connection E) : Connection E := { conn with tls := none }

/-- `smtp_connection_start`, given what `smtp_reactor_submit_connect` returns. -/
def start (w : World E) (nowMs connectTimeoutMs : Nat) (submitRc : Int) :
    Except Assertion (World E × Int) :=
  if w.conn.tls.isSome then .error .tlsAlreadyCreated
  else do
    let w := w.modify fun c =>
      { c with
        state := .connecting
        connectTimeoutMs := connectTimeoutMs
        deadlineMs := addMs nowMs connectTimeoutMs
        readLen := 0
        writeLen := 0
        bannerSeen := false }
    let w ← w.logEmit .connecting (bytes "connecting")
    let op : IoOp := ⟨.connect, .null, 0⟩
    let w := { w with
      conn := { w.conn with op := op }
      inFlight := if submitRc = 0 then op :: w.inFlight else w.inFlight
      trace := w.trace ++ [.submitConnect submitRc] }
    return (if submitRc ≠ 0 then w.fail else w, submitRc)

/-- The `switch` of `smtp_connection_on_io`, with the assertion on the kind each state expects.
`plain` is `result`, or what decryption made of it. -/
def dispatch (env : Env E) (w : World E) (result plain : IoResult) (ehloIdentity : Bytes)
    (nowMs : Nat) : Except Assertion (World E) :=
  match w.conn.state with
  | .connecting =>
      if result.kind = .connect then handleConnectCompletion env w result nowMs
      else .error .dispatch
  | .waitBanner =>
      if plain.kind = .read then handleBannerRead env w plain ehloIdentity nowMs
      else .error .dispatch
  | .sendingEhlo =>
      if result.kind = .write then handleEhloWriteCompletion env w result else .error .dispatch
  | .waitEhlo =>
      if plain.kind = .read then handleEhloRead env w plain nowMs else .error .dispatch
  | .sendingStarttls =>
      if result.kind = .write then handleStarttlsWriteCompletion env w result
      else .error .dispatch
  | .waitStarttlsReply =>
      if plain.kind = .read then handleStarttlsReply env w plain nowMs else .error .dispatch
  | _ => .error .dispatch

/-- The TLS layer of `smtp_connection_on_io`: decrypt what was read, then dispatch. -/
def decryptThenDispatch (env : Env E) (w : World E) (tls : E.State) (result : IoResult)
    (ehloIdentity : Bytes) (nowMs : Nat) : Except Assertion (World E) :=
  if readBufSize ≤ w.conn.readLen then
    w.failWith .error "decrypt data would exceed the read buffer"
  else if !E.handshakeDone tls then .error .decryptHandshakeDone
  else
    let input := w.conn.cipherBuf.slice 0 result.bytesTransferred
    let room := readBufSize - w.conn.readLen
    let outcome := E.decrypt tls input room
    let w := (w.modify fun c =>
        { c with
          tls := some outcome.next
          readBuf := c.readBuf.blit c.readLen outcome.out }).record
      (.tlsDecrypt input room outcome.status outcome.out)
    match outcome.status with
    | .wantRead => .ok (World.orFail (submitReadBytes env w))
    | .error => w.failWith .error "TLS decrypt failed"
    | .wantWrite => .error .decryptStatus
    | .ok =>
        -- A length of 0 is a clean close at the TLS level.
        dispatch env w result { result with bytesTransferred := outcome.out.length } ehloIdentity
          nowMs

/-- `smtp_connection_on_io`; the state it returns is that of the connection it leaves. -/
def onIo (env : Env E) (w : World E) (result : IoResult) (ehloIdentity : Bytes) (nowMs : Nat) :
    Except Assertion (World E) :=
  if w.conn.state = .tlsHandshaking then
    if result.kind = .connect then .error .dispatch
    else handleTlsHandshake env w result ehloIdentity nowMs
  else
    match w.conn.tls with
    | some tls =>
        if result.kind = .read ∧ result.result = 0 then
          decryptThenDispatch env w tls result ehloIdentity nowMs
        else dispatch env w result result ehloIdentity nowMs
    | none => dispatch env w result result ehloIdentity nowMs

def checkTimeout (w : World E) (nowMs : Nat) : Except Assertion (World E) :=
  if w.conn.state.terminal then .ok w
  else if w.conn.deadlineMs ≤ nowMs then do
    let w ← w.logEmit .timeout (bytes "step deadline exceeded")
    return w.modify fun c => { c with state := .timedOut }
  else .ok w

end Conn

end SmtpClient
