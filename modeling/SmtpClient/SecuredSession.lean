import SmtpClient.Run

/-!
# The session behind STARTTLS

What a session that has begun a handshake behind STARTTLS may depend on, as a machine of its own:
the identity it announces, what the TLS engine answers it, and the cues of the reactor and of the
clock, which say that something happened but not with which bytes. Nothing in it knows of a byte
that came before the handshake. The connection is shown to be this machine; that two connections
with the same answers and the same cues end up the same is then no more than that it is a function.
-/

namespace SmtpClient

variable {E : TlsEngine}

/-- What a call on the engine returns, as far as a session goes by it. -/
inductive EngineAnswer where
  | handshake (status : TlsStatus)
  | encrypted (status : TlsStatus)
  | decrypted (status : TlsStatus) (chunk : Bytes)
  deriving DecidableEq, Repr

/-- What the reactor and the clock tell a session: whether an operation succeeded, whether it moved
anything (a read) or all of it (a write), and whether the next one would be accepted; and whether
the deadline has passed. -/
inductive Cue where
  | completion (kind : IoKind) (succeeded moved accepted : Bool)
  | timeout (expired : Bool)
  deriving DecidableEq, Repr

/-- What a session behind STARTTLS has come to: its state, the reply it has so far, the commands it
has sent, and the capabilities it believes in. -/
structure Belief where
  state : ConnState
  text : Bytes
  commands : List Bytes
  caps : Capabilities
  deriving DecidableEq

namespace Belief

/-- The reply to STARTTLS is being read. -/
def initial : Belief := ⟨.waitStarttlsReply, [], [], Cap.init⟩

def fail (b : Belief) : Belief := { b with state := .error }

/-- The session goes on if the next operation is accepted. -/
def goOn (b : Belief) (accepted : Bool) : Belief := if accepted then b else b.fail

/-- The handshake goes on while the engine wants to read or to write. -/
def shake (b : Belief) (accepted : Bool) : TlsStatus → Belief
  | .wantRead | .wantWrite => b.goOn accepted
  | _ => b.fail

/-- The EHLO, if it fits and can be encrypted. -/
def sayEhlo (identity : Bytes) (b : Belief) (accepted : Bool) (tape : List EngineAnswer) :
    Belief × List EngineAnswer :=
  let line := bytes "EHLO " ++ identity ++ bytes "\r\n"
  if line.length < writeBufSize then
    match tape with
    | .encrypted .wantWrite :: rest =>
        ({ b with state := .sendingEhlo, commands := b.commands ++ [line] }.goOn accepted, rest)
    | .encrypted _ :: rest => (b.fail, rest)
    | tape => (b.fail, tape)
  else (b.fail, tape)

/-- More of the reply to the EHLO. -/
def hear (b : Belief) (accepted : Bool) (chunk : Bytes) : Belief :=
  if chunk = [] then b.fail
  else
    match Cap.parseEhloResponse Cap.init (b.text ++ chunk) maxReplyLines with
    | some (.ok _, caps) => { b with state := .ready, caps := caps }
    | some (.incomplete, _) =>
        if (b.text ++ chunk).length < readBufSize then
          { b with text := b.text ++ chunk }.goOn accepted
        else b.fail
    | _ => b.fail

/-- One cue: what becomes of the session, and what is left of the engine's answers. -/
def advance (identity : Bytes) (s : Belief × List EngineAnswer) :
    Cue → Belief × List EngineAnswer
  | .timeout expired =>
      (if expired && !s.1.state.terminal then { s.1 with state := .timedOut } else s.1, s.2)
  | .completion kind succeeded moved accepted =>
      match s.1.state with
      | .waitStarttlsReply =>
          match s.2 with
          | .handshake status :: rest =>
              ({ s.1 with state := .tlsHandshaking }.shake accepted status, rest)
          | tape => (s.1.fail, tape)
      | .tlsHandshaking =>
          if !succeeded || (kind == .read && !moved) then (s.1.fail, s.2)
          else
            match s.2 with
            | .handshake .ok :: rest => sayEhlo identity s.1 accepted rest
            | .handshake status :: rest => (s.1.shake accepted status, rest)
            | tape => (s.1.fail, tape)
      | .sendingEhlo =>
          (if succeeded && moved then { s.1 with state := .waitEhlo, text := [] }.goOn accepted
            else s.1.fail, s.2)
      | .waitEhlo =>
          if !succeeded then (s.1.fail, s.2)
          else
            match s.2 with
            | .decrypted .ok chunk :: rest => (s.1.hear accepted chunk, rest)
            | .decrypted .wantRead _ :: rest => (s.1.goOn accepted, rest)
            | .decrypted _ _ :: rest => (s.1.fail, rest)
            | tape => (s.1.fail, tape)
      | _ => s

/-- A session that gets these answers and these cues. -/
def after (identity : Bytes) (tape : List EngineAnswer) (cues : List Cue) :
    Belief × List EngineAnswer :=
  cues.foldl (advance identity) (initial, tape)

theorem after_snoc (identity : Bytes) (tape : List EngineAnswer) (cues : List Cue) (cue : Cue) :
    after identity tape (cues ++ [cue]) = advance identity (after identity tape cues) cue := by
  simp [after]

section Hear

variable {b : Belief} {accepted : Bool} {chunk : Bytes}

theorem hear_incomplete (hchunk : chunk ≠ [])
    (hread : Reply.read (b.text ++ chunk) maxReplyLines = .incomplete) :
    b.hear accepted chunk
      = if (b.text ++ chunk).length < readBufSize then
          { b with text := b.text ++ chunk }.goOn accepted
        else b.fail := by
  simp [hear, hchunk, Cap.parseEhloResponse, hread]

theorem hear_ok {reply : Reply} {caps before : Capabilities} (hchunk : chunk ≠ [])
    (hparse : Cap.parseEhloResponse before (b.text ++ chunk) maxReplyLines
      = some (.ok reply, caps)) :
    b.hear accepted chunk = { b with state := .ready, caps := caps } := by
  simp [hear, hchunk, Cap.parseEhloResponse_congr Cap.init hparse]

theorem hear_malformed (hchunk : chunk ≠ [])
    (hincomplete : Reply.read (b.text ++ chunk) maxReplyLines ≠ .incomplete)
    (hok : ∀ reply, Reply.read (b.text ++ chunk) maxReplyLines ≠ .ok reply) :
    b.hear accepted chunk = b.fail := by
  rw [hear, if_neg hchunk, Cap.parseEhloResponse]
  cases hread : Reply.read (b.text ++ chunk) maxReplyLines with
  | ok reply => exact absurd hread (hok reply)
  | incomplete => exact absurd hread hincomplete
  | _ => rfl

end Hear

end Belief

/-! ### What a trace says of it -/

/-- The effects since the engine was created. -/
def Effect.since (past : List Effect) : Effect → List Effect
  | .tlsCreate _ _ true => []
  | effect => past ++ [effect]

def sinceEngine (trace : List Effect) : List Effect := trace.foldl Effect.since []

def Effect.answer : Effect → Option EngineAnswer
  | .tlsHandshake _ status _ => some (.handshake status)
  | .tlsEncrypt _ status _ => some (.encrypted status)
  | .tlsDecrypt _ _ status chunk => some (.decrypted status chunk)
  | _ => none

/-- What the engine has answered since it was created. -/
def answers (trace : List Effect) : List EngineAnswer := (sinceEngine trace).filterMap Effect.answer

/-- The command lines submitted since the engine was created. -/
def laterCommands (trace : List Effect) : List Bytes := commands (sinceEngine trace)

/-- The plaintext among the answers of an engine. -/
def decryptedText (tape : List EngineAnswer) : Bytes :=
  tape.flatMap fun
    | .decrypted .ok chunk => chunk
    | _ => []

namespace Conn

def failed : ConnState → Bool
  | .error | .timedOut => true
  | _ => false

/-- Where a session stands, whether or not its EHLO has left the socket. -/
def stage : ConnState → ConnState
  | .waitEhlo => .sendingEhlo
  | state => state

/-- A read brought something, a write took all that was submitted. -/
def moved (w : World E) (kind : IoKind) (transferred : Nat) : Bool :=
  match kind with
  | .write => transferred = w.conn.wireWriteLen
  | _ => transferred ≠ 0

/-- What an event tells a connection besides bytes. -/
def cues (w : World E) : Event E → List Cue
  | .completion env op result data _ =>
      [.completion op.kind (result = 0) (moved w op.kind data.length) (env.submitRc = 0)]
  | .timeout nowMs => [.timeout (w.conn.deadlineMs ≤ nowMs)]
  | .others _ => []

/-- What a connection's own call leaves in the shared capabilities buffer; no other event leaves
anything there in its name. -/
def left (before : Capabilities) (w' : World E) : Event E → Capabilities
  | .completion _ _ _ _ _ => w'.caps
  | _ => before

/-- A connection that has begun a handshake behind STARTTLS, with the cues it was given from then on
and what its last call left in the capabilities buffer. -/
inductive Upgraded (identity : Bytes) : List Cue → Capabilities → World E → Prop where
  | begins {w w' : World E} {event : Event E} (hreach : Reachable identity w)
      (hstate : w.conn.state = .waitStarttlsReply)
      (hstep : (machine E identity).Steps w event w') (hbegins : w'.conn.tls.isSome = true) :
      Upgraded identity (cues w event) w'.caps w'
  | goesOn {w w' : World E} {event : Event E} {past : List Cue} {caps : Capabilities}
      (h : Upgraded identity past caps w) (hstep : (machine E identity).Steps w event w') :
      Upgraded identity (past ++ cues w event) (left caps w' event) w'

end Conn

@[simp] theorem sinceEngine_append (trace trace' : List Effect) :
    sinceEngine (trace ++ trace') = trace'.foldl Effect.since (sinceEngine trace) := by
  simp [sinceEngine]

end SmtpClient
