import SmtpClient.LogFile
import SmtpClient.Orchestrator

/-!
# The chronicle of a process

A run of the orchestrator together with the log it writes. What a turn of the loop says to the
logger goes out line by line, each at the time its write finds on the clock, before the next turn
begins; between any two of these lines another thread may write one of its own. The logger is
initialised before the loop takes a turn and shut down while nobody writes, as its header demands,
and any number of times.
-/

namespace SmtpClient

variable {E : TlsEngine}

/-- The calls of `smtp_log_emit` among the effects of a connection. -/
def World.said (w : World E) (effects : List Effect) : List LogEntry :=
  effects.filterMap fun
    | .log event detail => some ⟨event, w.conn.logId, none, w.conn.actor, detail⟩
    | _ => none

/-- All a connection has said. -/
def World.entries (w : World E) : List LogEntry := w.said w.trace

namespace Orchestrator

/-- What `smtp_orch_start_slot` says. -/
def startEmitted (orch : Orchestrator E) (nowMs : Nat) (socketMade : Bool)
    (syscalls : ConnectSyscalls) : List LogEntry :=
  if !socketMade then []
  else
    let config := orch.config
    let w := Conn.fresh ⟨config.threadId.toNat, orch.nextConnectionId.toNat⟩ config.actor
      config.tlsMode config.tlsCtx config.tlsTrustWithoutValidation orch.caps
    match Conn.start w nowMs config.connectTimeoutMs
        (orch.reactor.submitConnect syscalls).2.toInt with
    | .ok (w, _) => w.entries
    | .error _ => []

/-- What a step of the connection in a slot says. -/
def stepEmitted (orch : Orchestrator E) (slot : Slot E) (event : Event E) : List LogEntry :=
  match Conn.step orch.config.ehloIdentity { slot.world with caps := orch.caps } event with
  | .ok w => w.said (w.trace.drop slot.world.trace.length)
  | .error _ => []

end Orchestrator

/-- What a turn of the loop says. -/
def Loop.emitted (l : Loop E) (turn : Turn E) : List LogEntry :=
  match turn, l.pc with
  | .fill socketMade syscalls, .fill i nowMs =>
      l.orch.slots[i]?.elim [] fun slot =>
        if slot.inUse ∨ l.targetStarted then []
        else l.orch.startEmitted nowMs socketMade syscalls
  | .handle env, .dispatch (c :: _) nowMs =>
      l.orch.slots[c.slot]?.elim [] fun slot =>
        l.orch.stepEmitted slot (.completion env c.op c.result c.data nowMs)
  | .sweep, .sweep i nowMs =>
      l.orch.slots[i]?.elim [] fun slot =>
        if slot.inUse then l.orch.stepEmitted slot (.timeout nowMs) else []
  | _, _ => []

/-- The loop, the lines of its last turn that are still to be written, and the logger. -/
structure Chronicle (E : TlsEngine) where
  loop : Loop E
  outbox : List LogEntry
  logger : Logger

inductive Occurrence (E : TlsEngine) where
  | init (filepath : Option Bytes) (opened mutexMade : Bool)
  | turn (turn : Turn E)
  | write (ts : LogTimestamp)
  | others (ts : LogTimestamp) (entry : LogEntry)
  | shutdown

/-- The assertions of a connection that are those of the logger it calls. -/
def Abort.tripped : Abort → Option LogAssertion
  | .connection .logActor => some .actor
  | .connection .logDetail => some .detail
  | _ => none

/-- How the process can be aborted: in a call into the logger, or elsewhere. -/
inductive Collapse where
  | loop (e : Abort)
  | log (e : LogAssertion)
  deriving DecidableEq, Repr

def Collapse.of (e : Abort) : Collapse :=
  match e.tripped with
  | some assertion => .log assertion
  | none => .loop e

namespace Chronicle

/-- Before the logger is initialised. -/
def before (loop : Loop E) (file : Bytes) : Chronicle E := ⟨loop, [], ⟨file, false, .ok⟩⟩

def emit (c : Chronicle E) (entry : LogEntry) (ts : LogTimestamp) (outbox : List LogEntry) :
    Except Collapse (Chronicle E) :=
  match c.logger.emit entry ts with
  | .ok logger => .ok { c with outbox := outbox, logger := logger }
  | .error e => .error (.log e)

def step (c : Chronicle E) : Occurrence E → Except Collapse (Chronicle E)
  | .init filepath opened mutexMade =>
      match c.logger.init filepath opened mutexMade with
      | .ok (logger, _) => .ok { c with logger := logger }
      | .error e => .error (.log e)
  | .turn turn =>
      match c.loop.step turn with
      | .ok loop => .ok { c with loop := loop, outbox := c.loop.emitted turn }
      | .error e => .error (.of e)
  | .write ts =>
      match c.outbox with
      | [] => .ok c
      | entry :: rest => c.emit entry ts rest
  | .others ts entry => c.emit entry ts c.outbox
  | .shutdown => .ok { c with logger := c.logger.shutdown }

/-- What the header of the logger allows, and lines of other threads that are whole. -/
def admissible (c : Chronicle E) : Occurrence E → Prop
  | .init _ _ _ => c.logger.ready = false
  | .turn turn => c.logger.ready = true ∧ c.outbox = [] ∧ Loop.admissible c.loop turn
  | .write _ => c.outbox ≠ []
  | .others _ entry => c.logger.ready = true ∧ entry.Whole
      ∧ entry.id.threadId ≠ c.loop.orch.config.threadId.toNat
  | .shutdown => c.outbox = []

instance (c : Chronicle E) : (occurrence : Occurrence E) → Decidable (admissible c occurrence)
  | .init _ _ _ => inferInstanceAs (Decidable (_ = _))
  | .turn _ => inferInstanceAs (Decidable (_ ∧ _ ∧ Loop.admissible _ _))
  | .write _ => inferInstanceAs (Decidable (_ ≠ _))
  | .others _ _ => inferInstanceAs (Decidable (_ ∧ _ ∧ _))
  | .shutdown => inferInstanceAs (Decidable (_ = _))

def machine (E : TlsEngine) : Machine (Chronicle E) (Occurrence E) Collapse := ⟨admissible, step⟩

instance (c : Chronicle E) (occurrence : Occurrence E) :
    Decidable ((machine E).admissible c occurrence) :=
  inferInstanceAs (Decidable (admissible c occurrence))

/-- A process that starts with a fresh orchestrator and with this file. -/
def Reachable (orch : Orchestrator E) (totalTarget : UInt64) (file : Bytes) (c : Chronicle E) :
    Prop :=
  ∃ occurrences, (machine E).Run (before (Loop.begin orch totalTarget) file) occurrences c

end Chronicle

end SmtpClient
