import SmtpClient.Kqueue

/-!
# The kqueue backend in use

The rest of `smtp_reactor_unix.c`: the poll, with what `kevent` reports, and the removal of a filter
behind each completion. A session is a reactor in use, as for the epoll backend, whose operations
and results these are. The handlers are its own: `send` is given no `MSG_NOSIGNAL` here, so that a
broken pipe ends the process unless somebody has set `SO_NOSIGPIPE` on the socket.
-/

namespace SmtpClient

/-- The filter an operation of a kind waits on. -/
def IoKind.filter : IoKind → KqueueFilter
  | .read => .evfiltRead
  | .connect | .write => .evfiltWrite

/-- One entry of what `kevent` returns, less its `udata`, what the socket answers to the call that
follows, and whether it has `SO_NOSIGPIPE`. -/
structure KqueueEvent where
  sock : Nat
  filter : KqueueFilter
  soError : Int
  transferred : Transferred
  noSigpipe : Bool
  deriving DecidableEq, Repr

/-- How a call ends the process: on an assertion, or by the signal. -/
inductive ProcessEnd where
  | assertion (a : EpollAssertion)
  | sigpipe
  deriving DecidableEq, Repr

namespace Kqueue

variable (r : Kqueue)

/-- A filter is reported while it is there, and no more than once in a batch. -/
structure Reports (events : List KqueueEvent) : Prop where
  bounded : events.length ≤ r.maxConnections
  once : (events.map fun event => (event.sock, event.filter)).Nodup
  there : ∀ event ∈ events, (r.filters event.sock event.filter).isSome = true

instance (events : List KqueueEvent) : Decidable (r.Reports events) :=
  decidable_of_iff
    (events.length ≤ r.maxConnections
      ∧ (events.map fun event => (event.sock, event.filter)).Nodup
      ∧ ∀ event ∈ events, (r.filters event.sock event.filter).isSome = true)
    ⟨fun h => ⟨h.1, h.2.1, h.2.2⟩, fun h => ⟨h.1, h.2, h.3⟩⟩

/-- `smtp_reactor_disarm`, whose result is discarded. -/
def disarm (sock : Nat) (kind : IoKind) : Kqueue :=
  (r.evDelete sock kind.filter).toOption.getD r

/-- `EPIPE`. -/
def epipe : Nat := 32

def handleConnectReady (op : OpMemory) (event : KqueueEvent) : UserResult :=
  ⟨op.userData, .connect, event.soError, 0⟩

def handleReadReady (op : OpMemory) (event : KqueueEvent) : Option UserResult :=
  match event.transferred with
  | .wouldBlock => none
  | .failed errno => some ⟨op.userData, .read, errno, 0⟩
  | .bytes n => some ⟨op.userData, .read, 0, n⟩

/-- `smtp_reactor_handle_write_ready`. The signal comes before `send` returns. -/
def handleWriteReady (op : OpMemory) (event : KqueueEvent) :
    Except ProcessEnd (Option UserResult) :=
  match event.transferred with
  | .wouldBlock => .ok none
  | .failed errno =>
      if errno = epipe && !event.noSigpipe then .error .sigpipe
      else .ok (some ⟨op.userData, .write, errno, 0⟩)
  | .bytes n => .ok (some ⟨op.userData, .write, 0, n⟩)

/-- The `switch` on the kind of an operation that is ready. -/
def handleReady (op : OpMemory) (event : KqueueEvent) : Except ProcessEnd (Option UserResult) :=
  match op.kind with
  | .connect => .ok (some (handleConnectReady op event))
  | .read => .ok (handleReadReady op event)
  | .write => handleWriteReady op event

/-- The loop of `smtp_reactor_poll` over raw events, each with the `udata` that `kevent` copied out
of its filter. What it fills in comes with the operation it is about. -/
def pollLoop : Kqueue → List (Option Nat × KqueueEvent) →
    Except ProcessEnd (Kqueue × List (Nat × UserResult))
  | r, [] => .ok (r, [])
  | r, (udata, event) :: rest =>
      match udata with
      | none => .error (.assertion .opNull)
      | some op => do
          match ← handleReady (r.ops op) event with
          | none => pollLoop r rest
          | some completion =>
              let (r, filled) ← pollLoop (r.disarm (r.ops op).sock (r.ops op).kind) rest
              return (r, (op, completion) :: filled)

/-- `smtp_reactor_poll`, given what `kevent` returns. -/
def poll (rawEvents : List KqueueEvent) (maxOut : Nat) :
    Except ProcessEnd (Kqueue × List (Nat × UserResult)) :=
  let limit := if rawEvents.length < maxOut then rawEvents.length else maxOut
  r.pollLoop ((rawEvents.map fun event => (r.filters event.sock event.filter, event)).take limit)

/-- A write to a connection that is gone, on a socket that does not spare the process the signal. -/
def Broken (op : OpMemory) (event : KqueueEvent) : Prop :=
  op.kind = .write ∧ event.transferred = .failed epipe ∧ event.noSigpipe = false

/-- There is one among the events a poll comes to. -/
def Breaks (rawEvents : List KqueueEvent) (maxOut : Nat) : Prop :=
  ∃ event ∈ rawEvents.take maxOut, ∃ op ∈ r.filters event.sock event.filter,
    Broken (r.ops op) event

end Kqueue

/-! ### Runs -/

/-- A reactor in use: what is in flight, and what the caller has seen. -/
structure KqueueSession where
  reactor : Kqueue
  inFlight : List Submission
  history : List (Happening Submission UserResult Nat)

/-- What a caller does. Between its calls it may write to an operation of its own. -/
inductive KqueueCall where
  | submitConnect (op sock userData : Nat) (syscalls : ConnectSyscalls)
  | submitRead (op sock : Nat) (buf : Option Nat) (bufLen userData : Nat) (added : Bool)
  | submitWrite (op sock : Nat) (buf : Option Nat) (bufLen userData : Nat) (added : Bool)
  | poll (rawEvents : List KqueueEvent) (maxOut : Nat)
  | forget (sock : Nat)
  | writeOp (op : Nat) (memory : OpMemory)

namespace KqueueSession

/-- An operation is untouched while it is in flight, and at most one is in flight for a socket. The
kernel refuses nothing here: a second submission would take the place of the first. -/
def admissible (s : KqueueSession) : KqueueCall → Prop
  | .submitConnect op sock _ _ | .submitRead op sock _ _ _ _ | .submitWrite op sock _ _ _ _ =>
      ∀ sub ∈ s.inFlight, sub.op ≠ op ∧ sub.sock ≠ sock
  | .poll rawEvents _ => s.reactor.Reports rawEvents
  | .forget _ => True
  | .writeOp op _ => ∀ sub ∈ s.inFlight, sub.op ≠ op

instance (s : KqueueSession) : (call : KqueueCall) → Decidable (s.admissible call)
  | .submitConnect op sock _ _ | .submitRead op sock _ _ _ _ | .submitWrite op sock _ _ _ _ =>
      inferInstanceAs (Decidable (∀ sub ∈ s.inFlight, sub.op ≠ op ∧ sub.sock ≠ sock))
  | .poll rawEvents _ => inferInstanceAs (Decidable (s.reactor.Reports rawEvents))
  | .forget _ => inferInstanceAs (Decidable True)
  | .writeOp op _ => inferInstanceAs (Decidable (∀ sub ∈ s.inFlight, sub.op ≠ op))

/-- What a submission call leaves. -/
def submitted (s : KqueueSession) (submission : Submission) (answer : Kqueue × ReactorErr) :
    KqueueSession :=
  if answer.2 = .ok then
    ⟨answer.1, submission :: s.inFlight, s.history ++ [.accepted submission]⟩
  else ⟨answer.1, s.inFlight, s.history ++ [.refused]⟩

def step (s : KqueueSession) : KqueueCall → Except ProcessEnd KqueueSession
  | .submitConnect op sock userData syscalls =>
      .ok (s.submitted ⟨op, sock, .connect, userData⟩
        (s.reactor.submitConnect op sock userData syscalls))
  | .submitRead op sock buf bufLen userData added => do
      let answer ← (s.reactor.submitRead op sock buf bufLen userData added).mapError .assertion
      return s.submitted ⟨op, sock, .read, userData⟩ answer
  | .submitWrite op sock buf bufLen userData added => do
      let answer ← (s.reactor.submitWrite op sock buf bufLen userData added).mapError .assertion
      return s.submitted ⟨op, sock, .write, userData⟩ answer
  | .poll rawEvents maxOut => do
      let (reactor, filled) ← s.reactor.poll rawEvents maxOut
      return ⟨reactor,
        filled.foldl (fun inFlight (op, _) => inFlight.filter fun sub => sub.op ≠ op) s.inFlight,
        s.history ++ [.reported (filled.map Prod.snd)]⟩
  | .forget sock => do
      let reactor ← (s.reactor.forget sock).mapError .assertion
      return ⟨reactor, s.inFlight.filter fun sub => sub.sock ≠ sock, s.history ++ [.forgot sock]⟩
  | .writeOp op memory => .ok { s with reactor := s.reactor.store op memory }

def machine : Machine KqueueSession KqueueCall ProcessEnd := ⟨admissible, step⟩

instance (s : KqueueSession) (call : KqueueCall) : Decidable (machine.admissible s call) :=
  inferInstanceAs (Decidable (s.admissible call))

/-- A reactor straight out of `smtp_reactor_create`. -/
def Fresh (s : KqueueSession) : Prop :=
  ∃ maxConnections answers ops,
    Kqueue.create maxConnections answers ops = some s.reactor ∧ s.inFlight = [] ∧ s.history = []

def Reachable (s : KqueueSession) : Prop := ∃ s₀ calls, Fresh s₀ ∧ machine.Run s₀ calls s

end KqueueSession

end SmtpClient
