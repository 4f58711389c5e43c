import SmtpClient.Reactor
import SmtpClient.Base.Machine
import SmtpClient.Base.Completions
import Mathlib.Logic.Function.Basic

/-!
# The epoll backend

`smtp_reactor_linux.c`, with the part of the kernel it talks to: the interest list of its epoll
descriptor, which holds an event mask and a pointer for each registered socket. Operations live in
the caller's memory, and what the reactor knows of one it reads there when the socket becomes ready.
Descriptors and addresses are numbers.

A session is a reactor in use, over every sequence of calls and everything the kernel may report.
-/

namespace SmtpClient

inductive EpollFlag where
  | epollIn
  | epollOut
  | epollErr
  | epollHup
  deriving DecidableEq, Repr

/-- `struct epoll_event`, as registered: `data.ptr` points to an operation, or is NULL. -/
structure Interest where
  events : List EpollFlag
  ptr : Option Nat
  deriving DecidableEq, Repr

/-- `smtp_io_op`, in memory. -/
structure OpMemory where
  sock : Nat
  buf : Option Nat
  bufLen : Nat
  kind : IoKind
  userData : Nat
  deriving DecidableEq, Repr

/-- `smtp_io_result`, with the caller's pointer. -/
structure UserResult where
  userData : Nat
  result : IoResult
  deriving DecidableEq, Repr

/-- What a non-blocking `recv` or `send` returns. -/
inductive Transferred where
  | bytes (n : Nat)
  | wouldBlock
  | failed (errno : Nat)
  deriving DecidableEq, Repr

/-- One entry of what `epoll_wait` returns, and what the socket answers to the call that follows. -/
structure RawEvent where
  sock : Nat
  events : List EpollFlag
  soError : Int
  transferred : Transferred
  deriving DecidableEq, Repr

inductive EpollAssertion where
  | opNull
  | bufNull
  | liveCount
  deriving DecidableEq, Repr

/-- `struct smtp_reactor`, the interest list behind `epoll_fd`, and the operations in memory. -/
structure Epoll where
  maxConnections : Nat
  liveCount : Nat
  interests : Nat → Option Interest
  ops : Nat → OpMemory

namespace Epoll

variable (r : Epoll)

/-! ### The kernel -/

/-- `EPOLL_CTL_ADD` fails on a registered descriptor, and where the kernel lacks the resources. -/
def ctlAdd (sock : Nat) (event : Interest) (resources : Bool) : Option Epoll :=
  if (r.interests sock).isSome || !resources then none
  else some { r with interests := Function.update r.interests sock (some event) }

/-- `EPOLL_CTL_MOD` fails on an unregistered descriptor. -/
def ctlMod (sock : Nat) (event : Interest) : Option Epoll :=
  if (r.interests sock).isNone then none
  else some { r with interests := Function.update r.interests sock (some event) }

def ctlDel (sock : Nat) : Epoll :=
  { r with interests := Function.update r.interests sock none }

/-- An event is reported while it is in the mask of a registered descriptor; errors and hang-ups are
reported whatever the mask is. -/
def Reports (event : RawEvent) : Prop :=
  ∃ interest ∈ r.interests event.sock, event.events ≠ []
    ∧ ∀ flag ∈ event.events, flag ∈ interest.events ∨ flag = .epollErr ∨ flag = .epollHup

instance (event : RawEvent) : Decidable (r.Reports event) :=
  match h : r.interests event.sock with
  | some interest =>
      decidable_of_iff (event.events ≠ []
        ∧ ∀ flag ∈ event.events, flag ∈ interest.events ∨ flag = .epollErr ∨ flag = .epollHup)
        (by simp [Reports, h])
  | none => .isFalse (by simp [Reports, h])

/-! ### The reactor -/

/-- Which of the allocations of `smtp_reactor_create` succeed. -/
structure CreateAnswers where
  allocated : Bool
  epollCreated : Bool
  eventsAllocated : Bool

/-- `smtp_reactor_create`, with whatever is in memory. -/
def create (maxConnections : Nat) (answers : CreateAnswers) (ops : Nat → OpMemory) : Option Epoll :=
  if maxConnections = 0 then none
  else if !answers.allocated then none
  else if !answers.epollCreated then none
  else if !answers.eventsAllocated then none
  else some ⟨maxConnections, 0, fun _ => none, ops⟩

def store (op : Nat) (memory : OpMemory) : Epoll :=
  { r with ops := Function.update r.ops op memory }

/-- `smtp_reactor_submit_connect`. -/
def submitConnect (op sock userData : Nat) (syscalls : ConnectSyscalls) : Epoll × ReactorErr :=
  if r.maxConnections ≤ r.liveCount then (r, .atCapacity)
  else if !syscalls.madeNonblocking then (r, .invalidArg)
  else
    let r := r.store op ⟨sock, none, 0, .connect, userData⟩
    match r.ctlAdd sock ⟨[.epollOut], some op⟩ syscalls.added with
    | none => (r, .registerFailed)
    | some r => ({ r with liveCount := r.liveCount + 1 }, .ok)

/-- `smtp_reactor_submit_rw`; `modified` is whether `epoll_ctl` has no other reason to fail. -/
def submitRw (op sock : Nat) (buf : Option Nat) (bufLen userData : Nat) (kind : IoKind)
    (epollEvents : List EpollFlag) (modified : Bool) : Epoll × ReactorErr :=
  let r := r.store op ⟨sock, buf, bufLen, kind, userData⟩
  match r.ctlMod sock ⟨epollEvents, some op⟩ with
  | none => (r, .notRegistered)
  | some r' => if modified then (r', .ok) else (r, .registerFailed)

def submitRead (op sock : Nat) (buf : Option Nat) (bufLen userData : Nat) (modified : Bool) :
    Except EpollAssertion (Epoll × ReactorErr) :=
  if buf.isNone then .error .bufNull
  else .ok (r.submitRw op sock buf bufLen userData .read [.epollIn] modified)

def submitWrite (op sock : Nat) (buf : Option Nat) (bufLen userData : Nat) (modified : Bool) :
    Except EpollAssertion (Epoll × ReactorErr) :=
  if buf.isNone then .error .bufNull
  else .ok (r.submitRw op sock buf bufLen userData .write [.epollOut] modified)

/-- `smtp_reactor_disarm`. Clearing a mask fails on an unregistered descriptor only. -/
def disarm (sock : Nat) : Epoll := (r.ctlMod sock ⟨[], none⟩).getD r

def handleConnectReady (op : OpMemory) (event : RawEvent) : UserResult :=
  ⟨op.userData, .connect, event.soError, 0⟩

/-- The body of `smtp_reactor_handle_read_ready` and of `smtp_reactor_handle_write_ready`; `none`
where they return 0. -/
def handleTransferReady (kind : IoKind) (op : OpMemory) (event : RawEvent) : Option UserResult :=
  match event.transferred with
  | .wouldBlock => none
  | .failed errno => some ⟨op.userData, kind, errno, 0⟩
  | .bytes n => some ⟨op.userData, kind, 0, n⟩

def handleReadReady (op : OpMemory) (event : RawEvent) : Option UserResult :=
  handleTransferReady .read op event

def handleWriteReady (op : OpMemory) (event : RawEvent) : Option UserResult :=
  handleTransferReady .write op event

/-- The `switch` on the kind of an operation that is ready. -/
def handleReady (op : OpMemory) (event : RawEvent) : Option UserResult :=
  match op.kind with
  | .connect => some (handleConnectReady op event)
  | .read => handleReadReady op event
  | .write => handleWriteReady op event

/-- The loop of `smtp_reactor_poll` over raw events, each with the pointer `epoll_wait` copied out
of the interest list. What it fills in comes with the operation it is about. -/
def pollLoop : Epoll → List (Option Nat × RawEvent) →
    Except EpollAssertion (Epoll × List (Nat × UserResult))
  | r, [] => .ok (r, [])
  | r, (ptr, event) :: rest =>
      match ptr with
      | none => .error .opNull
      | some op =>
          match handleReady (r.ops op) event with
          | none => pollLoop r rest
          | some completion => do
              let (r, filled) ← pollLoop (r.disarm (r.ops op).sock) rest
              return (r, (op, completion) :: filled)

/-- `smtp_reactor_poll`, given what `epoll_wait` returns. -/
def poll (rawEvents : List RawEvent) (maxOut : Nat) :
    Except EpollAssertion (Epoll × List (Nat × UserResult)) :=
  let limit := if rawEvents.length < maxOut then rawEvents.length else maxOut
  r.pollLoop ((rawEvents.map fun event =>
    ((r.interests event.sock).bind Interest.ptr, event)).take limit)

/-- `smtp_reactor_forget`. -/
def forget (sock : Nat) : Except EpollAssertion Epoll :=
  if r.liveCount = 0 then .error .liveCount
  else .ok { r.ctlDel sock with liveCount := r.liveCount - 1 }

end Epoll

/-! ### Runs -/

/-- A submission as its caller remembers it. -/
structure Submission where
  op : Nat
  sock : Nat
  kind : IoKind
  userData : Nat
  deriving DecidableEq, Repr

def UserResult.Fits (completion : UserResult) (submission : Submission) : Prop :=
  completion.userData = submission.userData ∧ completion.result.kind = submission.kind

/-- A reactor in use: what is in flight, and what the caller has seen. -/
structure EpollSession where
  reactor : Epoll
  inFlight : List Submission
  history : List (Happening Submission UserResult Nat)

/-- What a caller does. Between its calls it may write to an operation of its own. -/
inductive EpollCall where
  | submitConnect (op sock userData : Nat) (syscalls : ConnectSyscalls)
  | submitRead (op sock : Nat) (buf : Option Nat) (bufLen userData : Nat) (modified : Bool)
  | submitWrite (op sock : Nat) (buf : Option Nat) (bufLen userData : Nat) (modified : Bool)
  | poll (rawEvents : List RawEvent) (maxOut : Nat)
  | forget (sock : Nat)
  | writeOp (op : Nat) (memory : OpMemory)

namespace EpollSession

/-- An operation is untouched while it is in flight, at most one is in flight for a socket, and
`epoll_wait` reports a descriptor once. A second connect is not kept from a registered socket: the
kernel refuses it. -/
def admissible (s : EpollSession) : EpollCall → Prop
  | .submitConnect op _ _ _ => ∀ sub ∈ s.inFlight, sub.op ≠ op
  | .submitRead op sock _ _ _ _ | .submitWrite op sock _ _ _ _ =>
      ∀ sub ∈ s.inFlight, sub.op ≠ op ∧ sub.sock ≠ sock
  | .poll rawEvents _ => rawEvents.length ≤ s.reactor.maxConnections
      ∧ (rawEvents.map RawEvent.sock).Nodup ∧ ∀ event ∈ rawEvents, s.reactor.Reports event
  | .forget _ => True
  | .writeOp op _ => ∀ sub ∈ s.inFlight, sub.op ≠ op

instance (s : EpollSession) : (call : EpollCall) → Decidable (s.admissible call)
  | .submitConnect op _ _ _ => inferInstanceAs (Decidable (∀ sub ∈ s.inFlight, sub.op ≠ op))
  | .submitRead op sock _ _ _ _ | .submitWrite op sock _ _ _ _ =>
      inferInstanceAs (Decidable (∀ sub ∈ s.inFlight, sub.op ≠ op ∧ sub.sock ≠ sock))
  | .poll rawEvents _ =>
      inferInstanceAs (Decidable (rawEvents.length ≤ s.reactor.maxConnections
        ∧ (rawEvents.map RawEvent.sock).Nodup ∧ ∀ event ∈ rawEvents, s.reactor.Reports event))
  | .forget _ => inferInstanceAs (Decidable True)
  | .writeOp op _ => inferInstanceAs (Decidable (∀ sub ∈ s.inFlight, sub.op ≠ op))

/-- What a submission call leaves. -/
def submitted (s : EpollSession) (submission : Submission) (answer : Epoll × ReactorErr) :
    EpollSession :=
  if answer.2 = .ok then
    ⟨answer.1, submission :: s.inFlight, s.history ++ [.accepted submission]⟩
  else ⟨answer.1, s.inFlight, s.history ++ [.refused]⟩

def step (s : EpollSession) : EpollCall → Except EpollAssertion EpollSession
  | .submitConnect op sock userData syscalls =>
      .ok (s.submitted ⟨op, sock, .connect, userData⟩
        (s.reactor.submitConnect op sock userData syscalls))
  | .submitRead op sock buf bufLen userData modified => do
      let answer ← s.reactor.submitRead op sock buf bufLen userData modified
      return s.submitted ⟨op, sock, .read, userData⟩ answer
  | .submitWrite op sock buf bufLen userData modified => do
      let answer ← s.reactor.submitWrite op sock buf bufLen userData modified
      return s.submitted ⟨op, sock, .write, userData⟩ answer
  | .poll rawEvents maxOut => do
      let (reactor, filled) ← s.reactor.poll rawEvents maxOut
      return ⟨reactor,
        filled.foldl (fun inFlight (op, _) => inFlight.filter fun sub => sub.op ≠ op) s.inFlight,
        s.history ++ [.reported (filled.map Prod.snd)]⟩
  | .forget sock => do
      let reactor ← s.reactor.forget sock
      return ⟨reactor, s.inFlight.filter fun sub => sub.sock ≠ sock, s.history ++ [.forgot sock]⟩
  | .writeOp op memory => .ok { s with reactor := s.reactor.store op memory }

def machine : Machine EpollSession EpollCall EpollAssertion := ⟨admissible, step⟩

instance (s : EpollSession) (call : EpollCall) : Decidable (machine.admissible s call) :=
  inferInstanceAs (Decidable (s.admissible call))

/-- A reactor straight out of `smtp_reactor_create`. -/
def Fresh (s : EpollSession) : Prop :=
  ∃ maxConnections answers ops,
    Epoll.create maxConnections answers ops = some s.reactor ∧ s.inFlight = [] ∧ s.history = []

def Reachable (s : EpollSession) : Prop := ∃ s₀ calls, Fresh s₀ ∧ machine.Run s₀ calls s

end EpollSession

end SmtpClient
