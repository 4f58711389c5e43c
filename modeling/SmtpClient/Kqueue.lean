import SmtpClient.Epoll

/-!
# The kqueue backend

The submissions of `smtp_reactor_unix.c` and its `smtp_reactor_forget`, with the part of the kernel
they talk to: two filters for each socket, independent of one another, each absent or armed with a
pointer. The assertions are those of the epoll backend, and so are the operations in memory.
-/

namespace SmtpClient

inductive KqueueFilter where
  | evfiltRead
  | evfiltWrite
  deriving DecidableEq, Repr

/-- The `errno` of a `kevent` that fails on an open socket. -/
inductive KeventErr where
  | enoent
  | enomem
  deriving DecidableEq, Repr

/-- `struct smtp_reactor`, the filters behind `kq`, and the operations in memory. -/
structure Kqueue where
  maxConnections : Nat
  liveCount : Nat
  filters : Nat → KqueueFilter → Option Nat
  ops : Nat → OpMemory

namespace Kqueue

variable (r : Kqueue)

/-! ### The kernel -/

/-- A filter put in place or taken away. -/
def setFilter (sock : Nat) (filter : KqueueFilter) (udata : Option Nat) : Kqueue :=
  { r with
    filters := Function.update r.filters sock (Function.update (r.filters sock) filter udata) }

/-- `EV_ADD | EV_ENABLE` adds a filter or changes the one there is, and fails where the kernel lacks
the resources. -/
def evAdd (sock : Nat) (filter : KqueueFilter) (op : Nat) (resources : Bool) :
    Except KeventErr Kqueue :=
  if !resources then .error .enomem else .ok (r.setFilter sock filter (some op))

/-- `EV_DELETE` fails on a filter that is not there. -/
def evDelete (sock : Nat) (filter : KqueueFilter) : Except KeventErr Kqueue :=
  if (r.filters sock filter).isNone then .error .enoent
  else .ok (r.setFilter sock filter none)

/-! ### The reactor -/

/-- Which of the allocations of `smtp_reactor_create` succeed. -/
structure CreateAnswers where
  allocated : Bool
  kqueueCreated : Bool
  eventsAllocated : Bool

/-- `smtp_reactor_create`, with whatever is in memory. -/
def create (maxConnections : Nat) (answers : CreateAnswers) (ops : Nat → OpMemory) :
    Option Kqueue :=
  if maxConnections = 0 then none
  else if !answers.allocated then none
  else if !answers.kqueueCreated then none
  else if !answers.eventsAllocated then none
  else some ⟨maxConnections, 0, fun _ _ => none, ops⟩

def store (op : Nat) (memory : OpMemory) : Kqueue :=
  { r with ops := Function.update r.ops op memory }

/-- `smtp_reactor_submit_connect`. -/
def submitConnect (op sock userData : Nat) (syscalls : ConnectSyscalls) : Kqueue × ReactorErr :=
  if r.maxConnections ≤ r.liveCount then (r, .atCapacity)
  else if !syscalls.madeNonblocking then (r, .invalidArg)
  else
    let r := r.store op ⟨sock, none, 0, .connect, userData⟩
    match r.evAdd sock .evfiltWrite op syscalls.added with
    | .error _ => (r, .registerFailed)
    | .ok r => ({ r with liveCount := r.liveCount + 1 }, .ok)

/-- The two deletions of `smtp_reactor_submit_rw` and of `smtp_reactor_forget`, whose results are
discarded. -/
def deleteBoth (sock : Nat) : Kqueue :=
  let r := (r.evDelete sock .evfiltRead).toOption.getD r
  (r.evDelete sock .evfiltWrite).toOption.getD r

/-- `smtp_reactor_submit_rw`; `added` is whether the kernel has the resources for the filter. -/
def submitRw (op sock : Nat) (buf : Option Nat) (bufLen userData : Nat) (kind : IoKind)
    (filter : KqueueFilter) (added : Bool) : Kqueue × ReactorErr :=
  let r := (r.store op ⟨sock, buf, bufLen, kind, userData⟩).deleteBoth sock
  match r.evAdd sock filter op added with
  | .error .enoent => (r, .notRegistered)
  | .error .enomem => (r, .registerFailed)
  | .ok r => (r, .ok)

def submitRead (op sock : Nat) (buf : Option Nat) (bufLen userData : Nat) (added : Bool) :
    Except EpollAssertion (Kqueue × ReactorErr) :=
  if buf.isNone then .error .bufNull
  else .ok (r.submitRw op sock buf bufLen userData .read .evfiltRead added)

def submitWrite (op sock : Nat) (buf : Option Nat) (bufLen userData : Nat) (added : Bool) :
    Except EpollAssertion (Kqueue × ReactorErr) :=
  if buf.isNone then .error .bufNull
  else .ok (r.submitRw op sock buf bufLen userData .write .evfiltWrite added)

/-- `smtp_reactor_forget`. -/
def forget (sock : Nat) : Except EpollAssertion Kqueue :=
  if r.liveCount = 0 then .error .liveCount
  else .ok { r.deleteBoth sock with liveCount := r.liveCount - 1 }

end Kqueue

/-! ### One interface -/

/-- A call of the interface, on an open socket and with no failure for want of resources. -/
inductive ReactorCall where
  | submitConnect (op sock userData : Nat) (madeNonblocking : Bool)
  | submitRead (op sock : Nat) (buf : Option Nat) (bufLen userData : Nat)
  | submitWrite (op sock : Nat) (buf : Option Nat) (bufLen userData : Nat)
  | forget (sock : Nat)
  deriving DecidableEq, Repr

/-- The status a call returns, if it returns one. -/
abbrev Status := Option ReactorErr

def Epoll.call (r : Epoll) : ReactorCall → Except EpollAssertion (Epoll × Status)
  | .submitConnect op sock userData madeNonblocking =>
      let (r, err) := r.submitConnect op sock userData ⟨madeNonblocking, true⟩
      .ok (r, some err)
  | .submitRead op sock buf bufLen userData => do
      let (r, err) ← r.submitRead op sock buf bufLen userData true
      return (r, some err)
  | .submitWrite op sock buf bufLen userData => do
      let (r, err) ← r.submitWrite op sock buf bufLen userData true
      return (r, some err)
  | .forget sock => do return (← r.forget sock, none)

def Kqueue.call (r : Kqueue) : ReactorCall → Except EpollAssertion (Kqueue × Status)
  | .submitConnect op sock userData madeNonblocking =>
      let (r, err) := r.submitConnect op sock userData ⟨madeNonblocking, true⟩
      .ok (r, some err)
  | .submitRead op sock buf bufLen userData => do
      let (r, err) ← r.submitRead op sock buf bufLen userData true
      return (r, some err)
  | .submitWrite op sock buf bufLen userData => do
      let (r, err) ← r.submitWrite op sock buf bufLen userData true
      return (r, some err)
  | .forget sock => do return (← r.forget sock, none)

end SmtpClient
