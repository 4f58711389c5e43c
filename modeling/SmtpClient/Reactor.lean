import SmtpClient.Base.Buffer

/-!
# The reactor

The vocabulary of `smtp_reactor.h`, and the bookkeeping of `smtp_reactor_linux.c` that does not
belong to the kernel: how many sockets are registered. An operation names the buffer it was given,
not an address; the socket and the user data of an operation are those of the connection that owns
it.
-/

namespace SmtpClient

inductive IoKind where
  | connect
  | read
  | write
  deriving DecidableEq, Repr

/-- Where `op->buf` points: nowhere, or into one of the buffers of the connection. -/
inductive BufRef where
  | null
  | readBuf (offset : Nat)
  | writeBuf
  | cipherBuf
  deriving DecidableEq, Repr

structure IoOp where
  kind : IoKind
  buf : BufRef
  bufLen : Nat
  deriving DecidableEq, Repr

/-- `smtp_io_result`; a non-zero `result` is a platform error code. -/
structure IoResult where
  kind : IoKind
  result : Int
  bytesTransferred : Nat
  deriving DecidableEq, Repr

/-- The `smtp_reactor_err` values a submission can return, with `ok = 0`. -/
inductive ReactorErr where
  | ok
  | invalidArg
  | atCapacity
  | registerFailed
  | notRegistered
  deriving DecidableEq, Repr

/-- The `int` a submission returns. -/
def ReactorErr.toInt : ReactorErr → Int
  | .ok => 0
  | .invalidArg => 1
  | .atCapacity => 4
  | .registerFailed => 5
  | .notRegistered => 6

/-- `struct smtp_reactor`, less the epoll descriptor and its scratch buffer. -/
structure Reactor where
  maxConnections : Nat
  liveCount : Nat
  deriving DecidableEq, Repr

/-- What `fcntl` and `epoll_ctl` answer to one `submit_connect`. -/
structure ConnectSyscalls where
  madeNonblocking : Bool
  added : Bool
  deriving DecidableEq, Repr

namespace Reactor

def create (maxConnections : Nat) : Option Reactor :=
  if maxConnections = 0 then none else some ⟨maxConnections, 0⟩

def submitConnect (r : Reactor) (syscalls : ConnectSyscalls) : Reactor × ReactorErr :=
  if r.maxConnections ≤ r.liveCount then (r, .atCapacity)
  else if !syscalls.madeNonblocking then (r, .invalidArg)
  else if !syscalls.added then (r, .registerFailed)
  else ({ r with liveCount := r.liveCount + 1 }, .ok)

/-- `smtp_reactor_forget`; `none` is its assertion `live_count > 0`. -/
def forget (r : Reactor) : Option Reactor :=
  if 0 < r.liveCount then some { r with liveCount := r.liveCount - 1 } else none

end Reactor

end SmtpClient
