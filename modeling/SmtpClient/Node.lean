import SmtpClient.KqueueSession
import SmtpClient.Orchestrator

/-!
# The orchestrator over its reactor

`smtp_orchestrator_run` with the reactor it is linked with. The loop as modelled alone is given the
answers of a reactor; here a turn of it makes its calls on a backend, as the traces of its
connections show them, and the kernel decides what that backend reports. The operation of the
connection in a slot is in memory at the number of the slot, which is its user data too.
-/

namespace SmtpClient

/-- No more bytes than there is room for. -/
def Transferred.Within (room : Nat) : Transferred → Prop
  | .bytes n => n ≤ room
  | .wouldBlock | .failed _ => True

instance (room : Nat) : (transferred : Transferred) → Decidable (transferred.Within room)
  | .bytes n => inferInstanceAs (Decidable (n ≤ room))
  | .wouldBlock | .failed _ => inferInstanceAs (Decidable True)

/-- `smtp_reactor.h`, as one backend implements it, with what its kernel may report. -/
structure Backend where
  State : Type
  Event : Type
  counts : State → Reactor
  ops : State → Nat → OpMemory
  Reports : State → List Event → Prop
  submitConnect : State → (op sock userData : Nat) → ConnectSyscalls → State × ReactorErr
  submitRead : State → (op sock : Nat) → (buf : Option Nat) → (bufLen userData : Nat) →
    (resources : Bool) → Except EpollAssertion (State × ReactorErr)
  submitWrite : State → (op sock : Nat) → (buf : Option Nat) → (bufLen userData : Nat) →
    (resources : Bool) → Except EpollAssertion (State × ReactorErr)
  poll : State → List Event → (maxOut : Nat) → Except ProcessEnd (State × List UserResult)
  /-- A poll of these events gets the process `SIGPIPE`. -/
  Breaks : State → List Event → (maxOut : Nat) → Prop
  forget : State → (sock : Nat) → Except EpollAssertion State

/-- A descriptor is reported once, and `recv` and `send` transfer no more than they were given room
for. -/
def Epoll.ReportsAll (r : Epoll) (events : List RawEvent) : Prop :=
  events.length ≤ r.maxConnections ∧ (events.map RawEvent.sock).Nodup
    ∧ ∀ event ∈ events, r.Reports event
      ∧ ∀ op ∈ (r.interests event.sock).bind Interest.ptr,
        event.transferred.Within (r.ops op).bufLen

instance Epoll.decidableReportsAll (r : Epoll) (events : List RawEvent) :
    Decidable (r.ReportsAll events) :=
  inferInstanceAs (Decidable (events.length ≤ r.maxConnections
    ∧ (events.map RawEvent.sock).Nodup
    ∧ ∀ event ∈ events, r.Reports event
      ∧ ∀ op ∈ (r.interests event.sock).bind Interest.ptr,
        event.transferred.Within (r.ops op).bufLen))

/-- The sockets are those of `smtp_orch_start_slot`, which sets no `SO_NOSIGPIPE`. -/
def Kqueue.ReportsAll (r : Kqueue) (events : List KqueueEvent) : Prop :=
  r.Reports events ∧ ∀ event ∈ events, event.noSigpipe = false
    ∧ ∀ op ∈ r.filters event.sock event.filter, event.transferred.Within (r.ops op).bufLen

instance Kqueue.decidableReportsAll (r : Kqueue) (events : List KqueueEvent) :
    Decidable (r.ReportsAll events) :=
  inferInstanceAs (Decidable (r.Reports events
    ∧ ∀ event ∈ events, event.noSigpipe = false
      ∧ ∀ op ∈ r.filters event.sock event.filter, event.transferred.Within (r.ops op).bufLen))

/-- `smtp_reactor_linux.c`. -/
def Backend.epoll : Backend where
  State := Epoll
  Event := RawEvent
  counts r := ⟨r.maxConnections, r.liveCount⟩
  ops := Epoll.ops
  Reports := Epoll.ReportsAll
  submitConnect := Epoll.submitConnect
  submitRead := Epoll.submitRead
  submitWrite := Epoll.submitWrite
  poll r events maxOut :=
    ((r.poll events maxOut).mapError .assertion).map (Prod.map id (List.map Prod.snd))
  -- `MSG_NOSIGNAL`
  Breaks _ _ _ := False
  forget := Epoll.forget

/-- `smtp_reactor_unix.c`. -/
def Backend.kqueue : Backend where
  State := Kqueue
  Event := KqueueEvent
  counts r := ⟨r.maxConnections, r.liveCount⟩
  ops := Kqueue.ops
  Reports := Kqueue.ReportsAll
  submitConnect := Kqueue.submitConnect
  submitRead := Kqueue.submitRead
  submitWrite := Kqueue.submitWrite
  poll r events maxOut := (r.poll events maxOut).map (Prod.map id (List.map Prod.snd))
  Breaks := Kqueue.Breaks
  forget := Kqueue.forget

instance (r : Backend.epoll.State) (events : List Backend.epoll.Event) :
    Decidable (Backend.epoll.Reports r events) := Epoll.decidableReportsAll r events

instance (r : Backend.kqueue.State) (events : List Backend.kqueue.Event) :
    Decidable (Backend.kqueue.Reports r events) := Kqueue.decidableReportsAll r events

/-- Where the buffers of the connection in a slot are. -/
abbrev Layout := Nat → BufRef → Nat

/-- The `buf` a connection passes on. -/
def BufRef.pointer (layout : Layout) (i : Nat) : BufRef → Option Nat
  | .null => none
  | buf => some (layout i buf)

/-- How a turn can fail: the loop aborts, the process ends in the reactor, or the reactor does not
answer as the loop was told. -/
inductive NodeAbort where
  | loop (a : Abort)
  | reactor (e : ProcessEnd)
  | mismatch
  deriving DecidableEq, Repr

def NodeAbort.assertion (a : EpollAssertion) : NodeAbort := .reactor (.assertion a)

/-- A loop, its reactor, and `slot->sock` of each slot. -/
structure Node (B : Backend) (E : TlsEngine) where
  loop : Loop E
  reactor : B.State
  socks : Nat → Nat

/-- A turn of the loop, with what the kernel answers: the socket made, the answers to the
registration, what is reported and what `recv` has put in the buffers, and whether there were the
resources to register the next operation. -/
inductive NodeTurn (B : Backend) (E : TlsEngine) where
  | requestStop
  | iterate (nowMs : Nat)
  | fill (sock : Option Nat) (syscalls : ConnectSyscalls)
  | polled (events : List B.Event) (received : Nat → Bytes) (nowMs : Nat)
  | handle (entropy : E.Entropy) (resources : Bool)
  | sweep

namespace Node

variable {B : Backend} {E : TlsEngine}

/-- What a connection is told of the registration of its next operation. -/
def submitRc (resources : Bool) : Int :=
  (if resources then ReactorErr.ok else ReactorErr.registerFailed).toInt

/-- A completion as `smtp_connection_on_io` is shown it: the operation of the connection behind the
user data, and the bytes there. -/
def completion (orch : Orchestrator E) (received : Nat → Bytes) (user : UserResult) : Completion :=
  let i := user.userData
  match orch.slots[i]? with
  | none => ⟨i, ⟨user.result.kind, .null, 0⟩, user.result.result, []⟩
  | some slot =>
      let conn := slot.world.conn
      { slot := i
        op := ⟨user.result.kind, conn.op.buf, conn.op.bufLen⟩
        result := user.result.result
        data :=
          match user.result.kind with
          | .connect => []
          | .read => received i
          | .write => conn.contents conn.op.buf user.result.bytesTransferred }

section Calls

variable (layout : Layout)

/-- The reactor has answered what the connection was told. -/
def answered (rc : Int) (answer : B.State × ReactorErr) : Except NodeAbort B.State :=
  if answer.2.toInt = rc then .ok answer.1 else .error .mismatch

/-- A call of the connection in slot `i`, read off its trace. -/
def call (i sock : Nat) (op : IoOp) (syscalls : ConnectSyscalls) (resources : Bool) (r : B.State) :
    Effect → Except NodeAbort B.State
  | .submitConnect rc => answered rc (B.submitConnect r i sock i syscalls)
  | .submitRead rc => do
      let answer ← (B.submitRead r i sock (op.buf.pointer layout i) op.bufLen i resources).mapError
        NodeAbort.assertion
      answered rc answer
  | .submitWrite _ _ rc => do
      let answer ← (B.submitWrite r i sock (op.buf.pointer layout i) op.bufLen i resources).mapError
        NodeAbort.assertion
      answered rc answer
  | _ => .ok r

/-- The calls a turn has made for slot `i`: the submissions new on its trace, and
`smtp_reactor_forget` if it was in use and is no more. -/
def settle (n : Node B E) (loop : Loop E) (i : Nat) (before : List Effect) (wasInUse : Bool)
    (syscalls : ConnectSyscalls) (resources : Bool) : Except NodeAbort (Node B E) :=
  match loop.orch.slots[i]? with
  | none => .ok { n with loop := loop }
  | some slot => do
      let fresh := (submissions slot.world.trace).drop (submissions before).length
      let reactor ← fresh.foldlM
        (call layout i (n.socks i) slot.world.conn.op syscalls resources) n.reactor
      let reactor ←
        if wasInUse && !slot.inUse then
          (B.forget reactor (n.socks i)).mapError NodeAbort.assertion
        else .ok reactor
      return ⟨loop, reactor, n.socks⟩

/-- A turn on the connection in slot `i`. -/
def tend (n : Node B E) (loop : Loop E) (i : Nat) (resources : Bool) :
    Except NodeAbort (Node B E) :=
  match n.loop.orch.slots[i]? with
  | none => .ok { n with loop := loop }
  | some slot =>
      n.settle layout loop i slot.world.trace slot.inUse ⟨true, true⟩ resources

/-- A turn of the loop in which it calls nothing. -/
def turn (n : Node B E) (turn : Turn E) : Except NodeAbort (Loop E) :=
  (n.loop.step turn).mapError .loop

/-- `slot->sock = sock`. -/
def opened (n : Node B E) (i sock : Nat) : Node B E :=
  { n with socks := Function.update n.socks i sock }

def step (n : Node B E) (nodeTurn : NodeTurn B E) : Except NodeAbort (Node B E) :=
  match nodeTurn, n.loop.pc with
  | .requestStop, _ => do return { n with loop := ← n.turn .requestStop }
  | .iterate nowMs, .top => do return { n with loop := ← n.turn (.iterate nowMs) }
  | .fill sock syscalls, .fill i _ => do
      let loop ← n.turn (.fill sock.isSome syscalls)
      match sock, n.loop.orch.slots[i]? with
      | some sock, some slot =>
          if slot.inUse || n.loop.targetStarted then return { n with loop := loop }
          else (n.opened i sock).settle layout loop i [] false syscalls true
      | _, _ => return { n with loop := loop }
  | .polled events received nowMs, .poll _ => do
      let (reactor, users) ← (B.poll n.reactor events pollBatch).mapError .reactor
      let results := users.map (completion n.loop.orch received)
      -- A connection is told the number of bytes, not shown them.
      if results.map (fun c => c.data.length) ≠ users.map fun user => user.result.bytesTransferred
      then .error .mismatch
      else return ⟨← n.turn (.polled results nowMs), reactor, n.socks⟩
  | .handle entropy resources, .dispatch results _ => do
      let loop ← n.turn (.handle ⟨entropy, submitRc resources⟩)
      match results with
      | [] => return { n with loop := loop }
      | c :: _ => n.tend layout loop c.slot resources
  | .sweep, .sweep i _ => do
      let loop ← n.turn .sweep
      n.tend layout loop i true
  | _, _ => .ok n

end Calls

/-- Where a turn is taken. -/
def fits : NodeTurn B E → Pc → Bool
  | .requestStop, _ => true
  | .iterate _, .top => true
  | .fill _ _, .fill _ _ => true
  | .polled _ _ _, .poll _ => true
  | .handle _ _, .dispatch _ _ => true
  | .sweep, .sweep _ _ => true
  | _, _ => false

/-- A socket just made is none of those open, the kernel reports what it may, and a read has put in
the buffer as many bytes as it returned. -/
def admissible (n : Node B E) (nodeTurn : NodeTurn B E) : Prop :=
  fits nodeTurn n.loop.pc = true ∧
    match nodeTurn with
    | .fill opened _ => ∀ sock ∈ opened, ∀ i slot, n.loop.orch.slots[i]? = some slot →
        slot.inUse = true → n.socks i ≠ sock
    | .polled events received _ => B.Reports n.reactor events
        ∧ ∀ answer, B.poll n.reactor events pollBatch = .ok answer →
          ∀ user ∈ answer.2, user.result.kind = .read →
            (received user.userData).length = user.result.bytesTransferred
    | _ => True

instance [∀ r events, Decidable (B.Reports r events)] (n : Node B E) :
    (nodeTurn : NodeTurn B E) → Decidable (n.admissible nodeTurn)
  | .requestStop => inferInstanceAs (Decidable (_ ∧ True))
  | .iterate _ => inferInstanceAs (Decidable (_ ∧ True))
  | .fill opened syscalls =>
      decidable_of_iff (fits (.fill opened syscalls : NodeTurn B E) n.loop.pc = true
        ∧ ∀ sock ∈ opened, ∀ i < n.loop.orch.slots.length, ∀ slot ∈ n.loop.orch.slots[i]?,
          slot.inUse = true → n.socks i ≠ sock) (by
        apply and_congr_right
        intro _
        constructor
        · intro h sock hsock i slot hslot
          obtain ⟨hlt, -⟩ := List.getElem?_eq_some_iff.1 hslot
          exact h sock hsock i hlt slot hslot
        · intro h sock hsock i _ slot hslot
          exact h sock hsock i slot hslot)
  | .polled events received nowMs =>
      decidable_of_iff (fits (.polled events received nowMs : NodeTurn B E) n.loop.pc = true
        ∧ B.Reports n.reactor events
        ∧ ∀ answer ∈ (B.poll n.reactor events pollBatch).toOption, ∀ user ∈ answer.2,
          user.result.kind = .read →
            (received user.userData).length = user.result.bytesTransferred) (by
        apply and_congr_right
        intro _
        apply and_congr_right
        intro _
        cases B.poll n.reactor events pollBatch with
        | error a => simp [Except.toOption]
        | ok answer => simp [Except.toOption])
  | .handle _ _ => inferInstanceAs (Decidable (_ ∧ True))
  | .sweep => inferInstanceAs (Decidable (_ ∧ True))

/-- The poll of this turn comes upon a broken pipe. -/
def Breaks (n : Node B E) : NodeTurn B E → Prop
  | .polled events _ _ => B.Breaks n.reactor events pollBatch
  | _ => False

def machine (layout : Layout) : Machine (Node B E) (NodeTurn B E) NodeAbort :=
  ⟨admissible, fun n nodeTurn => n.step layout nodeTurn⟩

instance [∀ r events, Decidable (B.Reports r events)] (layout : Layout) (n : Node B E)
    (nodeTurn : NodeTurn B E) : Decidable ((machine layout).admissible n nodeTurn) :=
  inferInstanceAs (Decidable (n.admissible nodeTurn))

/-- A call of `smtp_orchestrator_run` on an orchestrator and a reactor that have just been made. -/
def begin (orch : Orchestrator E) (totalTarget : UInt64) (reactor : B.State) : Node B E :=
  ⟨.begin orch totalTarget, reactor, fun _ => 0⟩

def Reachable (layout : Layout) (orch : Orchestrator E) (totalTarget : UInt64) (reactor : B.State)
    (n : Node B E) : Prop :=
  ∃ turns, (machine layout).Run (begin orch totalTarget reactor) turns n

end Node

end SmtpClient
