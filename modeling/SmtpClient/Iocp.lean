import SmtpClient.Orchestrator
import Mathlib.Data.List.Perm.Subperm

/-!
# The IOCP backend

`smtp_reactor_windows.c`, under the same orchestrator. The OS takes an operation over when it is
submitted, and gives it back once: as a packet with the address of its OVERLAPPED and nothing else.
That address is the slot's, and what `smtp_reactor_poll` reports is read from the operation that is
there by then. Nothing takes an operation back from the OS, not even closing its socket, which only
makes it fail.

A packet carries what the OS does not know: the serial number of the attempt that submitted the
operation, and the operation.
-/

namespace SmtpClient

variable {E : TlsEngine}

/-- What `bind`, `CreateIoCompletionPort` and `ConnectEx` answer to one `submit_connect`. -/
structure ConnectExAnswers where
  bound : Bool
  associated : Bool
  taken : Bool
  deriving DecidableEq, Repr

/-- `smtp_reactor_submit_connect`. -/
def Reactor.submitConnectEx (r : Reactor) (answers : ConnectExAnswers) : Reactor × ReactorErr :=
  if r.maxConnections ≤ r.liveCount then (r, .atCapacity)
  else if !answers.bound then (r, .invalidArg)
  else if !answers.associated then (r, .registerFailed)
  else if !answers.taken then (r, .registerFailed)
  else ({ r with liveCount := r.liveCount + 1 }, .ok)

/-- For the orchestrator it is that of the other backends. -/
theorem Reactor.submitConnectEx_eq (r : Reactor) (answers : ConnectExAnswers) :
    r.submitConnectEx answers
      = r.submitConnect ⟨answers.bound, answers.associated && answers.taken⟩ := by
  obtain ⟨bound, associated, taken⟩ := answers
  cases bound <;> cases associated <;> cases taken <;> rfl

/-- What the port hands out. -/
structure Packet where
  slot : Nat
  serial : Nat
  op : IoOp
  deriving DecidableEq, Repr

/-- What `WSAGetOverlappedResult` answers, with the bytes a read has put where it points. -/
inductive Overlapped where
  | succeeded (data : Bytes)
  | failed (error : Int)
  deriving DecidableEq, Repr

/-- `smtp_reactor_handle_completion`. -/
def handleCompletion (orch : Orchestrator E) (packet : Packet) (answer : Overlapped) :
    Option Completion :=
  (orch.slots[packet.slot]?).map fun slot =>
    match answer with
    | .succeeded data => ⟨packet.slot, slot.world.conn.op, 0, data⟩
    | .failed error => ⟨packet.slot, slot.world.conn.op, error, []⟩

/-- What the OS may answer about the operation that is at an address. -/
def Overlapped.Fits (w : World E) : Overlapped → Prop
  | .succeeded data => data.length ≤ w.conn.op.bufLen
      ∧ (w.conn.op.kind = .write → data = w.conn.contents w.conn.op.buf data.length)
  | .failed error => error ≠ 0

instance (w : World E) : (answer : Overlapped) → Decidable (answer.Fits w)
  | .succeeded data => inferInstanceAs (Decidable (data.length ≤ w.conn.op.bufLen
      ∧ (w.conn.op.kind = .write → data = w.conn.contents w.conn.op.buf data.length)))
  | .failed error => inferInstanceAs (Decidable (error ≠ 0))

/-- An orchestrator in its loop, and what the OS owes its port. -/
structure IocpLoop (E : TlsEngine) where
  loop : Loop E
  owed : List Packet

/-- A turn of the loop, with the packets a poll dequeues; or another call of
`smtp_orchestrator_run`. -/
inductive IocpTurn (E : TlsEngine) where
  | other (turn : Turn E)
  | polled (entries : List (Packet × Overlapped)) (nowMs : Nat)
  | run (totalTarget : UInt64)

namespace IocpLoop

def completions (l : IocpLoop E) (entries : List (Packet × Overlapped)) : List Completion :=
  entries.filterMap fun entry => handleCompletion l.loop.orch entry.1 entry.2

/-- What the OS takes over in a turn: the connect of an attempt that starts, and what a connection
submits when a completion of it is handled. -/
def taken (before after : Loop E) (turn : Turn E) : List Packet :=
  match turn, before.pc with
  | .fill _ _, .fill i _ =>
      match before.orch.slots[i]?, after.orch.slots[i]? with
      | some slot, some slot' =>
          if !slot.inUse ∧ slot'.inUse then
            slot'.world.inFlight.map fun op => ⟨i, slot'.serial, op⟩
          else []
      | _, _ => []
  | .handle _, .dispatch (c :: _) _ =>
      match before.orch.slots[c.slot]?, after.orch.slots[c.slot]? with
      | some slot, some slot' =>
          (slot'.world.inFlight.diff (slot.world.inFlight.erase c.op)).map fun op =>
            ⟨c.slot, slot'.serial, op⟩
      | _, _ => []
  | _, _ => []

def polls : Turn E → Bool
  | .polled _ _ => true
  | _ => false

/-- `GetQueuedCompletionStatusEx` dequeues packets the OS owes, and no more than there is room
for. -/
def admissible (l : IocpLoop E) : IocpTurn E → Prop
  | .other turn => Loop.admissible l.loop turn ∧ polls turn = false
  | .polled entries nowMs =>
      (Turn.polled (l.completions entries) nowMs : Turn E).fits l.loop.pc = true
      ∧ entries.length ≤ min l.loop.orch.reactor.maxConnections pollBatch
      ∧ (entries.map Prod.fst).Subperm l.owed
      ∧ ∀ entry ∈ entries, ∀ slot ∈ l.loop.orch.slots[entry.1.slot]?, entry.2.Fits slot.world
  | .run _ => l.loop.pc = .returned

instance (l : IocpLoop E) : (turn : IocpTurn E) → Decidable (admissible l turn)
  | .other turn =>
      inferInstanceAs (Decidable (Loop.admissible l.loop turn ∧ polls turn = false))
  | .polled entries nowMs => inferInstanceAs (Decidable
      ((Turn.polled (l.completions entries) nowMs : Turn E).fits l.loop.pc = true
        ∧ entries.length ≤ min l.loop.orch.reactor.maxConnections pollBatch
        ∧ (entries.map Prod.fst).Subperm l.owed
        ∧ ∀ entry ∈ entries, ∀ slot ∈ l.loop.orch.slots[entry.1.slot]?,
          entry.2.Fits slot.world))
  | .run _ =>
      match h : l.loop.pc with
      | .returned => .isTrue h
      | .top | .fill _ _ | .poll _ | .dispatch _ _ | .sweep _ _ => .isFalse (by simp [admissible, h])

def step (l : IocpLoop E) : IocpTurn E → Except Abort (IocpLoop E)
  | .other turn => do
      let loop ← l.loop.step turn
      return ⟨loop, taken l.loop loop turn ++ l.owed⟩
  | .polled entries nowMs => do
      let loop ← l.loop.step (.polled (l.completions entries) nowMs)
      return ⟨loop, l.owed.diff (entries.map Prod.fst)⟩
  | .run totalTarget => .ok ⟨Loop.begin l.loop.orch totalTarget, l.owed⟩

def machine (E : TlsEngine) : Machine (IocpLoop E) (IocpTurn E) Abort := ⟨admissible, step⟩

instance (l : IocpLoop E) (turn : IocpTurn E) : Decidable ((machine E).admissible l turn) :=
  inferInstanceAs (Decidable (admissible l turn))

/-- A first call of `smtp_orchestrator_run`. -/
def begin (orch : Orchestrator E) (totalTarget : UInt64) : IocpLoop E :=
  ⟨Loop.begin orch totalTarget, []⟩

def Reachable (orch : Orchestrator E) (totalTarget : UInt64) (l : IocpLoop E) : Prop :=
  ∃ turns, (machine E).Run (begin orch totalTarget) turns l

def ReachableWhen (C : IocpLoop E → IocpTurn E → Prop) (orch : Orchestrator E)
    (totalTarget : UInt64) (l : IocpLoop E) : Prop :=
  ∃ turns, ((machine E).restrict C).Run (begin orch totalTarget) turns l

/-! ### Whose a completion is -/

/-- The slot a turn may write to the operation of: one that `smtp_connection_init` clears, or one
whose connection goes on. -/
def rewrites (l : IocpLoop E) : IocpTurn E → Option Nat
  | .other (.fill true _) =>
      match l.loop.pc with
      | .fill i _ =>
          match l.loop.orch.slots[i]? with
          | some slot => if !slot.inUse ∧ !l.loop.targetStarted then some i else none
          | none => none
      | _ => none
  | .other (.handle _) =>
      match l.loop.pc with
      | .dispatch (c :: _) _ => some c.slot
      | _ => none
  | _ => none

/-- The attempt that submitted the operation of a packet is the one in the slot. -/
def Occupies (l : IocpLoop E) (packet : Packet) : Prop :=
  ∃ slot ∈ l.loop.orch.slots[packet.slot]?, slot.inUse = true ∧ slot.serial = packet.serial

instance (l : IocpLoop E) (packet : Packet) : Decidable (l.Occupies packet) :=
  inferInstanceAs (Decidable (∃ slot ∈ l.loop.orch.slots[packet.slot]?,
    slot.inUse = true ∧ slot.serial = packet.serial))

/-- What a poll reports goes to the attempts that submitted it, and no operation is written to while
the OS owes its completion. -/
def Proper (l : IocpLoop E) (turn : IocpTurn E) : Prop :=
  (∀ i ∈ l.rewrites turn, ∀ packet ∈ l.owed, packet.slot ≠ i) ∧
    match turn with
    | .polled entries _ => ∀ entry ∈ entries, l.Occupies entry.1
    | _ => True

end IocpLoop

end SmtpClient
