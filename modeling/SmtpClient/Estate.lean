import SmtpClient.Orchestrator
import SmtpClient.Base.Custody

/-!
# What an orchestrator acquires and releases

`smtp_orchestrator_create`, `smtp_orchestrator_run` and `smtp_orchestrator_destroy` once more, with
a log of every resource they acquire and release. The loop is the one of the orchestrator; beside it
stands what its slots point to: the socket, and the engine of the connection. Sockets and engines
are numbered in the order they are made.
-/

namespace SmtpClient

variable {E : TlsEngine}

inductive Resource where
  | orchestrator
  | reactor
  | tlsCtx
  | slots
  | socket (n : Nat)
  | engine (n : Nat)
  deriving DecidableEq, Repr

/-- `slot->sock` and `slot->conn.tls`. -/
structure Handles where
  sock : Nat
  engine : Nat
  deriving DecidableEq, Repr

/-- An orchestrator, and what it has acquired and released so far; `made` counts the sockets and the
engines. -/
structure Estate (E : TlsEngine) where
  loop : Loop E
  handles : List Handles
  made : Nat
  log : List (Use Resource)

namespace Estate

/-! ### Creation -/

/-- `smtp_tls_ctx_destroy`. -/
def tlsCtxDestroy (tlsCtx : Option E.Ctx) : List (Use Resource) :=
  match tlsCtx with
  | some _ => [.released .tlsCtx]
  | none => []

/-- The arguments of `smtp_orchestrator_create`, and what its allocations answer. -/
structure CreateCall (E : TlsEngine) where
  alloc : Allocations E
  maxConnections : Nat
  targetAddr : SockAddr
  targetHost : Option Bytes
  ehloIdentity : Bytes
  tlsMode : TlsMode
  tlsTrustWithoutValidation : Bool
  connectTimeoutMs : Nat
  threadId : UInt32

/-- The orchestrator without its log. -/
def CreateCall.orchestrator (call : CreateCall E) : Except Abort (Option (Orchestrator E)) :=
  Orchestrator.create call.alloc call.maxConnections call.targetAddr call.targetHost
    call.ehloIdentity call.tlsMode call.tlsTrustWithoutValidation call.connectTimeoutMs
    call.threadId

/-- `smtp_orchestrator_create`, up to the point where nothing can fail any more: what it has
acquired and released, and whether it goes on. -/
def acquire (call : CreateCall E) : List (Use Resource) × Bool :=
  if !call.alloc.orchestrator then ([], false)
  else
    let log : List (Use Resource) := [.acquired .orchestrator]
    if !call.alloc.reactor then (log ++ [.released .orchestrator], false)
    else
      let log := log ++ [.acquired .reactor]
      let tlsCtx := if call.tlsMode = .none then none else call.alloc.tlsCtx
      if call.tlsMode ≠ .none ∧ tlsCtx.isNone then
        (log ++ [.released .reactor, .released .orchestrator], false)
      else
        let log := if call.tlsMode ≠ .none then log ++ [.acquired .tlsCtx] else log
        if !call.alloc.slots then
          -- `if (orch->tls_ctx == NULL)`
          let log := if tlsCtx.isNone then log ++ tlsCtxDestroy tlsCtx else log
          (log ++ [.released .reactor, .released .orchestrator], false)
        else (log ++ [.acquired .slots], true)

/-- `smtp_orchestrator_create`: an orchestrator or NULL, with what was acquired and released. -/
def create (call : CreateCall E) : Except Abort (Option (Estate E) × List (Use Resource)) := do
  let log := (acquire call).1
  match ← call.orchestrator with
  | none => return (none, log)
  | some orch =>
      return (some ⟨⟨orch, 0, .returned⟩, List.replicate call.maxConnections ⟨0, 0⟩, 0, log⟩, log)

/-! ### A run -/

/-- The engines a connection has created. -/
def enginesCreated (trace : List Effect) : Nat := (actions trace).count .handshake

/-- `smtp_connection_close`. -/
def connectionClose (conn : Connection E) (handles : Handles) : List (Use Resource) :=
  match conn.tls with
  | some _ => [.released (.engine handles.engine)]
  | none => []

/-- `smtp_orch_finish_slot`. -/
def finishSlot (w : World E) (handles : Handles) : List (Use Resource) :=
  connectionClose w.conn handles ++ [.released (.socket handles.sock)]

/-- `smtp_orch_start_slot` on slot `i`, where `socket` succeeds. -/
def startSlot (x : Estate E) (i : Nat) (after : Loop E) : Estate E where
  loop := after
  handles := x.handles.modify i fun handles => { handles with sock := x.made }
  made := x.made + 1
  log :=
    let log := x.log ++ [.acquired (.socket x.made)]
    if (after.orch.slots[i]?.map Slot.inUse).getD false then log
    else log ++ [.released (.socket x.made)]

/-- The connections `on_terminal` was called with in a turn. -/
def ended (before after : Orchestrator E) : List (World E) :=
  ((reports after.history).drop (reports before.history).length).map fun r => r.2.2

/-- A call on the connection in slot `i`, which may create an engine, and may end in
`smtp_orch_finish_slot`. -/
def stepSlot (x : Estate E) (i : Nat) (after : Loop E) : Estate E :=
  match x.loop.orch.slots[i]?, after.orch.slots[i]?, x.handles[i]? with
  | some slot, some slot', some handles =>
      let created := enginesCreated slot'.world.trace - enginesCreated slot.world.trace
      let handles :=
        if created = 0 then handles else { handles with engine := x.made + created - 1 }
      { loop := after
        handles := x.handles.set i handles
        made := x.made + created
        log := x.log ++ (List.range created).map (fun n => .acquired (.engine (x.made + n)))
          ++ (ended x.loop.orch after.orch).flatMap fun w => finishSlot w handles }
  | _, _, _ => { x with loop := after }

/-- A turn of the loop, or another call of `smtp_orchestrator_run`. -/
inductive Call (E : TlsEngine) where
  | turn (turn : Turn E)
  | run (totalTarget : UInt64)

/-- Whether the filling loop comes to start slot `i`. -/
def starts (l : Loop E) (i : Nat) : Bool :=
  match l.orch.slots[i]? with
  | some slot => !slot.inUse && !l.targetStarted
  | none => false

def settle (x : Estate E) (turn : Turn E) (after : Loop E) : Estate E :=
  match turn, x.loop.pc with
  | .fill socketMade _, .fill i _ =>
      if starts x.loop i && socketMade then x.startSlot i after else { x with loop := after }
  | .handle _, .dispatch (c :: _) _ => x.stepSlot c.slot after
  | .sweep, .sweep i _ => x.stepSlot i after
  | _, _ => { x with loop := after }

def step (x : Estate E) : Call E → Except Abort (Estate E)
  | .turn turn => do
      let after ← x.loop.step turn
      return x.settle turn after
  | .run totalTarget => .ok { x with loop := Loop.begin x.loop.orch totalTarget }

def admissible (x : Estate E) : Call E → Prop
  | .turn turn => Loop.admissible x.loop turn
  | .run _ => x.loop.pc = .returned

def machine (E : TlsEngine) : Machine (Estate E) (Call E) Abort := ⟨admissible, step⟩

/-! ### The end -/

/-- `smtp_orchestrator_destroy`. -/
def destroy (x : Estate E) : List (Use Resource) :=
  ((x.loop.orch.slots.zip x.handles).flatMap fun cell =>
      if cell.1.inUse then
        connectionClose cell.1.world.conn cell.2 ++ [.released (.socket cell.2.sock)]
      else [])
    ++ [.released .slots] ++ tlsCtxDestroy x.loop.orch.config.tlsCtx
    ++ [.released .reactor, .released .orchestrator]

/-- Alive: created, and run any number of times. -/
def Alive (call : CreateCall E) (x : Estate E) : Prop :=
  ∃ x₀ log calls, create call = .ok (some x₀, log) ∧ (machine E).Run x₀ calls x

/-- What a lifetime leaves in the log: `smtp_orchestrator_create` returns NULL, or
`smtp_orchestrator_destroy` is called once no run is going on. -/
inductive Lifetime (call : CreateCall E) : List (Use Resource) → Prop where
  | notCreated {log : List (Use Resource)} (h : create call = .ok (none, log)) : Lifetime call log
  | destroyed {x : Estate E} (h : Alive call x) (hpc : x.loop.pc = .returned) :
      Lifetime call (x.log ++ x.destroy)

/-! ### Who owns what -/

/-- What a slot owns: a socket and at most one engine if it is in use, and else nothing. -/
def slotOwns (slot : Slot E) (handles : Handles) : List Resource :=
  if slot.inUse then
    (if slot.world.conn.tls.isSome then [.engine handles.engine] else [])
      ++ [.socket handles.sock]
  else []

/-- Everything an orchestrator owns. -/
def owns (x : Estate E) : List Resource :=
  (x.loop.orch.slots.zip x.handles).flatMap (fun cell => slotOwns cell.1 cell.2)
    ++ [.slots] ++ (if x.loop.orch.config.tlsCtx.isSome then [.tlsCtx] else [])
    ++ [.reactor, .orchestrator]

end Estate

end SmtpClient
