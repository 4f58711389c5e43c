import SmtpClient.Run

/-!
# The orchestrator

`smtp_orchestrator.c`, function by function, each under its name less the prefix `smtp_orch_` or
`smtp_orchestrator_`. The orchestrator is what its source makes it, with a history beside it: what
became of each attempt, in order, and every call of `on_terminal`. The loop of
`smtp_orchestrator_run` is a machine: one event for the turn of an inner loop, the clock readings,
the answers of `socket` and of the reactor and the completions coming with the events, and a stop
request possible between any two of them.

The one capabilities buffer is lent to the connection that is stepped: its contents go in before the
call and come out behind it.
-/

namespace SmtpClient

variable {E : TlsEngine}

/-! ### Addresses as text -/

/-- `struct sockaddr`, with the words of an IPv6 address and the port in host order. -/
inductive SockAddr where
  | inet (a b c d : UInt8) (port : UInt16)
  | inet6 (words : Vector UInt16 8) (port : UInt16)
  | other

/-- `%x`. -/
def hex (n : Nat) : Bytes := (Nat.toDigits 16 n).map fun c => UInt8.ofNat c.toNat

def dotted (a b c d : UInt8) : Bytes :=
  (bytes ".").intercalate ([a, b, c, d].map fun octet => Cap.decimal octet.toNat)

def coloned (words : List UInt16) : Bytes :=
  (bytes ":").intercalate (words.map fun word => hex word.toNat)

/-- The first of the longest runs of zero words: where it starts, and its length. -/
def longestZeroRun (words : List UInt16) : Nat × Nat :=
  (List.range words.length).foldl
    (fun best i =>
      let length := ((words.drop i).takeWhile (· == 0)).length
      if best.2 < length then (i, length) else best)
    (0, 0)

/-- `inet_ntop` for `AF_INET6`: a run of two or more zero words becomes `::`, and an address that
embeds an IPv4 one ends in dotted decimals. -/
def inetNtop6 (words : List UInt16) : Bytes :=
  let run := longestZeroRun words
  if run.2 < 2 then coloned words
  else if run.1 = 0 ∧ (run.2 = 6 ∨ run.2 = 5 ∧ words.getD 5 0 = 0xffff) then
    let high := words.getD 6 0
    let low := words.getD 7 0
    bytes (if run.2 = 5 then "::ffff:" else "::")
      ++ dotted (high >>> 8).toUInt8 high.toUInt8 (low >>> 8).toUInt8 low.toUInt8
  else coloned (words.take run.1) ++ bytes "::" ++ coloned (words.drop (run.1 + run.2))

def actorSize : Nat := 384
def identitySize : Nat := 256
def pollBatch : Nat := 64
def maxPollIntervalMs : Nat := 1000

/-- What `smtp_orch_format_actor` reads off an address: its numeric form, empty for any family but
the two, and its port. -/
def SockAddr.numeric : SockAddr → Bytes × Nat
  | .inet a b c d port => (dotted a b c d, port.toNat)
  | .inet6 words port => (inetNtop6 words.toList, port.toNat)
  | .other => ([], 0)

def formatActor (addr : SockAddr) (targetHost : Option Bytes) (dstSize : Nat) : Bytes :=
  let (ip, port) := addr.numeric
  let endpoint := ip ++ bytes ":" ++ Cap.decimal port ++ bytes " - "
  match targetHost with
  | some host =>
      if host ≠ [] ∧ host ≠ ip then
        clip dstSize (endpoint ++ host ++ bytes ":" ++ Cap.decimal port)
      else clip dstSize (endpoint ++ bytes "n/a")
  | none => clip dstSize (endpoint ++ bytes "n/a")

/-! ### The orchestrator and its history -/

structure Stats where
  totalStarted : UInt64
  totalCompleted : UInt64
  totalSucceeded : UInt64
  totalFailed : UInt64
  deriving DecidableEq, Repr

/-- `smtp_orchestrator_slot`, less the socket. The serial number is not in the source; it tells the
attempts of a run apart. -/
structure Slot (E : TlsEngine) where
  world : World E
  inUse : Bool
  serial : Nat

/-- What becomes of an attempt: it fails at once, its connect is accepted, and `on_terminal` is
called with a final state and the connection in it. -/
inductive Notice (E : TlsEngine) where
  | refused
  | accepted (serial : Nat)
  | terminal (serial : Nat) (finalState : ConnState) (w : World E)

/-- The serial numbers of the accepted attempts. -/
def acceptedSerials (history : List (Notice E)) : List Nat :=
  history.filterMap fun
    | .accepted serial => some serial
    | _ => none

/-- The failures that were no connection. -/
def refusals (history : List (Notice E)) : Nat :=
  history.countP fun
    | .refused => true
    | _ => false

/-- The calls of `on_terminal`. -/
def reports (history : List (Notice E)) : List (Nat × ConnState × World E) :=
  history.filterMap fun
    | .terminal serial finalState w => some (serial, finalState, w)
    | _ => none

/-- What `smtp_orchestrator_create` fixes for good. -/
structure Config (E : TlsEngine) where
  targetAddr : SockAddr
  actor : Bytes
  ehloIdentity : Bytes
  tlsMode : TlsMode
  tlsCtx : Option E.Ctx
  tlsTrustWithoutValidation : Bool
  connectTimeoutMs : Nat
  threadId : UInt32

/-- `struct smtp_orchestrator`; `max_connections` is the number of slots. -/
structure Orchestrator (E : TlsEngine) where
  config : Config E
  reactor : Reactor
  caps : Capabilities
  slots : List (Slot E)
  nextConnectionId : UInt32
  stopRequested : Bool
  stats : Stats
  history : List (Notice E)

/-- How a call of the orchestrator can abort the process. -/
inductive Abort where
  | noConnections
  | connection (e : Assertion)
  | reactorForget
  deriving DecidableEq, Repr

/-- The answers of the allocations in `smtp_orchestrator_create`. -/
structure Allocations (E : TlsEngine) where
  orchestrator : Bool
  reactor : Bool
  tlsCtx : Option E.Ctx
  slots : Bool

/-- A slot as `calloc` leaves it. -/
def Slot.vacant : Slot E := ⟨Conn.fresh ⟨0, 0⟩ [] .none none false Cap.init, false, 0⟩

namespace Orchestrator

def create (alloc : Allocations E) (maxConnections : Nat) (targetAddr : SockAddr)
    (targetHost : Option Bytes) (ehloIdentity : Bytes) (tlsMode : TlsMode)
    (tlsTrustWithoutValidation : Bool) (connectTimeoutMs : Nat) (threadId : UInt32) :
    Except Abort (Option (Orchestrator E)) :=
  if maxConnections = 0 then .error .noConnections
  else if !alloc.orchestrator ∨ !alloc.reactor then .ok none
  else
    match Reactor.create maxConnections with
    | none => .ok none
    | some reactor =>
        let tlsCtx := if tlsMode = .none then none else alloc.tlsCtx
        if (tlsMode ≠ .none ∧ tlsCtx.isNone) ∨ !alloc.slots then .ok none
        else
          .ok (some
            { config :=
                { targetAddr := targetAddr
                  actor := formatActor targetAddr targetHost actorSize
                  ehloIdentity := clip identitySize ehloIdentity
                  tlsMode := tlsMode
                  tlsCtx := tlsCtx
                  tlsTrustWithoutValidation := tlsTrustWithoutValidation
                  connectTimeoutMs := connectTimeoutMs
                  threadId := threadId }
              reactor := reactor
              caps := Cap.init
              slots := List.replicate maxConnections .vacant
              nextConnectionId := 1
              stopRequested := false
              stats := ⟨0, 0, 0, 0⟩
              history := [] })

/-- What `smtp_orchestrator_create` may return. -/
def Created (orch : Orchestrator E) : Prop :=
  ∃ alloc maxConnections targetAddr targetHost ehloIdentity tlsMode trust connectTimeoutMs threadId,
    create alloc maxConnections targetAddr targetHost ehloIdentity tlsMode trust connectTimeoutMs
      threadId = .ok (some orch)

def requestStop (orch : Orchestrator E) : Orchestrator E := { orch with stopRequested := true }

/-- An attempt that fails at once. -/
def refuse (orch : Orchestrator E) : Orchestrator E :=
  { orch with
    stats := { orch.stats with
      totalStarted := orch.stats.totalStarted + 1
      totalCompleted := orch.stats.totalCompleted + 1
      totalFailed := orch.stats.totalFailed + 1 }
    history := orch.history ++ [.refused] }

/-- An attempt that is in flight. -/
def accept (orch : Orchestrator E) (i : Nat) (w : World E) : Orchestrator E :=
  let serial := (acceptedSerials orch.history).length
  { orch with
    stats := { orch.stats with totalStarted := orch.stats.totalStarted + 1 }
    slots := orch.slots.set i ⟨w, true, serial⟩
    history := orch.history ++ [.accepted serial] }

/-- `smtp_orch_start_slot` on slot `i`: the orchestrator afterwards, and whether the slot is now in
flight. -/
def startSlot (orch : Orchestrator E) (i : Nat) (slot : Slot E) (nowMs : Nat) (socketMade : Bool)
    (syscalls : ConnectSyscalls) : Except Abort (Orchestrator E × Bool) :=
  if !socketMade then .ok (orch.refuse, false)
  else
    let config := orch.config
    let w := Conn.fresh ⟨config.threadId.toNat, orch.nextConnectionId.toNat⟩ config.actor
      config.tlsMode config.tlsCtx config.tlsTrustWithoutValidation orch.caps
    let (reactor, err) := orch.reactor.submitConnect syscalls
    match Conn.start w nowMs config.connectTimeoutMs err.toInt with
    | .error e => .error (.connection e)
    | .ok (w, rc) =>
        let orch := { orch with
          reactor := reactor
          nextConnectionId := orch.nextConnectionId + 1 }
        if rc ≠ 0 then
          .ok ({ orch with slots := orch.slots.set i { slot with world := w } }.refuse, false)
        else .ok (orch.accept i w, true)

/-- `smtp_orch_finish_slot` on slot `i`. -/
def finishSlot (orch : Orchestrator E) (i : Nat) (slot : Slot E) (finalState : ConnState) :
    Except Abort (Orchestrator E) :=
  match orch.reactor.forget with
  | none => .error .reactorForget
  | some reactor =>
      let ready := finalState = .ready
      .ok { orch with
        reactor := reactor
        slots := orch.slots.set i
          { slot with
            world := { slot.world with conn := Conn.close slot.world.conn }
            inUse := false }
        stats := { orch.stats with
          totalCompleted := orch.stats.totalCompleted + 1
          totalSucceeded := orch.stats.totalSucceeded + if ready then 1 else 0
          totalFailed := orch.stats.totalFailed + if ready then 0 else 1 }
        history := orch.history ++ [.terminal slot.serial finalState slot.world] }

def nextPollTimeoutMs (orch : Orchestrator E) (nowMs : Nat) : Nat :=
  match ((orch.slots.filter Slot.inUse).map fun slot => slot.world.conn.deadlineMs).min? with
  | none => maxPollIntervalMs
  | some soonest =>
      if soonest ≤ nowMs then 0
      else if soonest - nowMs < maxPollIntervalMs then soonest - nowMs else maxPollIntervalMs

/-- A step of the connection in slot `i`, on the shared capabilities buffer, and the end of the slot
if the connection has come to one. -/
def stepSlot (orch : Orchestrator E) (i : Nat) (slot : Slot E) (event : Event E) :
    Except Abort (Orchestrator E) :=
  match Conn.step orch.config.ehloIdentity { slot.world with caps := orch.caps } event with
  | .error e => .error (.connection e)
  | .ok w =>
      let orch := { orch with
        caps := w.caps
        slots := orch.slots.set i { slot with world := w } }
      if w.conn.state.terminal then orch.finishSlot i { slot with world := w } w.conn.state
      else .ok orch

end Orchestrator

/-! ### The loop -/

/-- A completion `smtp_reactor_poll` reports; its user data is the connection in a slot. -/
structure Completion where
  slot : Nat
  op : IoOp
  result : Int
  data : Bytes

/-- Where `smtp_orchestrator_run` stands. -/
inductive Pc where
  | top
  | fill (i nowMs : Nat)
  | poll (timeoutMs : Nat)
  | dispatch (results : List Completion) (nowMs : Nat)
  | sweep (i nowMs : Nat)
  | returned

structure Loop (E : TlsEngine) where
  orch : Orchestrator E
  totalTarget : UInt64
  pc : Pc

/-- One turn of a loop in `smtp_orchestrator_run`, with what the outside answers to it. -/
inductive Turn (E : TlsEngine) where
  | requestStop
  | iterate (nowMs : Nat)
  | fill (socketMade : Bool) (syscalls : ConnectSyscalls)
  | polled (results : List Completion) (nowMs : Nat)
  | handle (env : Env E)
  | sweep

/-- Where a turn is taken. -/
def Turn.fits : Turn E → Pc → Bool
  | .requestStop, _ => true
  | .iterate _, .top => true
  | .fill _ _, .fill _ _ => true
  | .polled _ _, .poll _ => true
  | .handle _, .dispatch _ _ => true
  | .sweep, .sweep _ _ => true
  | _, _ => false

/-- What one call of `smtp_reactor_poll` may report: at most one completion for each operation in
flight, and only for slots in use. -/
structure Polls (orch : Orchestrator E) (results : List Completion) : Prop where
  bounded : results.length ≤ pollBatch
  once : (results.map fun c => (c.slot, c.op)).Nodup
  inUse : ∀ c ∈ results, ∃ slot ∈ orch.slots[c.slot]?,
    slot.inUse = true ∧ Delivers slot.world c.op c.result c.data

instance (orch : Orchestrator E) (results : List Completion) : Decidable (Polls orch results) :=
  decidable_of_iff
    (results.length ≤ pollBatch ∧ (results.map fun c => (c.slot, c.op)).Nodup
      ∧ ∀ c ∈ results, ∃ slot ∈ orch.slots[c.slot]?,
        slot.inUse = true ∧ Delivers slot.world c.op c.result c.data)
    ⟨fun h => ⟨h.1, h.2.1, h.2.2⟩, fun h => ⟨h.1, h.2, h.3⟩⟩

namespace Loop

/-- `smtp_orchestrator_run`, up to its first iteration. -/
def begin (orch : Orchestrator E) (totalTarget : UInt64) : Loop E :=
  ⟨{ orch with stopRequested := false }, totalTarget, .top⟩

/-- `total_target != 0 && total_started >= total_target`. -/
def targetStarted (l : Loop E) : Bool :=
  l.totalTarget ≠ 0 ∧ l.totalTarget ≤ l.orch.stats.totalStarted

/-- What follows the filling of the slots: the two ways to be done, or the next poll. -/
def leaveFill (l : Loop E) (nowMs : Nat) : Loop E :=
  if l.targetStarted ∧ l.totalTarget ≤ l.orch.stats.totalCompleted then { l with pc := .returned }
  else if !l.orch.slots.any Slot.inUse ∧ l.targetStarted then { l with pc := .returned }
  else { l with pc := .poll (l.orch.nextPollTimeoutMs nowMs) }

/-- The turn of the filling loop at slot `i`; a failed start ends the loop. -/
def fillTurn (l : Loop E) (i nowMs : Nat) (socketMade : Bool) (syscalls : ConnectSyscalls) :
    Except Abort (Loop E) :=
  match l.orch.slots[i]? with
  | none => .ok (l.leaveFill nowMs)
  | some slot =>
      if slot.inUse then .ok { l with pc := .fill (i + 1) nowMs }
      else if l.targetStarted then .ok (l.leaveFill nowMs)
      else
        match l.orch.startSlot i slot nowMs socketMade syscalls with
        | .error e => .error e
        | .ok (orch, true) => .ok { l with orch := orch, pc := .fill (i + 1) nowMs }
        | .ok (orch, false) => .ok ({ l with orch := orch }.leaveFill nowMs)

/-- The turn of the dispatching loop. -/
def handleTurn (l : Loop E) (results : List Completion) (nowMs : Nat) (env : Env E) :
    Except Abort (Loop E) :=
  match results with
  | [] => .ok { l with pc := .sweep 0 nowMs }
  | c :: rest =>
      match l.orch.slots[c.slot]? with
      | none => .ok { l with pc := .dispatch rest nowMs }
      | some slot => do
          let orch ← l.orch.stepSlot c.slot slot (.completion env c.op c.result c.data nowMs)
          return { l with orch := orch, pc := .dispatch rest nowMs }

/-- The turn of the timeout sweep at slot `i`. -/
def sweepTurn (l : Loop E) (i nowMs : Nat) : Except Abort (Loop E) :=
  match l.orch.slots[i]? with
  | none => .ok { l with pc := .top }
  | some slot =>
      if !slot.inUse then .ok { l with pc := .sweep (i + 1) nowMs }
      else do
        let orch ← l.orch.stepSlot i slot (.timeout nowMs)
        return { l with orch := orch, pc := .sweep (i + 1) nowMs }

/-- One step of `smtp_orchestrator_run`. -/
def step (l : Loop E) (turn : Turn E) : Except Abort (Loop E) :=
  match turn, l.pc with
  | .requestStop, _ => .ok { l with orch := l.orch.requestStop }
  | .iterate nowMs, .top =>
      if l.orch.stopRequested then .ok { l with pc := .returned }
      else .ok { l with pc := .fill 0 nowMs }
  | .fill socketMade syscalls, .fill i nowMs => l.fillTurn i nowMs socketMade syscalls
  | .polled results nowMs, .poll _ => .ok { l with pc := .dispatch results nowMs }
  | .handle env, .dispatch results nowMs => l.handleTurn results nowMs env
  | .sweep, .sweep i nowMs => l.sweepTurn i nowMs
  | _, _ => .ok l

/-- A stop request comes at any time, every other turn in its place, and `smtp_reactor_poll` reports
what it may. -/
def admissible (l : Loop E) (turn : Turn E) : Prop :=
  turn.fits l.pc = true ∧
    match turn with
    | .polled results _ => Polls l.orch results
    | _ => True

instance (l : Loop E) : (turn : Turn E) → Decidable (admissible l turn)
  | .requestStop => inferInstanceAs (Decidable (_ ∧ True))
  | .iterate _ => inferInstanceAs (Decidable (_ ∧ True))
  | .fill _ _ => inferInstanceAs (Decidable (_ ∧ True))
  | .polled results _ => inferInstanceAs (Decidable (_ ∧ Polls l.orch results))
  | .handle _ => inferInstanceAs (Decidable (_ ∧ True))
  | .sweep => inferInstanceAs (Decidable (_ ∧ True))

def machine (E : TlsEngine) : Machine (Loop E) (Turn E) Abort := ⟨admissible, step⟩

instance (l : Loop E) (turn : Turn E) : Decidable ((machine E).admissible l turn) :=
  inferInstanceAs (Decidable (admissible l turn))

/-- A state of a run on a fresh orchestrator. -/
def Reachable (orch : Orchestrator E) (totalTarget : UInt64) (l : Loop E) : Prop :=
  ∃ turns, (machine E).Run (begin orch totalTarget) turns l

/-- The event a turn has for the connection in a slot. -/
def Turn.event : Turn E → Pc → Option (Nat × Event E)
  | .handle env, .dispatch (c :: _) nowMs =>
      some (c.slot, .completion env c.op c.result c.data nowMs)
  | .sweep, .sweep i nowMs => some (i, .timeout nowMs)
  | _, _ => none

/-- The events of the connections all meet a condition. -/
def Meets (C : World E → Event E → Prop) (l : Loop E) (turn : Turn E) : Prop :=
  ∀ e ∈ Turn.event turn l.pc, ∀ slot ∈ l.orch.slots[e.1]?,
    C { slot.world with caps := l.orch.caps } e.2

instance (C : World E → Event E → Prop) [∀ w event, Decidable (C w event)] (l : Loop E)
    (turn : Turn E) : Decidable (Meets C l turn) :=
  inferInstanceAs (Decidable (∀ e ∈ Turn.event turn l.pc, ∀ slot ∈ l.orch.slots[e.1]?,
    C { slot.world with caps := l.orch.caps } e.2))

def ReachableWhen (C : World E → Event E → Prop) (orch : Orchestrator E) (totalTarget : UInt64)
    (l : Loop E) : Prop :=
  ∃ turns, ((machine E).restrict (Meets C)).Run (begin orch totalTarget) turns l

end Loop

namespace Orchestrator

/-- The connections of a run so far: those in the slots in use, and those reported. A slot whose
connect was refused held none. -/
def connections (orch : Orchestrator E) : List (World E) :=
  (orch.slots.filter Slot.inUse).map Slot.world ++ (reports orch.history).map fun r => r.2.2

end Orchestrator

end SmtpClient
