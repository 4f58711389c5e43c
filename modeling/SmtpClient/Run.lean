import SmtpClient.Connection
import SmtpClient.Base.Machine

/-!
# Runs of a connection

A connection is driven by completions of the operations the reactor holds for it, delivered while
it is not over, and by timeout checks; between two of its own steps another connection of the same
thread may leave anything in the shared capabilities buffer. A read completion comes with the bytes
the reactor wrote where the operation points, a write completion with the bytes the socket took from
there.
-/

namespace SmtpClient

variable {E : TlsEngine}

inductive Event (E : TlsEngine) where
  | completion (env : Env E) (op : IoOp) (result : Int) (data : Bytes) (nowMs : Nat)
  | timeout (nowMs : Nat)
  | others (caps : Capabilities)

/-- What the reactor may report for an operation it holds. -/
structure Delivers (w : World E) (op : IoOp) (result : Int) (data : Bytes) : Prop where
  held : op ∈ w.inFlight
  fits : data.length ≤ op.bufLen
  nothing_of_failure : result ≠ 0 → data = []
  sent : op.kind = .write → data = w.conn.contents op.buf data.length

instance (w : World E) (op : IoOp) (result : Int) (data : Bytes) :
    Decidable (Delivers w op result data) :=
  decidable_of_iff
    (op ∈ w.inFlight ∧ data.length ≤ op.bufLen ∧ (result ≠ 0 → data = [])
      ∧ (op.kind = .write → data = w.conn.contents op.buf data.length))
    ⟨fun h => ⟨h.1, h.2.1, h.2.2.1, h.2.2.2⟩, fun h => ⟨h.1, h.2, h.3, h.4⟩⟩

/-- The reactor's part of a completion: it performs the transfer and lets go of the operation. -/
def World.deliver (w : World E) (op : IoOp) (result : Int) (data : Bytes) : World E where
  conn :=
    match op.kind, op.buf with
    | .read, .readBuf offset => { w.conn with readBuf := w.conn.readBuf.blit offset data }
    | .read, .cipherBuf => { w.conn with cipherBuf := w.conn.cipherBuf.blit 0 data }
    | _, _ => w.conn
  caps := w.caps
  inFlight := w.inFlight.erase op
  trace := w.trace ++ [.completion op.kind result data]

namespace Conn

def admissible (w : World E) : Event E → Prop
  | .completion _ op result data _ => w.conn.state.terminal = false ∧ Delivers w op result data
  | _ => True

instance (w : World E) : (event : Event E) → Decidable (admissible w event)
  | .completion _ op result data _ =>
      inferInstanceAs (Decidable (w.conn.state.terminal = false ∧ Delivers w op result data))
  | .timeout _ => inferInstanceAs (Decidable True)
  | .others _ => inferInstanceAs (Decidable True)

def step (ehloIdentity : Bytes) (w : World E) : Event E → Except Assertion (World E)
  | .completion env op result data nowMs =>
      onIo env (w.deliver op result data) ⟨op.kind, result, data.length⟩ ehloIdentity nowMs
  | .timeout nowMs => checkTimeout w nowMs
  | .others caps => .ok { w with caps := caps }

def machine (E : TlsEngine) (ehloIdentity : Bytes) : Machine (World E) (Event E) Assertion :=
  ⟨admissible, step ehloIdentity⟩

instance (ehloIdentity : Bytes) (w : World E) (event : Event E) :
    Decidable ((machine E ehloIdentity).admissible w event) :=
  inferInstanceAs (Decidable (admissible w event))

/-- A connection straight out of `smtp_connection_init`. -/
def fresh (logId : LogId) (actor : Bytes) (tlsMode : TlsMode) (tlsCtx : Option E.Ctx)
    (trust : Bool) (caps : Capabilities) : World E :=
  ⟨init logId actor tlsMode tlsCtx trust, caps, [], []⟩

/-- A successful `smtp_connection_start` on a connection initialised with a TLS context, or without
one in the mode that needs none. -/
def Started (w : World E) : Prop :=
  ∃ logId actor tlsMode tlsCtx trust caps nowMs connectTimeoutMs,
    (tlsMode = .none ∨ tlsCtx.isSome)
      ∧ start (fresh logId actor tlsMode tlsCtx trust caps) nowMs connectTimeoutMs 0 = .ok (w, 0)

def Reachable (ehloIdentity : Bytes) (w : World E) : Prop :=
  ∃ w₀ events, Started w₀ ∧ (machine E ehloIdentity).Run w₀ events w

theorem Reachable.invariant {ehloIdentity : Bytes} {I : World E → Prop} {w : World E}
    (h : Reachable ehloIdentity w) (hinit : ∀ w, Started w → I w)
    (hstep : ∀ w event w', I w → (machine E ehloIdentity).Steps w event w' → I w') : I w := by
  obtain ⟨w₀, events, hstart, run⟩ := h
  exact run.invariant (hinit w₀ hstart) hstep

theorem Reachable.step {ehloIdentity : Bytes} {w w' : World E} {event : Event E}
    (h : Reachable ehloIdentity w) (hstep : (machine E ehloIdentity).Steps w event w') :
    Reachable ehloIdentity w' := by
  obtain ⟨w₀, events, hstart, run⟩ := h
  exact ⟨w₀, _, hstart, run.snoc hstep⟩

/-- Reachable by steps that all meet a condition on the state before and the event. -/
def ReachableWhen (C : World E → Event E → Prop) (ehloIdentity : Bytes) (w : World E) : Prop :=
  ∃ w₀ events, Started w₀ ∧ ((machine E ehloIdentity).restrict C).Run w₀ events w

section When

variable {C : World E → Event E → Prop} {ehloIdentity : Bytes} {w w' : World E}

theorem ReachableWhen.reachable (h : ReachableWhen C ehloIdentity w) : Reachable ehloIdentity w := by
  obtain ⟨w₀, events, hstart, run⟩ := h
  exact ⟨w₀, events, hstart, run.of_restrict⟩

theorem ReachableWhen.mono {D : World E → Event E → Prop} (hCD : ∀ w event, C w event → D w event)
    (h : ReachableWhen C ehloIdentity w) : ReachableWhen D ehloIdentity w := by
  obtain ⟨w₀, events, hstart, run⟩ := h
  exact ⟨w₀, events, hstart, run.mono hCD⟩

theorem ReachableWhen.step {event : Event E} (h : ReachableWhen C ehloIdentity w)
    (hmeets : C w event) (hstep : (machine E ehloIdentity).Steps w event w') :
    ReachableWhen C ehloIdentity w' := by
  obtain ⟨w₀, events, hstart, run⟩ := h
  exact ⟨w₀, _, hstart, run.snoc ⟨⟨hstep.1, hmeets⟩, hstep.2⟩⟩

theorem ReachableWhen.invariant {I : World E → Prop} (h : ReachableWhen C ehloIdentity w)
    (hinit : ∀ w, Started w → I w)
    (hstep : ∀ w event w', Reachable ehloIdentity w → I w → C w event →
      (machine E ehloIdentity).Steps w event w' → I w') : I w := by
  obtain ⟨w₀, events, hstart, run⟩ := h
  have hkept := run.invariant (I := fun u => Reachable ehloIdentity u ∧ I u)
    ⟨⟨w₀, [], hstart, .nil⟩, hinit w₀ hstart⟩ fun u event u' hu step => by
      have hbare : (machine E ehloIdentity).Steps u event u' := ⟨step.1.1, step.2⟩
      exact ⟨hu.1.step hbare, hstep u event u' hu.1 hu.2 step.1.2 hbare⟩
  exact hkept.2

end When

end Conn

/-! ### What a trace says -/

def Effect.action : Effect → Option Action
  | .submitWrite (.command plain encrypted) _ _ =>
      some (if plain = bytes "STARTTLS\r\n" then .starttls encrypted else .ehlo encrypted)
  | .tlsCreate _ _ true => some .handshake
  | _ => none

/-- The protocol actions a connection has performed, in order. -/
def actions (trace : List Effect) : List Action := trace.filterMap Effect.action

/-- The command lines a connection has submitted, before encryption. -/
def commands (trace : List Effect) : List Bytes :=
  trace.filterMap fun
    | .submitWrite (.command plain _) _ _ => some plain
    | _ => none

/-- Whether a TLS engine exists, and the plaintext received since the last submitted write or, if
later, since the engine was created. -/
def Effect.receive (past : Bool × Bytes) : Effect → Bool × Bytes
  | .completion .read _ data => if past.1 then past else (false, past.2 ++ data)
  | .tlsDecrypt _ _ .ok chunk => (past.1, past.2 ++ chunk)
  | .tlsCreate _ _ true => (true, [])
  | .submitWrite _ _ _ => (past.1, [])
  | _ => past

def reception (trace : List Effect) : Bool × Bytes := trace.foldl Effect.receive (false, [])

def received (trace : List Effect) : Bytes := (reception trace).2

def Effect.submits : Effect → Bool
  | .submitConnect _ | .submitRead _ | .submitWrite _ _ _ => true
  | _ => false

/-- The submissions a connection has made. -/
def submissions (trace : List Effect) : List Effect := trace.filter Effect.submits

/-- All bytes handed to the reactor for writing, in order. -/
def submittedBytes (trace : List Effect) : Bytes :=
  trace.flatMap fun
    | .submitWrite _ wire _ => wire
    | _ => []

/-- All bytes the socket has taken, in order. -/
def acceptedBytes (trace : List Effect) : Bytes :=
  trace.flatMap fun
    | .completion .write _ data => data
    | _ => []

@[simp] theorem actions_nil : actions [] = [] := rfl

@[simp] theorem actions_cons (effect : Effect) (trace : List Effect) :
    actions (effect :: trace) = effect.action.toList ++ actions trace := by
  cases h : effect.action <;> simp [actions, h]

@[simp] theorem actions_append (trace trace' : List Effect) :
    actions (trace ++ trace') = actions trace ++ actions trace' := by simp [actions]

@[simp] theorem commands_append (trace trace' : List Effect) :
    commands (trace ++ trace') = commands trace ++ commands trace' := by simp [commands]

@[simp] theorem reception_append (trace trace' : List Effect) :
    reception (trace ++ trace') = trace'.foldl Effect.receive (reception trace) := by
  simp [reception]

@[simp] theorem submissions_append (trace trace' : List Effect) :
    submissions (trace ++ trace') = submissions trace ++ submissions trace' := by
  simp [submissions]

@[simp] theorem submittedBytes_append (trace trace' : List Effect) :
    submittedBytes (trace ++ trace') = submittedBytes trace ++ submittedBytes trace' := by
  simp [submittedBytes]

@[simp] theorem acceptedBytes_append (trace trace' : List Effect) :
    acceptedBytes (trace ++ trace') = acceptedBytes trace ++ acceptedBytes trace' := by
  simp [acceptedBytes]

end SmtpClient
