import SmtpClient.Orchestrator

/-!
# The loop and its clock

`smtp_orchestrator_run` with the clock it reads. The clock does not run backwards and does not stand
still for good: it is a parameter how many polls in a row may come back before it has advanced.
-/

namespace SmtpClient

variable {E : TlsEngine}

/-- The reading of `smtp_orch_now_ms` a turn begins or ends with. -/
def Turn.reading : Turn E → Option Nat
  | .iterate nowMs | .polled _ nowMs => some nowMs
  | _ => none

def Turn.polls : Turn E → Bool
  | .polled _ _ => true
  | _ => false

def Turn.stops : Turn E → Bool
  | .requestStop => true
  | _ => false

/-- The longest timeout a connection is ever given. -/
def Config.longestTimeoutMs (config : Config E) : Nat :=
  max config.connectTimeoutMs (max greetingTimeoutMs (max ehloTimeoutMs tlsHandshakeTimeoutMs))

/-- A loop, its last clock reading, and how many polls have come back since the clock advanced. -/
structure Clocked (E : TlsEngine) where
  loop : Loop E
  clockMs : Nat
  stalled : Nat

namespace Clocked

/-- The readings that a clock may give. -/
def ticks (patience : Nat) (c : Clocked E) (turn : Turn E) : Prop :=
  ∀ nowMs ∈ turn.reading, c.clockMs ≤ nowMs
    ∧ (turn.polls = true → c.clockMs < nowMs ∨ c.stalled < patience)

instance (patience : Nat) (c : Clocked E) (turn : Turn E) : Decidable (c.ticks patience turn) :=
  inferInstanceAs (Decidable (∀ nowMs ∈ turn.reading, c.clockMs ≤ nowMs
    ∧ (turn.polls = true → c.clockMs < nowMs ∨ c.stalled < patience)))

/-- What a turn leaves of the clock. -/
def ticked (c : Clocked E) (turn : Turn E) (loop : Loop E) : Clocked E :=
  match turn.reading with
  | none => { c with loop := loop }
  | some nowMs =>
      { loop := loop
        clockMs := nowMs
        stalled := if c.clockMs < nowMs then 0 else c.stalled + if turn.polls then 1 else 0 }

def step (c : Clocked E) (turn : Turn E) : Except Abort (Clocked E) := do
  let loop ← c.loop.step turn
  return c.ticked turn loop

/-- The loop under a clock of which at most `patience` polls in a row see the same reading. -/
def machine (E : TlsEngine) (patience : Nat) : Machine (Clocked E) (Turn E) Abort where
  admissible c turn := Loop.admissible c.loop turn ∧ c.ticks patience turn
  step := step

instance (patience : Nat) (c : Clocked E) (turn : Turn E) :
    Decidable ((machine E patience).admissible c turn) :=
  inferInstanceAs (Decidable (Loop.admissible c.loop turn ∧ c.ticks patience turn))

/-- A call of `smtp_orchestrator_run` at some time. -/
def begin (orch : Orchestrator E) (totalTarget : UInt64) (nowMs : Nat) : Clocked E :=
  ⟨Loop.begin orch totalTarget, nowMs, 0⟩

end Clocked

end SmtpClient
