import SmtpClient.Proof.Termination

/-!
# A stop request is noticed

Whenever a stop is requested, the iteration under way is the last one. What is left of it is known
from its place: the rest of the filling loop may still start attempts, one poll may still sleep, and
nothing else does either.
-/

namespace SmtpClient

variable {E : TlsEngine}

namespace Loop

open Orchestrator

/-- The turns to the end once a stop has been requested. -/
def lastTurns (slots : Nat) : Pc → Nat
  | .returned => 0
  | .top => 1
  | .sweep i _ => slots - i + 2
  | .dispatch results _ => results.length + slots + 3
  | .poll _ => pollBatch + slots + 4
  | .fill i _ => slots - i + pollBatch + slots + 5

/-- The polls of them. -/
def lastPolls : Pc → Nat
  | .fill _ _ | .poll _ => 1
  | _ => 0

/-- The attempts they may still start. -/
def lastStarts (slots : Nat) : Pc → Nat
  | .fill i _ => slots - i
  | _ => 0

variable {orch : Orchestrator E} {totalTarget : UInt64} {l l' : Loop E} {turn : Turn E}
  {turns : List (Turn E)} {slots : Nat}

theorem last_leaveFill (slots : Nat) (l : Loop E) (nowMs : Nat) :
    lastTurns slots (l.leaveFill nowMs).pc ≤ pollBatch + slots + 4
      ∧ lastPolls (l.leaveFill nowMs).pc ≤ 1 ∧ lastStarts slots (l.leaveFill nowMs).pc = 0 := by
  rcases l.leaveFill_pc nowMs with hpc | hpc <;> rw [hpc]
  · exact ⟨Nat.zero_le _, Nat.zero_le _, rfl⟩
  · exact ⟨Nat.le_refl _, Nat.le_refl _, rfl⟩

/-- A poll under way sleeps for a second at most, and has reported no more than it was given room
for. -/
def Polling (l : Loop E) : Prop :=
  match l.pc with
  | .poll timeoutMs => timeoutMs ≤ 1000
  | .dispatch results _ => results.length ≤ pollBatch
  | _ => True

/-- A loop on its way out. -/
structure Stopping (slots : Nat) (l : Loop E) : Prop where
  kept : Kept (fun _ _ => True) l
  polling : Polling l
  stopped : l.orch.stopRequested = true
  slots_eq : l.orch.slots.length = slots

theorem polling_leaveFill (l : Loop E) (nowMs : Nat) : Polling (l.leaveFill nowMs) := by
  unfold Polling
  rcases l.leaveFill_pc nowMs with hpc | hpc <;> rw [hpc]
  · trivial
  · exact (wakes_nextPollTimeoutMs l.orch nowMs).le

theorem Polling.step (h : Polling l) (hadm : admissible l turn) (hok : l.step turn = .ok l') :
    Polling l' := by
  cases turns_of_step hadm.1 hok with
  | stops => exact h
  | returns | iterates => trivial
  | fills _ _ i nowMs hpc hfills =>
      cases hfills with
      | passes | starts => trivial
      | leaves | refused => exact polling_leaveFill _ nowMs
  | polls => exact hadm.2.bounded
  | dispatches env results nowMs hpc hdispatches =>
      unfold Polling at h
      rw [hpc] at h
      cases hdispatches with
      | done => trivial
      | nowhere | tends => exact Nat.le_of_succ_le h
  | sweeps _ _ _ hsweeps => cases hsweeps <;> trivial

theorem starts_stopRequested {orch orch' : Orchestrator E} {i : Nat} {slot : Slot E}
    {inFlight : Bool} (h : Starts orch i slot orch' inFlight) :
    orch'.stopRequested = orch.stopRequested := by
  cases h <;> rfl

theorem tends_stopRequested {orch orch' : Orchestrator E} {i : Nat} {slot : Slot E}
    {event : Event E} (h : Tends orch i slot event orch') :
    orch'.stopRequested = orch.stopRequested := by
  cases h <;> rfl

theorem Turned.stopped {C : World E → Event E → Prop} (h : Turned C l l')
    (hstop : l.orch.stopRequested = true) : l'.orch.stopRequested = true := by
  cases h with
  | stops => rfl
  | returns | moves | polled | nowhere => exact hstop
  | leaves => rw [leaveFill_orch]; exact hstop
  | starts _ _ _ _ _ _ hstarts => exact (starts_stopRequested hstarts).trans hstop
  | refused _ _ _ _ _ _ hstarts =>
      rw [leaveFill_orch]
      exact (starts_stopRequested hstarts).trans hstop
  | handled _ _ _ _ _ _ _ _ htends => exact (tends_stopRequested htends).trans hstop
  | swept _ _ _ _ _ _ htends => exact (tends_stopRequested htends).trans hstop

/-- What one turn does on the way out. -/
structure Leaves (slots : Nat) (l : Loop E) (turn : Turn E) (l' : Loop E) : Prop where
  turns : lastTurns slots l'.pc + (if !turn.stops then 1 else 0) ≤ lastTurns slots l.pc
  polls : lastPolls l'.pc + (if turn.polls then 1 else 0) ≤ lastPolls l.pc
  starts : l'.orch.attempts + lastStarts slots l'.pc ≤ l.orch.attempts + lastStarts slots l.pc

section Turn

variable {i nowMs : Nat} {socketMade : Bool} {syscalls : ConnectSyscalls}

theorem Leaves.leaveFill (hpc : l.pc = .fill i nowMs) (hturn : turn.polls = false)
    (hstarts : l'.orch.attempts ≤ l.orch.attempts + (slots - i)) :
    Leaves slots l turn (l'.leaveFill nowMs) := by
  obtain ⟨hturns, hpolls, hnone⟩ := last_leaveFill slots l' nowMs
  have hone : (if !turn.stops then 1 else 0) ≤ 1 := by split <;> decide
  constructor
  · calc lastTurns slots (l'.leaveFill nowMs).pc + (if !turn.stops then 1 else 0)
        ≤ pollBatch + slots + 4 + 1 := Nat.add_le_add hturns hone
      _ ≤ slots - i + pollBatch + slots + 5 := by omega
      _ = lastTurns slots l.pc := by rw [hpc, lastTurns]
  · rw [hpc, hturn]
    simpa [lastPolls] using hpolls
  · rw [hpc, hnone, leaveFill_orch]
    exact hstarts

theorem Stopping.fills (h : Stopping slots l) (hpc : l.pc = .fill i nowMs)
    (hfills : Fills l i nowMs socketMade syscalls l') :
    Leaves slots l (.fill socketMade syscalls) l' := by
  have hindex {slot : Slot E} (hslot : l.orch.slots[i]? = some slot) : i < slots := by
    obtain ⟨hi, -⟩ := List.getElem?_eq_some_iff.1 hslot
    rwa [h.slots_eq] at hi
  cases hfills with
  | passes slot hslot =>
      have hi := hindex hslot
      refine ⟨?_, ?_, ?_⟩ <;> rw [hpc]
      · simp only [lastTurns, Turn.stops, Bool.not_false, if_true]
        omega
      · exact Nat.le_refl _
      · simp only [lastStarts]
        omega
  | leaves => exact .leaveFill hpc rfl (Nat.le_add_right _ _)
  | starts slot orch' hslot _ _ hstart =>
      have hi := hindex hslot
      have hmore := attempts_starts (startSlot_ok h.kept.tended.context hstart)
      refine ⟨?_, ?_, ?_⟩ <;> rw [hpc]
      · simp only [lastTurns, Turn.stops, Bool.not_false, if_true]
        omega
      · exact Nat.le_refl _
      · simp only [lastStarts, hmore]
        omega
  | refused slot orch' hslot _ _ hstart =>
      have hi := hindex hslot
      have hmore := attempts_starts (startSlot_ok h.kept.tended.context hstart)
      apply Leaves.leaveFill hpc rfl
      dsimp only
      omega

theorem leaves_of_dispatches {env : Env E} {results : List Completion}
    (hpc : l.pc = .dispatch results nowMs) (hdispatches : Dispatches l nowMs env results l') :
    Leaves slots l (.handle env) l' := by
  cases hdispatches with
  | done =>
      refine ⟨?_, ?_, ?_⟩ <;> rw [hpc]
      · simp only [lastTurns, Turn.stops, Bool.not_false, if_true, List.length_nil]
        omega
      · exact Nat.le_refl _
      · exact Nat.le_refl _
  | nowhere c rest =>
      refine ⟨?_, ?_, ?_⟩ <;> rw [hpc]
      · simp only [lastTurns, Turn.stops, Bool.not_false, if_true, List.length_cons]
        omega
      · exact Nat.le_refl _
      · exact Nat.le_refl _
  | tends c rest slot orch' _ htends =>
      refine ⟨?_, ?_, ?_⟩ <;> rw [hpc]
      · simp only [lastTurns, Turn.stops, Bool.not_false, if_true, List.length_cons]
        omega
      · exact Nat.le_refl _
      · exact Nat.le_of_eq (attempts_tends htends)

theorem Stopping.sweeps (h : Stopping slots l) (hpc : l.pc = .sweep i nowMs)
    (hsweeps : Sweeps l i nowMs l') : Leaves slots l .sweep l' := by
  have hindex {slot : Slot E} (hslot : l.orch.slots[i]? = some slot) : i < slots := by
    obtain ⟨hi, -⟩ := List.getElem?_eq_some_iff.1 hslot
    rwa [h.slots_eq] at hi
  cases hsweeps with
  | done =>
      refine ⟨?_, ?_, ?_⟩ <;> rw [hpc]
      · simp only [lastTurns, Turn.stops, Bool.not_false, if_true]
        omega
      · exact Nat.le_refl _
      · exact Nat.le_refl _
  | passes slot hslot =>
      have hi := hindex hslot
      refine ⟨?_, ?_, ?_⟩ <;> rw [hpc]
      · simp only [lastTurns, Turn.stops, Bool.not_false, if_true]
        omega
      · exact Nat.le_refl _
      · exact Nat.le_refl _
  | tends slot orch' hslot _ htends =>
      have hi := hindex hslot
      refine ⟨?_, ?_, ?_⟩ <;> rw [hpc]
      · simp only [lastTurns, Turn.stops, Bool.not_false, if_true]
        omega
      · exact Nat.le_refl _
      · exact Nat.le_of_eq (attempts_tends htends)

/-- The check at the top of an iteration lets none begin. -/
theorem step_iterate_stopped (hpc : l.pc = .top) (hstop : l.orch.stopRequested = true) :
    l.step (.iterate nowMs) = .ok { l with pc := .returned } := by
  unfold step
  simp only [hpc, hstop, if_true]

theorem Stopping.leaves (h : Stopping slots l) (hadm : admissible l turn)
    (hok : l.step turn = .ok l') : Leaves slots l turn l' := by
  cases turns_of_step hadm.1 hok with
  | stops => exact ⟨Nat.le_refl _, Nat.le_refl _, Nat.le_refl _⟩
  | returns nowMs hpc =>
      refine ⟨?_, ?_, ?_⟩ <;> rw [hpc] <;> exact Nat.le_refl _
  | iterates nowMs hpc =>
      rw [step_iterate_stopped hpc h.stopped] at hok
      cases hok
  | fills _ _ i nowMs hpc hfills => exact h.fills hpc hfills
  | polls results nowMs timeoutMs hpc =>
      have hbatch := hadm.2.bounded
      refine ⟨?_, ?_, ?_⟩ <;> rw [hpc]
      · simp only [lastTurns, Turn.stops, Bool.not_false, if_true]
        omega
      · exact Nat.le_refl _
      · exact Nat.le_refl _
  | dispatches env results nowMs hpc hdispatches => exact leaves_of_dispatches hpc hdispatches
  | sweeps i nowMs hpc hsweeps => exact h.sweeps hpc hsweeps

theorem Stopping.step (h : Stopping slots l) (hsteps : (machine E).Steps l turn l') :
    Stopping slots l' := by
  obtain ⟨hadm, hok⟩ := hsteps
  have hturned : Turned (fun _ _ => True) l l' :=
    turned_of_steps h.kept.tended.context ⟨⟨hadm, fun _ _ _ _ => trivial⟩, hok⟩
  constructor
  · exact h.kept.turned hadm hok
  · exact h.polling.step hadm hok
  · exact hturned.stopped h.stopped
  · exact (Clocked.length_slots_of_turned hturned).trans h.slots_eq

end Turn

/-! ### Runs -/

theorem Reachable.polling (h : Reachable orch totalTarget l) : Polling l := by
  obtain ⟨_, run⟩ := h
  exact run.invariant (I := Polling) trivial fun _ _ _ hpolling hsteps =>
    hpolling.step hsteps.1 hsteps.2

end Loop

end SmtpClient
