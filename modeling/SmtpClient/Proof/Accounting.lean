import Mathlib.Data.List.Perm.Basic
import SmtpClient.Proof.Slots
import SmtpClient.RecordEngine

/-!
# The books of an orchestrator

The counters say what the history says, modulo the width of a `size_t`; the serial numbers of the
accepted attempts are, up to order, those of the reports and those of the slots in use; and the
reactor counts the latter. All three are kept by every turn of the loop, and what `run` promises
when it returns is read off them.
-/

namespace SmtpClient

open scoped List

variable {E : TlsEngine}

theorem perm_cons_set {α : Type} {l : List α} {i : Nat} {a : α} (b : α) (h : l[i]? = some a) :
    (a :: l.set i b).Perm (b :: l) := by
  obtain ⟨hi, rfl⟩ := List.getElem?_eq_some_iff.mp h
  calc
    l[i] :: l.set i b
    _ ~ l[i] :: b :: l.eraseIdx i := (List.set_perm_cons_eraseIdx hi b).cons _
    _ ~ b :: l[i] :: l.eraseIdx i := .swap ..
    _ ~ b :: l := (List.getElem_cons_eraseIdx_perm hi).cons _

section History

variable (history : List (Notice E)) (serial : Nat) (finalState : ConnState) (w : World E)

@[simp] theorem refusals_refused : refusals (history ++ [.refused]) = refusals history + 1 := by
  simp [refusals]

@[simp] theorem refusals_accepted :
    refusals (history ++ [.accepted serial]) = refusals history := by simp [refusals]

@[simp] theorem refusals_terminal :
    refusals (history ++ [.terminal serial finalState w]) = refusals history := by simp [refusals]

@[simp] theorem acceptedSerials_refused :
    acceptedSerials (history ++ [.refused]) = acceptedSerials history := by simp [acceptedSerials]

@[simp] theorem acceptedSerials_accepted :
    acceptedSerials (history ++ [.accepted serial]) = acceptedSerials history ++ [serial] := by
  simp [acceptedSerials]

@[simp] theorem acceptedSerials_terminal :
    acceptedSerials (history ++ [.terminal serial finalState w]) = acceptedSerials history := by
  simp [acceptedSerials]

@[simp] theorem reports_refused : reports (history ++ [.refused]) = reports history := by
  simp [reports]

@[simp] theorem reports_accepted : reports (history ++ [.accepted serial]) = reports history := by
  simp [reports]

@[simp] theorem reports_terminal : reports (history ++ [.terminal serial finalState w])
    = reports history ++ [(serial, finalState, w)] := by simp [reports]

end History

/-- The serial number of a slot in use. -/
def Slot.openSerial (slot : Slot E) : List Nat := if slot.inUse then [slot.serial] else []

def openSerials (slots : List (Slot E)) : List Nat := slots.flatMap Slot.openSerial

theorem length_openSerials (slots : List (Slot E)) :
    (openSerials slots).length = slots.countP Slot.inUse := by
  induction slots with
  | nil => rfl
  | cons slot slots ih =>
      cases hinUse : slot.inUse <;>
        simp [openSerials, Slot.openSerial, hinUse] at ih ⊢ <;> omega

theorem openSerials_set {slots : List (Slot E)} {i : Nat} {slot : Slot E} (slot' : Slot E)
    (h : slots[i]? = some slot) :
    (slot.openSerial ++ openSerials (slots.set i slot')).Perm
      (slot'.openSerial ++ openSerials slots) := by
  simpa [openSerials] using (perm_cons_set slot' h).flatMap_right Slot.openSerial

namespace Orchestrator

/-- Attempts made so far. -/
def attempts (orch : Orchestrator E) : Nat :=
  refusals orch.history + (acceptedSerials orch.history).length

/-- The counters say what the history says. -/
structure Counted (orch : Orchestrator E) : Prop where
  started : orch.stats.totalStarted = .ofNat orch.attempts
  completed : orch.stats.totalCompleted
    = .ofNat (refusals orch.history + (reports orch.history).length)
  succeeded : orch.stats.totalSucceeded
    = .ofNat ((reports orch.history).countP fun r => r.2.1 = .ready)
  failed : orch.stats.totalFailed
    = .ofNat (refusals orch.history + (reports orch.history).countP fun r => ¬ r.2.1 = .ready)

/-- Every accepted attempt is in one slot or in one report, and the reactor counts the slots. -/
structure Owned (orch : Orchestrator E) : Prop where
  serials : acceptedSerials orch.history = List.range (acceptedSerials orch.history).length
  custody : (acceptedSerials orch.history).Perm
    ((reports orch.history).map Prod.fst ++ openSerials orch.slots)
  live : orch.reactor.liveCount = (openSerials orch.slots).length
  capacity : orch.reactor.maxConnections = orch.slots.length

section Calls

variable {orch orch' : Orchestrator E} {i : Nat} {slot : Slot E} {event : Event E}

theorem ofNat_succ (n : Nat) : UInt64.ofNat (n + 1) = UInt64.ofNat n + 1 := UInt64.ofNat_add n 1

theorem Counted.refuse (h : Counted orch) : Counted orch.refuse where
  started := by
    rw [attempts, Orchestrator.refuse, refusals_refused, acceptedSerials_refused,
      Nat.add_right_comm, ofNat_succ]
    exact congrArg (· + 1) h.started
  completed := by
    rw [Orchestrator.refuse, refusals_refused, reports_refused, Nat.add_right_comm, ofNat_succ]
    exact congrArg (· + 1) h.completed
  succeeded := by
    rw [Orchestrator.refuse, reports_refused]
    exact h.succeeded
  failed := by
    rw [Orchestrator.refuse, refusals_refused, reports_refused, Nat.add_right_comm, ofNat_succ]
    exact congrArg (· + 1) h.failed

theorem Owned.refuse (h : Owned orch) : Owned orch.refuse where
  serials := by simpa [Orchestrator.refuse] using h.serials
  custody := by simpa [Orchestrator.refuse] using h.custody
  live := h.live
  capacity := h.capacity

theorem Owned.replace (h : Owned orch) (hslot : orch.slots[i]? = some slot) (w : World E)
    (caps : Capabilities) (nextConnectionId : UInt32) :
    Owned { orch with
      caps := caps
      nextConnectionId := nextConnectionId
      slots := orch.slots.set i { slot with world := w } } := by
  have hperm : openSerials (orch.slots.set i { slot with world := w }) ~ openSerials orch.slots :=
    (List.perm_append_left_iff slot.openSerial).mp (openSerials_set _ hslot)
  refine ⟨h.serials, h.custody.trans (hperm.symm.append_left _), ?_, ?_⟩
  · exact h.live.trans hperm.length_eq.symm
  · simpa using h.capacity

theorem Counted.starts {inFlight : Bool} (h : Counted orch)
    (hstarts : Starts orch i slot orch' inFlight) : Counted orch' := by
  cases hstarts with
  | noSocket => exact h.refuse
  | refused w => exact Counted.refuse ⟨h.started, h.completed, h.succeeded, h.failed⟩
  | accepted w =>
      refine ⟨?_, ?_, ?_, ?_⟩
      · rw [attempts, accept, refusals_accepted, acceptedSerials_accepted, List.length_append,
          List.length_singleton, ← Nat.add_assoc, ofNat_succ]
        exact congrArg (· + 1) h.started
      · simpa [accept] using h.completed
      · simpa [accept] using h.succeeded
      · simpa [accept] using h.failed

theorem Owned.starts {inFlight : Bool} (h : Owned orch) (hslot : orch.slots[i]? = some slot)
    (hvacant : slot.inUse = false) (hstarts : Starts orch i slot orch' inFlight) :
    Owned orch' := by
  cases hstarts with
  | noSocket => exact h.refuse
  | refused w => exact (h.replace hslot w orch.caps _).refuse
  | accepted w =>
      have hperm := openSerials_set
        (⟨w, true, (acceptedSerials orch.history).length⟩ : Slot E) hslot
      simp only [Slot.openSerial, hvacant, if_true, Bool.false_eq_true, if_false,
        List.nil_append] at hperm
      refine ⟨?_, ?_, ?_, ?_⟩
      · simp only [accept, acceptedSerials_accepted, List.length_append, List.length_singleton,
          List.range_succ]
        rw [← h.serials]
      · simp only [accept, acceptedSerials_accepted, reports_accepted]
        calc
          acceptedSerials orch.history ++ [(acceptedSerials orch.history).length]
          _ ~ ((reports orch.history).map Prod.fst ++ openSerials orch.slots)
                ++ [(acceptedSerials orch.history).length] := h.custody.append_right _
          _ ~ (reports orch.history).map Prod.fst
                ++ ([(acceptedSerials orch.history).length] ++ openSerials orch.slots) := by
              rw [List.append_assoc]
              exact List.perm_append_comm.append_left _
          _ ~ _ := hperm.symm.append_left _
      · have hlength := hperm.length_eq
        simp only [accept, h.live, hlength, List.length_append, List.length_singleton]
        omega
      · simpa [accept] using h.capacity

theorem Counted.tends (h : Counted orch) (htends : Tends orch i slot event orch') :
    Counted orch' := by
  cases htends with
  | goesOn w => exact ⟨h.started, h.completed, h.succeeded, h.failed⟩
  | finishes w _ hover =>
      refine ⟨?_, ?_, ?_, ?_⟩
      · simpa [finished, attempts] using h.started
      · rw [finished, refusals_terminal, reports_terminal, List.length_append,
          List.length_singleton, ← Nat.add_assoc, ofNat_succ]
        exact congrArg (· + 1) h.completed
      · by_cases hready : w.conn.state = .ready <;>
          simp [finished, hready, h.succeeded, List.countP_append, ofNat_succ]
      · by_cases hready : w.conn.state = .ready <;>
          simp [finished, hready, h.failed, List.countP_append, ← Nat.add_assoc, ofNat_succ]

theorem Owned.tends (h : Owned orch) (hslot : orch.slots[i]? = some slot)
    (hinUse : slot.inUse = true) (htends : Tends orch i slot event orch') : Owned orch' := by
  cases htends with
  | goesOn w => exact h.replace hslot w w.caps orch.nextConnectionId
  | finishes w =>
      have hperm := openSerials_set
        ({ slot with
          world := { w with conn := Conn.close w.conn }
          inUse := false } : Slot E) hslot
      simp only [Slot.openSerial, hinUse, if_true, Bool.false_eq_true, if_false,
        List.nil_append] at hperm
      refine ⟨?_, ?_, ?_, ?_⟩
      · simpa [finished] using h.serials
      · simp only [finished, acceptedSerials_terminal, reports_terminal, List.map_append,
          List.map_cons, List.map_nil, List.append_assoc]
        exact h.custody.trans (hperm.symm.append_left _)
      · have hlength := hperm.length_eq
        simp only [List.length_append, List.length_singleton] at hlength
        simp only [finished, h.live]
        omega
      · simpa [finished] using h.capacity

theorem attempts_starts {inFlight : Bool} (h : Starts orch i slot orch' inFlight) :
    orch'.attempts = orch.attempts + 1 := by
  cases h with
  | noSocket | refused => simp [attempts, Orchestrator.refuse, Nat.add_right_comm]
  | accepted => simp [attempts, accept, Nat.add_assoc]

theorem attempts_tends (h : Tends orch i slot event orch') : orch'.attempts = orch.attempts := by
  cases h <;> simp [attempts, finished]

theorem toNat_totalStarted (h : Counted orch) (hbound : orch.attempts < 2 ^ 64) :
    orch.stats.totalStarted.toNat = orch.attempts := by
  rw [h.started, UInt64.toNat_ofNat']
  exact Nat.mod_eq_of_lt hbound

theorem attempts_eq (h : Owned orch) : orch.attempts
    = refusals orch.history + (reports orch.history).length + orch.slots.countP Slot.inUse := by
  have hlength := h.custody.length_eq
  rw [List.length_append, List.length_map, length_openSerials] at hlength
  rw [attempts, hlength, Nat.add_assoc]

end Calls

end Orchestrator

namespace Loop

open Orchestrator

/-- What holds of the books at every turn. -/
structure Ledger (l : Loop E) : Prop where
  counted : Counted l.orch
  owned : Owned l.orch
  within : l.totalTarget ≠ 0 → l.orch.attempts ≤ l.totalTarget.toNat
  done : l.pc = .returned → l.orch.stopRequested = true ∨ l.targetStarted = true
    ∧ (l.totalTarget ≤ l.orch.stats.totalCompleted ∨ l.orch.slots.any Slot.inUse = false)

variable {C : World E → Event E → Prop} {orch : Orchestrator E} {totalTarget : UInt64}
  {l l' : Loop E}

theorem done_leaveFill {nowMs : Nat} (h : (l.leaveFill nowMs).pc = .returned) :
    l.targetStarted = true
      ∧ (l.totalTarget ≤ l.orch.stats.totalCompleted ∨ l.orch.slots.any Slot.inUse = false) := by
  unfold leaveFill at h
  split at h <;> rename_i hfirst
  · exact ⟨hfirst.1, .inl hfirst.2⟩
  split at h <;> rename_i hsecond
  · exact ⟨hsecond.2, .inr (by simpa using hsecond.1)⟩
  · exact absurd h (by simp)

theorem Ledger.leaveFill (hcounted : Counted l.orch) (howned : Owned l.orch)
    (hwithin : l.totalTarget ≠ 0 → l.orch.attempts ≤ l.totalTarget.toNat) (nowMs : Nat) :
    Ledger (l.leaveFill nowMs) where
  counted := by simpa using hcounted
  owned := by simpa using howned
  within := by simpa using hwithin
  done hpc := by
    have hdone := done_leaveFill hpc
    right
    simpa [targetStarted] using hdone

theorem attempts_lt_of_not_targetStarted (h : Ledger l) (htarget : l.targetStarted = false)
    (hbounded : l.totalTarget ≠ 0) : l.orch.attempts < l.totalTarget.toNat := by
  have hle := h.within hbounded
  have hsmall := l.totalTarget.toNat_lt
  have hstarted : ¬ l.totalTarget ≤ l.orch.stats.totalStarted := by
    simpa [targetStarted, hbounded] using htarget
  rw [UInt64.le_iff_toNat_le, toNat_totalStarted h.counted (by omega)] at hstarted
  omega

theorem Turned.ledger (h : Turned C l l') (hkept : Kept C l) (hledger : Ledger l) : Ledger l' := by
  have hwithin {orch' : Orchestrator E} (heq : orch'.attempts = l.orch.attempts + 1)
      (htarget : l.targetStarted = false) :
      l.totalTarget ≠ 0 → orch'.attempts ≤ l.totalTarget.toNat := fun hbounded => by
    rw [heq]
    exact attempts_lt_of_not_targetStarted hledger htarget hbounded
  obtain ⟨hcounted, howned, hold, hdone⟩ := hledger
  cases h with
  | stops =>
      refine ⟨⟨hcounted.started, hcounted.completed, hcounted.succeeded, hcounted.failed⟩,
        ⟨howned.serials, howned.custody, howned.live, howned.capacity⟩, hold, fun _ => .inl rfl⟩
  | returns _ hstop => exact ⟨hcounted, howned, hold, fun _ => .inl hstop⟩
  | moves pc _ hreturned => exact ⟨hcounted, howned, hold, fun hpc => absurd hpc hreturned⟩
  | leaves nowMs => exact .leaveFill hcounted howned hold nowMs
  | starts i nowMs slot hslot hvacant htarget hstarts =>
      exact ⟨hcounted.starts hstarts, howned.starts hslot hvacant hstarts,
        hwithin (attempts_starts hstarts) htarget, fun hpc => nomatch hpc⟩
  | refused i nowMs slot hslot hvacant htarget hstarts =>
      have hnext := hwithin (attempts_starts hstarts) htarget
      exact .leaveFill (hcounted.starts hstarts) (howned.starts hslot hvacant hstarts) hnext nowMs
  | polled | nowhere => exact ⟨hcounted, howned, hold, fun hpc => nomatch hpc⟩
  | handled env c rest nowMs slot hpc hslot _ htends =>
      obtain ⟨-, hinUse⟩ := hkept.pending _ _ hpc
      obtain ⟨slot', hslot', hused, -⟩ := hinUse c List.mem_cons_self
      obtain rfl := Option.some.inj (hslot'.symm.trans hslot)
      refine ⟨hcounted.tends htends, howned.tends hslot hused htends, ?_, fun hpc => nomatch hpc⟩
      rw [attempts_tends htends]
      exact hold
  | swept i nowMs slot hslot hused _ htends =>
      refine ⟨hcounted.tends htends, howned.tends hslot hused htends, ?_, fun hpc => nomatch hpc⟩
      rw [attempts_tends htends]
      exact hold

theorem ledger_begin (hcreated : orch.Created) : Ledger (begin orch totalTarget) := by
  obtain ⟨_, maxConnections, _, _, _, _, _, _, _, hcreate⟩ := hcreated
  obtain ⟨tlsCtx, -, rfl⟩ := create_ok hcreate
  have hopen : openSerials (List.replicate maxConnections (Slot.vacant : Slot E)) = [] := by
    simp [openSerials, Slot.openSerial, Slot.vacant]
  refine ⟨⟨rfl, rfl, rfl, rfl⟩, ⟨rfl, ?_, ?_, ?_⟩, fun _ => Nat.zero_le _, fun hpc => ?_⟩
  · simp [begin, acceptedSerials, reports, hopen]
  · simp [begin, hopen]
  · simp [begin]
  · cases hpc

theorem ReachableWhen.ledger (h : ReachableWhen C orch totalTarget l) (hcreated : orch.Created)
    (hothers : ∀ w caps, C w (.others caps)) : Ledger l ∧ Kept C l :=
  h.invariant hcreated hothers (ledger_begin hcreated) fun _ _ hkept hledger hturned =>
    hturned.ledger hkept hledger

/-! ### The assertions that are not hit -/

theorem live_of_inUse {slot : Slot E} {i : Nat} (h : Owned orch) (hslot : orch.slots[i]? = some slot)
    (hinUse : slot.inUse = true) : 0 < orch.reactor.liveCount := by
  rw [h.live, length_openSerials]
  exact List.countP_pos_iff.mpr ⟨slot, List.mem_of_getElem? hslot, hinUse⟩

/-- What is left of the ways in which a turn can fail: the assertion on the actor of a log line,
where a connection is started; and where it is handed a completion, the one on the detail of a log
line, or the one on a decryption that asks for a write. -/
inductive Ends (l : Loop E) : Turn E → Abort → Prop where
  | actor (socketMade : Bool) (syscalls : ConnectSyscalls)
      (hactor : containsCrOrLf l.orch.config.settings.actor = true) :
      Ends l (.fill socketMade syscalls) (.connection .logActor)
  | connection (env : Env E) (c : Completion) (rest : List Completion) (nowMs : Nat) (slot : Slot E)
      (e : Assertion) (hpc : l.pc = .dispatch (c :: rest) nowMs)
      (hslot : l.orch.slots[c.slot]? = some slot)
      (hstep : Conn.step l.orch.config.ehloIdentity { slot.world with caps := l.orch.caps }
        (.completion env c.op c.result c.data nowMs) = .error e)
      (hcause : e = .logDetail
        ∨ e = .decryptStatus ∧ ∃ tls input n, (E.decrypt tls input n).status = .wantWrite) :
      Ends l (.handle env) (.connection e)

theorem ends_of_step {turn : Turn E} {a : Abort} (hledger : Ledger l)
    (hkept : Kept (fun _ _ => True) l) (h : l.step turn = .error a) : Ends l turn a := by
  have hreach {slot : Slot E} {i : Nat} (hslot : l.orch.slots[i]? = some slot)
      (hinUse : slot.inUse = true) : Conn.Reachable l.orch.config.ehloIdentity
        { slot.world with caps := l.orch.caps } := by
    obtain ⟨⟨hheld, -⟩, -⟩ := hkept.tended.inUse slot (List.mem_of_getElem? hslot) hinUse
    have hlent : (Conn.machine E l.orch.config.ehloIdentity).Steps slot.world
        (.others l.orch.caps) { slot.world with caps := l.orch.caps } := ⟨trivial, rfl⟩
    exact hheld.reachable.step hlent
  have howned {slot : Slot E} {i : Nat} (hslot : l.orch.slots[i]? = some slot)
      (hinUse : slot.inUse = true) : l.orch.reactor.liveCount ≠ 0 :=
    Nat.ne_of_gt (live_of_inUse hledger.owned hslot hinUse)
  cases step_error h with
  | starts socketMade syscalls _ _ _ hstart =>
      obtain ⟨rfl, hactor⟩ := startSlot_error hstart
      exact .actor socketMade syscalls hactor
  | handles env c rest nowMs slot hpc hslot hstep =>
      obtain ⟨hused, hadm⟩ := hkept.head hpc hslot env
      rcases stepSlot_error hstep with ⟨e, rfl, hfails⟩ | ⟨-, hzero⟩
      · refine .connection env c rest nowMs slot e hpc hslot hfails ?_
        cases (hreach hslot hused).completion_aborts hadm.1 hadm.2 hfails with
        | raw | decrypted => exact .inl rfl
        | status tls _ hstatus => exact .inr ⟨rfl, _, _, _, hstatus⟩
      · exact absurd hzero (howned hslot hused)
  | sweeps i nowMs slot hpc hslot hused hstep =>
      rcases stepSlot_error hstep with ⟨e, rfl, hfails⟩ | ⟨-, hzero⟩
      · obtain ⟨w', hok⟩ := (hreach hslot hused).checkTimeout_ok nowMs
        cases hok.symm.trans hfails
      · exact absurd hzero (howned hslot hused)

theorem Ends.ne_forget {turn : Turn E} {a : Abort} (h : Ends l turn a) : a ≠ .reactorForget := by
  cases h <;> simp

theorem Reachable.ledger (h : Reachable orch totalTarget l) (hcreated : orch.Created) : Ledger l :=
  ((h.reachableWhen (C := fun _ _ => True) fun _ _ => trivial).ledger hcreated fun _ _ => trivial).1

theorem Reachable.ends {turn : Turn E} {a : Abort} (h : Reachable orch totalTarget l)
    (hcreated : orch.Created) (hstep : l.step turn = .error a) : Ends l turn a :=
  ends_of_step (h.ledger hcreated) (h.kept hcreated) hstep

/-! ### What run promises -/

/-- The accounts of a run. -/
structure Balanced (totalTarget : UInt64) (l : Loop E) : Prop where
  started : l.orch.stats.totalStarted
    = l.orch.stats.totalCompleted + .ofNat (l.orch.slots.countP Slot.inUse)
  completed : l.orch.stats.totalCompleted
    = l.orch.stats.totalSucceeded + l.orch.stats.totalFailed
  live : l.orch.reactor.liveCount = l.orch.slots.countP Slot.inUse
  capacity : l.orch.reactor.liveCount ≤ l.orch.reactor.maxConnections
  never_full : ∀ (i : Nat) (slot : Slot E) syscalls, l.orch.slots[i]? = some slot →
    slot.inUse = false → (l.orch.reactor.submitConnect syscalls).2 ≠ .atCapacity
  never_over_forgotten : ∀ turn, step l turn ≠ .error .reactorForget
  within : totalTarget ≠ 0 → l.orch.stats.totalStarted ≤ totalTarget
  accepted_once : (acceptedSerials l.orch.history).Nodup
  reported_once : ((reports l.orch.history).map Prod.fst).Nodup
  reported_accepted : (reports l.orch.history).map Prod.fst ⊆ acceptedSerials l.orch.history
  succeeded : l.orch.stats.totalSucceeded
    = .ofNat ((reports l.orch.history).countP fun r => r.2.1 = .ready)
  returned : l.pc = .returned → l.orch.stopRequested = false →
    l.orch.stats.totalStarted = totalTarget ∧ l.orch.stats.totalCompleted = totalTarget
      ∧ (∀ slot ∈ l.orch.slots, slot.inUse = false)
      ∧ acceptedSerials l.orch.history ⊆ (reports l.orch.history).map Prod.fst

theorem started_eq (h : Ledger l) : l.orch.stats.totalStarted
    = l.orch.stats.totalCompleted + .ofNat (l.orch.slots.countP Slot.inUse) := by
  rw [h.counted.started, h.counted.completed, attempts_eq h.owned, UInt64.ofNat_add]

theorem all_done (h : Ledger l) (hpc : l.pc = .returned) (hstop : l.orch.stopRequested = false) :
    l.orch.stats.totalStarted = l.totalTarget ∧ l.orch.stats.totalCompleted = l.totalTarget
      ∧ l.orch.slots.countP Slot.inUse = 0 := by
  rcases h.done hpc with hstopped | ⟨htarget, hover⟩
  · exact absurd hstopped (by simp [hstop])
  obtain ⟨hbounded, hle⟩ : l.totalTarget ≠ 0 ∧ l.totalTarget ≤ l.orch.stats.totalStarted := by
    simpa [targetStarted] using htarget
  have hwithin := h.within hbounded
  have hsmall := l.totalTarget.toNat_lt
  have hattempts := attempts_eq h.owned
  have hstarted : l.orch.stats.totalStarted.toNat = l.orch.attempts :=
    toNat_totalStarted h.counted (by omega)
  have hcompleted : l.orch.stats.totalCompleted.toNat
      = refusals l.orch.history + (reports l.orch.history).length := by
    rw [h.counted.completed, UInt64.toNat_ofNat']
    exact Nat.mod_eq_of_lt (by omega)
  rw [UInt64.le_iff_toNat_le, hstarted] at hle
  have hidle : l.orch.slots.countP Slot.inUse = 0 := by
    rcases hover with hover | hnone
    · rw [UInt64.le_iff_toNat_le, hcompleted] at hover
      omega
    · apply List.countP_eq_zero.mpr
      intro slot hmem hinUse
      exact absurd (List.any_eq_true.mpr ⟨slot, hmem, hinUse⟩) (by simp [hnone])
  refine ⟨UInt64.toNat_inj.mp ?_, UInt64.toNat_inj.mp ?_, hidle⟩
  · omega
  · omega

theorem completed_eq (h : Ledger l) : l.orch.stats.totalCompleted
    = l.orch.stats.totalSucceeded + l.orch.stats.totalFailed := by
  rw [h.counted.completed, h.counted.succeeded, h.counted.failed,
    List.length_eq_countP_add_countP (fun r => r.2.1 = .ready), ← UInt64.ofNat_add]
  congr 1
  simp only [decide_eq_true_eq]
  omega

/-- A vacant slot is room in the reactor. -/
theorem submitConnect_ne_atCapacity {orch : Orchestrator E} (h : Owned orch) {i : Nat} {slot : Slot E}
    (hslot : orch.slots[i]? = some slot) (hvacant : slot.inUse = false)
    (syscalls : ConnectSyscalls) : (orch.reactor.submitConnect syscalls).2 ≠ .atCapacity := by
  have hlive : orch.reactor.liveCount = orch.slots.countP Slot.inUse :=
    h.live.trans (length_openSerials _)
  have hroom : orch.slots.countP Slot.inUse < orch.slots.length := by
    apply Nat.lt_of_le_of_ne List.countP_le_length
    intro hall
    have hinUse := List.countP_eq_length.mp hall slot (List.mem_of_getElem? hslot)
    exact absurd hinUse (by simp [hvacant])
  unfold Reactor.submitConnect
  rw [hlive, h.capacity, if_neg (by omega)]
  split
  · simp
  · split <;> simp

theorem totalStarted_le (h : Ledger l) (hbounded : l.totalTarget ≠ 0) :
    l.orch.stats.totalStarted ≤ l.totalTarget := by
  have hwithin := h.within hbounded
  have hsmall := l.totalTarget.toNat_lt
  rw [UInt64.le_iff_toNat_le, toNat_totalStarted h.counted (by omega)]
  exact hwithin

/-- **Accounting.** Whatever `socket`, the reactor, the clock and the servers answer to an
orchestrator fresh from `smtp_orchestrator_create`, its accounts balance at every turn of its run.
-/
theorem accounting (hcreated : orch.Created) (h : Reachable orch totalTarget l) :
    Balanced totalTarget l := by
  have hwhen := h.reachableWhen (C := fun _ _ => True) fun _ _ => trivial
  obtain ⟨hledger, hkept⟩ := hwhen.ledger hcreated fun _ _ => trivial
  have htarget : l.totalTarget = totalTarget :=
    (hwhen.invariant (I := fun l => l.totalTarget = totalTarget) hcreated (fun _ _ => trivial) rfl
      fun _ _ _ heq hturned => hturned.fixed.2.trans heq).1
  subst htarget
  have howned := hledger.owned
  have hnodup : (acceptedSerials l.orch.history).Nodup := by
    rw [howned.serials]
    exact List.nodup_range
  have hcustody := hnodup.perm howned.custody
  have hlive : l.orch.reactor.liveCount = l.orch.slots.countP Slot.inUse :=
    howned.live.trans (length_openSerials _)
  refine
    { started := started_eq hledger
      completed := completed_eq hledger
      live := hlive
      capacity := ?_
      never_full := fun i slot syscalls hslot hvacant =>
        submitConnect_ne_atCapacity howned hslot hvacant syscalls
      never_over_forgotten := fun turn hforget => (ends_of_step hledger hkept hforget).ne_forget rfl
      within := totalStarted_le hledger
      accepted_once := hnodup
      reported_once := (List.nodup_append.mp hcustody).1
      reported_accepted := ?_
      succeeded := hledger.counted.succeeded
      returned := ?_ }
  · rw [hlive, howned.capacity]
    exact List.countP_le_length
  · intro serial hmem
    exact howned.custody.symm.subset (List.mem_append_left _ hmem)
  · intro hpc hstop
    obtain ⟨hstarted, hcompleted, hidle⟩ := all_done hledger hpc hstop
    have hvacant : ∀ slot ∈ l.orch.slots, slot.inUse = false := by
      intro slot hmem
      simpa using List.countP_eq_zero.mp hidle slot hmem
    have hnone : openSerials l.orch.slots = [] := by
      rw [← List.length_eq_zero_iff, length_openSerials, hidle]
    have hreported : acceptedSerials l.orch.history ⊆ (reports l.orch.history).map Prod.fst := by
      intro serial hmem
      simpa [hnone] using howned.custody.subset hmem
    exact ⟨hstarted, hcompleted, hvacant, hreported⟩

/-- One attempt in the clear, from its start to the end of the run. -/
theorem accounting_one_attempt :
    ∃ l, playLoop (machine _) .none (plainTurns (bytes "250 mx\r\n")) = some l
      ∧ l.pc = .returned ∧ l.orch.stats = ⟨1, 1, 1, 0⟩ ∧ Balanced 1 l := by
  have hplay : (playLoop (machine _) .none (plainTurns (bytes "250 mx\r\n"))).map
      (fun l => (l.pc matches .returned, l.orch.stats)) = some (true, ⟨1, 1, 1, 0⟩) := by
    decide +kernel
  obtain ⟨l, hl, heq⟩ := Option.map_eq_some_iff.mp hplay
  obtain ⟨hpc, hstats⟩ := Prod.mk.inj heq
  obtain ⟨orch, hcreate, run⟩ := run_of_playLoop hl
  refine ⟨l, hl, ?_, hstats, accounting ⟨_, _, _, _, _, _, _, _, _, hcreate⟩ ⟨_, run⟩⟩
  cases h : l.pc <;> simp [h] at hpc ⊢

end Loop

end SmtpClient
