import SmtpClient.Proof.Accounting
import SmtpClient.Proof.Deadlines

/-!
# The deadlines of a loop

A poll sleeps up to the soonest deadline and never beyond it, and the sweep behind it, at the clock
reading taken behind the poll, leaves no slot in use that is due and ends no connection that is not.
-/

namespace SmtpClient

variable {E : TlsEngine}

namespace Orchestrator

/-- When a poll at `nowMs` has to wake up. -/
structure Wakes (slots : List (Slot E)) (nowMs timeoutMs : Nat) : Prop where
  le : timeoutMs ≤ 1000
  before : ∀ slot ∈ slots, slot.inUse = true → nowMs < slot.world.conn.deadlineMs →
    nowMs + timeoutMs ≤ slot.world.conn.deadlineMs
  zero : timeoutMs = 0
    ↔ ∃ slot ∈ slots, slot.inUse = true ∧ slot.world.conn.deadlineMs ≤ nowMs
  idle : (∀ slot ∈ slots, slot.inUse = false) → timeoutMs = 1000

/-- The loop of `smtp_orch_next_poll_timeout_ms`: whether a slot in use was found, and the soonest
deadline so far. -/
def scanDeadline (found : Bool × Nat) (slot : Slot E) : Bool × Nat :=
  let d := slot.world.conn.deadlineMs
  if !slot.inUse then found
  else if !found.1 || d < found.2 then (true, d) else found

def deadlines (slots : List (Slot E)) : List Nat :=
  (slots.filter Slot.inUse).map fun slot => slot.world.conn.deadlineMs

theorem foldl_scanDeadline (slots : List (Slot E)) (soonest : Nat) :
    slots.foldl scanDeadline (true, soonest) = (true, (deadlines slots).foldl min soonest) := by
  induction slots generalizing soonest with
  | nil => rfl
  | cons slot slots ih =>
      rw [List.foldl_cons]
      cases hinUse : slot.inUse with
      | false =>
          have hskip : scanDeadline (true, soonest) slot = (true, soonest) := by
            simp [scanDeadline, hinUse]
          rw [hskip, ih, deadlines, deadlines, List.filter_cons_of_neg (by simp [hinUse])]
      | true =>
          have htake : scanDeadline (true, soonest) slot
              = (true, min soonest slot.world.conn.deadlineMs) := by
            simp only [scanDeadline, hinUse, Bool.not_true, Bool.false_or, Bool.false_eq_true,
              if_false, decide_eq_true_eq]
            split
            · rw [Nat.min_eq_right (by omega)]
            · rw [Nat.min_eq_left (by omega)]
          rw [htake, ih, deadlines, deadlines, List.filter_cons_of_pos hinUse, List.map_cons,
            List.foldl_cons]

/-- The running minimum with its flag is the minimum of the deadlines. -/
theorem scanDeadline_eq (slots : List (Slot E)) :
    (deadlines slots).min? = if (slots.foldl scanDeadline (false, 0)).1 then
      some (slots.foldl scanDeadline (false, 0)).2 else none := by
  induction slots with
  | nil => rfl
  | cons slot slots ih =>
      rw [List.foldl_cons]
      cases hinUse : slot.inUse with
      | false =>
          have hskip : scanDeadline (false, 0) slot = (false, 0) := by simp [scanDeadline, hinUse]
          rw [hskip, ← ih, deadlines, deadlines, List.filter_cons_of_neg (by simp [hinUse])]
      | true =>
          have htake : scanDeadline (false, 0) slot = (true, slot.world.conn.deadlineMs) := by
            simp [scanDeadline, hinUse]
          rw [htake, foldl_scanDeadline, deadlines, List.filter_cons_of_pos hinUse, List.map_cons,
            List.min?_cons']
          rfl

/-- The timeout as the loop computes it. -/
theorem nextPollTimeoutMs_eq_scan (orch : Orchestrator E) (nowMs : Nat) :
    orch.nextPollTimeoutMs nowMs =
      let found := orch.slots.foldl scanDeadline (false, 0)
      if !found.1 then maxPollIntervalMs
      else if found.2 ≤ nowMs then 0
      else if found.2 - nowMs < maxPollIntervalMs then found.2 - nowMs else maxPollIntervalMs := by
  rw [nextPollTimeoutMs, ← deadlines, scanDeadline_eq]
  generalize orch.slots.foldl scanDeadline (false, 0) = found
  obtain ⟨any, soonest⟩ := found
  cases any <;> rfl

theorem wakes_nextPollTimeoutMs (orch : Orchestrator E) (nowMs : Nat) :
    Wakes orch.slots nowMs (orch.nextPollTimeoutMs nowMs) := by
  have hmem {d : Nat} : d ∈ deadlines orch.slots
      ↔ ∃ slot ∈ orch.slots, slot.inUse = true ∧ slot.world.conn.deadlineMs = d := by
    simp only [deadlines, List.mem_map, List.mem_filter, and_assoc]
  rw [nextPollTimeoutMs, ← deadlines, maxPollIntervalMs]
  cases hmin : (deadlines orch.slots).min? with
  | none =>
      have hfree (slot : Slot E) (hslot : slot ∈ orch.slots) : slot.inUse = false := by
        have hempty := List.map_eq_nil_iff.mp (List.min?_eq_none_iff.mp hmin)
        simpa using List.filter_eq_nil_iff.mp hempty slot hslot
      refine ⟨Nat.le_refl _, ?_, ?_, fun _ => rfl⟩
      · intro slot hslot hinUse
        exact absurd hinUse (by simp [hfree slot hslot])
      · refine ⟨by simp, ?_⟩
        rintro ⟨slot, hslot, hinUse, -⟩
        exact absurd hinUse (by simp [hfree slot hslot])
  | some soonest =>
      obtain ⟨hin, hle⟩ := List.min?_eq_some_iff.mp hmin
      obtain ⟨first, hfirst, hused, hdeadline⟩ := hmem.mp hin
      have hsoonest (slot : Slot E) (hslot : slot ∈ orch.slots) (hinUse : slot.inUse = true) :
          soonest ≤ slot.world.conn.deadlineMs := hle _ (hmem.mpr ⟨slot, hslot, hinUse, rfl⟩)
      have hbusy (h : ∀ slot ∈ orch.slots, slot.inUse = false) : False := by
        rw [h first hfirst] at hused
        cases hused
      dsimp only
      split
      · rename_i hdue
        refine ⟨Nat.zero_le _, fun _ _ _ hlater => Nat.le_of_lt hlater, ?_, fun h => (hbusy h).elim⟩
        exact ⟨fun _ => ⟨first, hfirst, hused, hdeadline ▸ hdue⟩, fun _ => rfl⟩
      · rename_i hlater
        generalize htimeout : (if soonest - nowMs < 1000 then soonest - nowMs else 1000) = timeoutMs
        have hbounds : timeoutMs ≤ 1000 ∧ 0 < timeoutMs ∧ nowMs + timeoutMs ≤ soonest := by
          split at htimeout <;> omega
        obtain ⟨hcap, hpos, hbefore⟩ := hbounds
        refine ⟨hcap, ?_, ?_, fun h => (hbusy h).elim⟩
        · exact fun slot hslot hinUse _ => Nat.le_trans hbefore (hsoonest slot hslot hinUse)
        · refine ⟨fun hzero => absurd hzero (Nat.ne_of_gt hpos), ?_⟩
          rintro ⟨slot, hslot, hinUse, hdue⟩
          exact absurd (Nat.le_trans (hsoonest slot hslot hinUse) hdue) hlater

end Orchestrator

namespace Conn

theorem checkTimeout_early {w : World E} {nowMs : Nat} (h : nowMs < w.conn.deadlineMs) :
    checkTimeout w nowMs = .ok w := by
  unfold checkTimeout
  split
  · rfl
  · rw [if_neg (Nat.not_le.mpr h)]

theorem checkTimeout_live {w w' : World E} {nowMs : Nat} (h : checkTimeout w nowMs = .ok w')
    (hlive : w'.conn.state.terminal = false) : w' = w ∧ nowMs < w.conn.deadlineMs := by
  have hearly : nowMs < w.conn.deadlineMs := by
    by_contra hdue
    rw [terminal_of_expired h (Nat.le_of_not_lt hdue)] at hlive
    cases hlive
  rw [checkTimeout_early hearly] at h
  exact ⟨(Except.ok.inj h).symm, hearly⟩

end Conn

/-! ### The sweep -/

def Turn.begins : Turn E → Bool
  | .iterate _ => true
  | _ => false

namespace Loop

open Orchestrator

/-- The loop within one iteration. -/
def iteration (E : TlsEngine) : Machine (Loop E) (Turn E) Abort :=
  (machine E).restrict fun _ turn => turn.begins = false

instance (l : Loop E) (turn : Turn E) : Decidable ((iteration E).admissible l turn) :=
  inferInstanceAs (Decidable (admissible l turn ∧ turn.begins = false))

/-- The slots `i` turns into a sweep, next to what it found. -/
structure Swept (start : List (Slot E)) (nowMs i : Nat) (slots : List (Slot E)) : Prop where
  due : ∀ j < i, ∀ slot : Slot E, slots[j]? = some slot → slot.inUse = true →
    nowMs < slot.world.conn.deadlineMs
  kept : ∀ (j : Nat) (slot : Slot E), start[j]? = some slot → slot.inUse = true →
    slot.world.conn.state.terminal = false → nowMs < slot.world.conn.deadlineMs →
    ∃ slot', slots[j]? = some slot' ∧ slot'.inUse = true ∧ slot'.world.conn = slot.world.conn

inductive Sweeping (start : List (Slot E)) (nowMs : Nat) (l : Loop E) : Prop where
  | going (i : Nat) (hpc : l.pc = .sweep i nowMs) (h : Swept start nowMs i l.orch.slots)
  | ended (hpc : l.pc = .top) (h : Swept start nowMs l.orch.slots.length l.orch.slots)

variable {start : List (Slot E)} {nowMs i : Nat} {l l' : Loop E} {turn : Turn E}

theorem Swept.refl (slots : List (Slot E)) (nowMs : Nat) : Swept slots nowMs 0 slots :=
  ⟨fun _ hj => absurd hj (Nat.not_lt_zero _),
    fun _ slot hslot hinUse _ _ => ⟨slot, hslot, hinUse, rfl⟩⟩

/-- A slot that is left alone. -/
theorem Swept.next {slots : List (Slot E)} (h : Swept start nowMs i slots)
    (hdue : ∀ slot : Slot E, slots[i]? = some slot → slot.inUse = true →
      nowMs < slot.world.conn.deadlineMs) :
    Swept start nowMs (i + 1) slots := by
  refine ⟨fun j hj slot hslot hinUse => ?_, h.kept⟩
  rcases Nat.lt_succ_iff_lt_or_eq.mp hj with hlt | rfl
  · exact h.due j hlt slot hslot hinUse
  · exact hdue slot hslot hinUse

/-- A slot that is replaced. -/
theorem Swept.set {slots : List (Slot E)} {slot slot' : Slot E} (h : Swept start nowMs i slots)
    (hslot : slots[i]? = some slot)
    (hkept : nowMs < slot.world.conn.deadlineMs → slot.world.conn.state.terminal = false →
      slot.inUse = true → slot'.inUse = true ∧ slot'.world.conn = slot.world.conn)
    (hdue : slot'.inUse = true → nowMs < slot'.world.conn.deadlineMs) :
    Swept start nowMs (i + 1) (slots.set i slot') := by
  obtain ⟨hi, -⟩ := List.getElem?_eq_some_iff.mp hslot
  have hat : (slots.set i slot')[i]? = some slot' := List.getElem?_set_self hi
  constructor
  · intro j hj other hother hinUse
    rcases Nat.lt_succ_iff_lt_or_eq.mp hj with hlt | rfl
    · rw [List.getElem?_set_ne (by omega)] at hother
      exact h.due j hlt other hother hinUse
    · obtain rfl : slot' = other := Option.some.inj (hat.symm.trans hother)
      exact hdue hinUse
  · intro j found hfound hinUse hlive hearly
    obtain ⟨other, hother, hused, hconn⟩ := h.kept j found hfound hinUse hlive hearly
    by_cases hj : j = i
    · subst hj
      obtain rfl : slot = other := Option.some.inj (hslot.symm.trans hother)
      rw [← hconn] at hlive hearly
      obtain ⟨hused', hconn'⟩ := hkept hearly hlive hused
      exact ⟨slot', hat, hused', hconn'.trans hconn⟩
    · exact ⟨other, by rwa [List.getElem?_set_ne (Ne.symm hj)], hused, hconn⟩

/-- **One turn of the sweep.** -/
theorem Swept.sweeps (h : Swept start nowMs i l.orch.slots) (hsweeps : Sweeps l i nowMs l') :
    Sweeping start nowMs l' := by
  cases hsweeps with
  | done hslot =>
      refine .ended rfl ⟨fun j hj => h.due j ?_, h.kept⟩
      exact Nat.lt_of_lt_of_le hj (List.getElem?_eq_none_iff.mp hslot)
  | passes slot hslot hvacant =>
      refine .going (i + 1) rfl (h.next fun other hother hinUse => ?_)
      obtain rfl : slot = other := Option.some.inj (hslot.symm.trans hother)
      rw [hvacant] at hinUse
      cases hinUse
  | tends slot orch' hslot hinUse htends =>
      refine .going (i + 1) rfl ?_
      cases htends with
      | goesOn w hstep hlive =>
          obtain ⟨rfl, hearly⟩ := Conn.checkTimeout_live hstep hlive
          exact h.set hslot (fun _ _ hused => ⟨hused, rfl⟩) fun _ => hearly
      | finishes w hstep hover =>
          refine h.set hslot (fun hearly hlive _ => ?_) nofun
          have hcheck : Conn.checkTimeout { slot.world with caps := l.orch.caps } nowMs
              = .ok { slot.world with caps := l.orch.caps } := Conn.checkTimeout_early hearly
          obtain rfl := Except.ok.inj (hcheck.symm.trans hstep)
          exact absurd (hlive.symm.trans hover) (by decide)

theorem Sweeping.step (h : Sweeping start nowMs l) (hstep : (iteration E).Steps l turn l') :
    Sweeping start nowMs l' := by
  obtain ⟨⟨⟨hfits, -⟩, hbegins⟩, hok⟩ := hstep
  cases h with
  | going i hpc h =>
      cases turns_of_step hfits hok with
      | stops => exact .going i hpc h
      | returns | iterates => cases hbegins
      | fills _ _ _ _ hfill => rw [hpc] at hfill; cases hfill
      | polls _ _ _ hpoll => rw [hpc] at hpoll; cases hpoll
      | dispatches _ _ _ hdispatch => rw [hpc] at hdispatch; cases hdispatch
      | sweeps j laterMs hsweep hsweeps =>
          obtain ⟨rfl, rfl⟩ : i = j ∧ nowMs = laterMs := by
            rw [hpc] at hsweep
            cases hsweep
            exact ⟨rfl, rfl⟩
          exact h.sweeps hsweeps
  | ended hpc h =>
      cases turns_of_step hfits hok with
      | stops => exact .ended hpc h
      | returns | iterates => cases hbegins
      | fills _ _ _ _ hfill => rw [hpc] at hfill; cases hfill
      | polls _ _ _ hpoll => rw [hpc] at hpoll; cases hpoll
      | dispatches _ _ _ hdispatch => rw [hpc] at hdispatch; cases hdispatch
      | sweeps _ _ hsweep => rw [hpc] at hsweep; cases hsweep

/-- The sweep from its start, to wherever the iteration has come. -/
theorem sweeping_of_run {turns : List (Turn E)} (hpc : l.pc = .sweep 0 nowMs)
    (hrun : (iteration E).Run l turns l') : Sweeping l.orch.slots nowMs l' :=
  hrun.invariant (.going 0 hpc (.refl l.orch.slots nowMs)) fun _ _ _ h hstep => h.step hstep

/-- An iteration behind its second clock reading. -/
def Polled (nowMs : Nat) (l : Loop E) : Prop :=
  (∃ results, l.pc = .dispatch results nowMs) ∨ ∃ start, Sweeping start nowMs l

theorem Polled.step (h : Polled nowMs l) (hstep : (iteration E).Steps l turn l') :
    Polled nowMs l' := by
  rcases h with ⟨results, hpc⟩ | ⟨start, h⟩
  swap
  · exact .inr ⟨start, h.step hstep⟩
  obtain ⟨⟨⟨hfits, -⟩, hbegins⟩, hok⟩ := hstep
  cases turns_of_step hfits hok with
  | stops => exact .inl ⟨results, hpc⟩
  | returns | iterates => cases hbegins
  | fills _ _ _ _ hfill => rw [hpc] at hfill; cases hfill
  | polls _ _ _ hpoll => rw [hpc] at hpoll; cases hpoll
  | sweeps _ _ hsweep => rw [hpc] at hsweep; cases hsweep
  | dispatches env results' laterMs hdispatch hdispatches =>
      obtain ⟨rfl, rfl⟩ : results = results' ∧ nowMs = laterMs := by
        rw [hpc] at hdispatch
        cases hdispatch
        exact ⟨rfl, rfl⟩
      cases hdispatches with
      | done => exact .inr ⟨l.orch.slots, .going 0 rfl (.refl _ _)⟩
      | nowhere c rest => exact .inl ⟨rest, rfl⟩
      | tends c rest => exact .inl ⟨rest, rfl⟩

/-! ### The sweep comes to its end -/

/-- A timeout check neither aborts nor finds the reactor without sockets. -/
theorem stepSlot_timeout {orch : Orchestrator E} {slot : Slot E}
    (htended : Tended (fun _ _ => True) orch) (howned : Owned orch)
    (hslot : orch.slots[i]? = some slot) (hinUse : slot.inUse = true) (nowMs : Nat) :
    ∃ orch', orch.stepSlot i slot (.timeout nowMs) = .ok orch' := by
  obtain ⟨⟨hreachable, -⟩, -⟩ := htended.inUse slot (List.mem_of_getElem? hslot) hinUse
  have hlent : Conn.Reachable orch.config.ehloIdentity { slot.world with caps := orch.caps } :=
    @Conn.Reachable.step _ _ _ _ (.others orch.caps) hreachable.reachable ⟨trivial, rfl⟩
  obtain ⟨w, hcheck⟩ := hlent.checkTimeout_ok nowMs
  have hlive := live_of_inUse howned hslot hinUse
  unfold stepSlot
  rw [show Conn.step orch.config.ehloIdentity { slot.world with caps := orch.caps } (.timeout nowMs)
    = .ok w from hcheck]
  dsimp only
  split
  · rw [finishSlot, Reactor.forget, if_pos hlive]
    exact ⟨_, rfl⟩
  · exact ⟨_, rfl⟩

theorem sweep_steps (htended : Tended (fun _ _ => True) l.orch) (howned : Owned l.orch)
    (hpc : l.pc = .sweep i nowMs) :
    ∃ l', (iteration E).Steps l .sweep l'
      ∧ (l'.pc = .top ∨ i < l.orch.slots.length ∧ l'.pc = .sweep (i + 1) nowMs
        ∧ l'.orch.slots.length = l.orch.slots.length) := by
  have hadmissible : (iteration E).admissible l .sweep := ⟨⟨by rw [hpc]; rfl, trivial⟩, rfl⟩
  have hstep : l.step .sweep = l.sweepTurn i nowMs := by
    unfold step
    rw [hpc]
  cases hslot : l.orch.slots[i]? with
  | none =>
      refine ⟨{ l with pc := .top }, ⟨hadmissible, ?_⟩, .inl rfl⟩
      exact hstep.trans (by rw [sweepTurn, hslot])
  | some slot =>
      obtain ⟨hi, -⟩ := List.getElem?_eq_some_iff.mp hslot
      cases hinUse : slot.inUse with
      | false =>
          refine ⟨{ l with pc := .sweep (i + 1) nowMs }, ⟨hadmissible, ?_⟩, .inr ⟨hi, rfl, rfl⟩⟩
          exact hstep.trans (by simp [sweepTurn, hslot, hinUse])
      | true =>
          obtain ⟨orch', horch⟩ := stepSlot_timeout htended howned hslot hinUse nowMs
          have hlength : orch'.slots.length = l.orch.slots.length := by
            cases stepSlot_ok horch with
            | goesOn => exact List.length_set
            | finishes => exact List.length_set
          refine ⟨{ l with orch := orch', pc := .sweep (i + 1) nowMs }, ⟨hadmissible, ?_⟩,
            .inr ⟨hi, rfl, hlength⟩⟩
          refine hstep.trans ?_
          simp [sweepTurn, hslot, hinUse, horch, bind, Except.bind, pure, Except.pure]

theorem sweep_ends {orch : Orchestrator E} {totalTarget : UInt64} (hcreated : orch.Created)
    (h : Reachable orch totalTarget l) (hpc : l.pc = .sweep i nowMs) :
    ∃ turns l', (iteration E).Run l turns l' ∧ l'.pc = .top := by
  induction hleft : l.orch.slots.length - i generalizing l i with
  | zero =>
      obtain ⟨l', hstep, htop | ⟨hi, -⟩⟩ :=
        sweep_steps (h.kept hcreated).tended (h.ledger hcreated).owned hpc
      · exact ⟨_, l', .snoc .nil hstep, htop⟩
      · omega
  | succ n ih =>
      obtain ⟨l₁, hstep, htop | ⟨hi, hpc₁, hlength⟩⟩ :=
        sweep_steps (h.kept hcreated).tended (h.ledger hcreated).owned hpc
      · exact ⟨_, l₁, .snoc .nil hstep, htop⟩
      · obtain ⟨turns, run⟩ := h
        have hreachable : Reachable orch totalTarget l₁ :=
          ⟨_, run.snoc ⟨hstep.1.1, hstep.2⟩⟩
        obtain ⟨more, l', hmore, htop⟩ := ih hreachable hpc₁ (by omega)
        exact ⟨_, l', (Machine.Run.snoc .nil hstep).append hmore, htop⟩

theorem pollTimeout_of_fill {socketMade : Bool} {syscalls : ConnectSyscalls} {timeoutMs : Nat}
    (hpc : l.pc = .fill i nowMs) (hstep : (machine E).Steps l (.fill socketMade syscalls) l')
    (hpoll : l'.pc = .poll timeoutMs) : timeoutMs = l'.orch.nextPollTimeoutMs nowMs := by
  have hleave (l : Loop E) (h : (l.leaveFill nowMs).pc = .poll timeoutMs) :
      timeoutMs = (l.leaveFill nowMs).orch.nextPollTimeoutMs nowMs := by
    rw [leaveFill_orch]
    rcases leaveFill_pc l nowMs with hreturned | hpolls
    · rw [hreturned] at h
      cases h
    · rw [hpolls] at h
      cases h
      rfl
  obtain ⟨⟨hfits, -⟩, hok⟩ := hstep
  cases turns_of_step hfits hok with
  | fills _ _ j laterMs hfill hfills =>
      obtain ⟨rfl, rfl⟩ : i = j ∧ nowMs = laterMs := by
        rw [hpc] at hfill
        cases hfill
        exact ⟨rfl, rfl⟩
      cases hfills with
      | passes => cases hpoll
      | starts => cases hpoll
      | leaves => exact hleave _ hpoll
      | refused => exact hleave _ hpoll

/-- **Deadlines are kept.** A poll wakes up for the soonest deadline; behind the sweep no slot in
use is due at the clock reading taken behind the poll; the sweep ends no connection that is not; and
it comes to its end. -/
theorem deadlines_kept (E : TlsEngine) :
    (∀ (orch : Orchestrator E) nowMs, Wakes orch.slots nowMs (orch.nextPollTimeoutMs nowMs))
      ∧ (∀ (l l' : Loop E) socketMade syscalls i nowMs timeoutMs, l.pc = .fill i nowMs →
        (machine E).Steps l (.fill socketMade syscalls) l' → l'.pc = .poll timeoutMs →
        timeoutMs = l'.orch.nextPollTimeoutMs nowMs)
      ∧ (∀ (l l₁ l' : Loop E) results nowMs turns, (machine E).Steps l (.polled results nowMs) l₁ →
        (iteration E).Run l₁ turns l' → l'.pc = .top →
        ∀ slot ∈ l'.orch.slots, slot.inUse = true → nowMs < slot.world.conn.deadlineMs)
      ∧ (∀ (l l' : Loop E) nowMs turns, l.pc = .sweep 0 nowMs → (iteration E).Run l turns l' →
        ∀ (j : Nat) (slot : Slot E), l.orch.slots[j]? = some slot → slot.inUse = true →
          slot.world.conn.state.terminal = false → nowMs < slot.world.conn.deadlineMs →
          ∃ slot', l'.orch.slots[j]? = some slot' ∧ slot'.inUse = true
            ∧ slot'.world.conn = slot.world.conn)
      ∧ ∀ (orch : Orchestrator E) totalTarget (l : Loop E) i nowMs, orch.Created →
        Reachable orch totalTarget l → l.pc = .sweep i nowMs →
        ∃ turns l', (iteration E).Run l turns l' ∧ l'.pc = .top := by
  refine ⟨wakes_nextPollTimeoutMs, ?_, ?_, ?_, ?_⟩
  · exact fun l l' _ _ i nowMs timeoutMs hpc hstep hpoll => pollTimeout_of_fill hpc hstep hpoll
  · intro l l₁ l' results nowMs turns hpolled hrun htop slot hmem hinUse
    have hfirst : Polled nowMs l₁ := by
      obtain ⟨⟨hfits, -⟩, hok⟩ := hpolled
      cases turns_of_step hfits hok with
      | polls => exact .inl ⟨results, rfl⟩
    have hpolling := hrun.invariant hfirst fun _ _ _ h hstep => h.step hstep
    rcases hpolling with ⟨_, hpc⟩ | ⟨start, hsweeping⟩
    · rw [htop] at hpc
      cases hpc
    obtain ⟨j, hj⟩ := List.getElem?_of_mem hmem
    obtain ⟨hlt, -⟩ := List.getElem?_eq_some_iff.mp hj
    cases hsweeping with
    | going i hpc =>
        rw [htop] at hpc
        cases hpc
    | ended _ h => exact h.due j hlt slot hj hinUse
  · intro l l' nowMs turns hpc hrun
    cases sweeping_of_run hpc hrun with
    | going _ _ h => exact h.kept
    | ended _ h => exact h.kept
  · exact fun orch totalTarget l i nowMs hcreated h hpc => sweep_ends hcreated h hpc

def isTop (l : Loop E) : Bool :=
  match l.pc with
  | .top => true
  | _ => false

theorem pc_of_isTop (h : l.isTop = true) : l.pc = .top := by
  rw [isTop] at h
  cases hpc : l.pc <;> simp [hpc] at h ⊢

/-- A connect that is never answered, behind a poll that returns five seconds later. -/
theorem deadlines_kept_timed_out :
    ∃ l₀ l₁ l', playLoop (machine _) .none fillTurns = some l₀
      ∧ (machine _).Steps l₀ (.polled [] 5000) l₁
      ∧ (iteration _).Run l₁ [.handle (Conn.accepts _), .sweep, .sweep] l'
      ∧ l'.pc = .top ∧ l'.orch.stats = ⟨1, 1, 0, 1⟩
      ∧ ∀ slot ∈ l'.orch.slots, slot.inUse = true → 5000 < slot.world.conn.deadlineMs := by
  have hplay : ((playLoop (machine _) .none fillTurns).bind fun l₀ =>
      ((machine _).exec l₀ [.polled [] 5000]).bind fun l₁ =>
        ((iteration _).exec l₁ [.handle (Conn.accepts _), .sweep, .sweep]).map fun l' =>
          (l'.isTop, l'.orch.stats)) = some (true, ⟨1, 1, 0, 1⟩) := by
    decide +kernel
  obtain ⟨l₀, hl₀, h⟩ := Option.bind_eq_some_iff.mp hplay
  obtain ⟨l₁, hl₁, h⟩ := Option.bind_eq_some_iff.mp h
  obtain ⟨l', hl', heq⟩ := Option.map_eq_some_iff.mp h
  obtain ⟨hpc, hstats⟩ := Prod.mk.inj heq
  have htop : l'.pc = .top := pc_of_isTop hpc
  have hpolled := Machine.steps_of_exec hl₁
  have hrun := Machine.run_of_exec hl'
  exact ⟨l₀, l₁, l', hl₀, hpolled, hrun, htop, hstats,
    (deadlines_kept _).2.2.1 l₀ l₁ l' [] 5000 _ hpolled hrun htop⟩

end Loop

end SmtpClient
