import SmtpClient.Base.Potential
import SmtpClient.Clocked
import SmtpClient.Proof.PollTimeouts

/-!
# A bounded run comes to its end

An attempt is worth the milliseconds it can still last: those up to its deadline, and a whole
timeout for each renewal of the deadline that its session has left. A clock reading takes from every
slot in use, an attempt that is started has been paid for by the target, and everything else a turn
does is free. So the turns of a run with a target are bounded before it starts.
-/

namespace SmtpClient

variable {E : TlsEngine}

open Protocol

/-! ### What an attempt is worth -/

/-- Behind the second clock reading of an iteration. -/
def Pc.polled : Pc → Bool
  | .dispatch _ _ | .sweep _ _ => true
  | _ => false

/-- The milliseconds to a deadline, and two more. What is due is worth one up to the poll, and
nothing behind it: the sweep will end it. -/
def untilDeadline (polled : Bool) (clockMs deadlineMs : Nat) : Nat :=
  if clockMs < deadlineMs then deadlineMs + 2 - clockMs else if polled then 0 else 1

def Slot.worth (longestMs : Nat) (polled : Bool) (clockMs : Nat) (slot : Slot E) : Nat :=
  if slot.inUse then
    (5 - renewals (Conn.phase slot.world.conn)) * (longestMs + 3)
      + untilDeadline polled clockMs slot.world.conn.deadlineMs
  else 0

/-- What an attempt that has not been started is worth. -/
def attemptWorth (longestMs : Nat) : Nat := 6 * (longestMs + 3) + 1

section Worth

variable {clockMs nowMs deadlineMs longestMs : Nat} {slot : Slot E} {polled : Bool}

theorem untilDeadline_of_lt (h : clockMs < deadlineMs) :
    untilDeadline polled clockMs deadlineMs = deadlineMs + 2 - clockMs := if_pos h

theorem untilDeadline_of_le (h : deadlineMs ≤ clockMs) :
    untilDeadline polled clockMs deadlineMs = if polled then 0 else 1 :=
  if_neg (Nat.not_lt.mpr h)

theorem untilDeadline_false_pos : 0 < untilDeadline false clockMs deadlineMs := by
  rcases Nat.lt_or_ge clockMs deadlineMs with hlt | hle
  · rw [untilDeadline_of_lt hlt]
    omega
  · rw [untilDeadline_of_le hle]
    decide

theorem untilDeadline_early (h : clockMs < nowMs) (hearly : clockMs < deadlineMs) :
    untilDeadline polled nowMs deadlineMs < untilDeadline false clockMs deadlineMs := by
  rw [untilDeadline_of_lt hearly]
  rcases Nat.lt_or_ge nowMs deadlineMs with hlt | hle
  · rw [untilDeadline_of_lt hlt]
    omega
  · rw [untilDeadline_of_le hle]
    split <;> omega

theorem untilDeadline_advance (h : clockMs < nowMs) :
    untilDeadline true nowMs deadlineMs < untilDeadline false clockMs deadlineMs := by
  rcases Nat.lt_or_ge clockMs deadlineMs with hlt | hle
  · exact untilDeadline_early h hlt
  · rw [untilDeadline_of_le (Nat.le_trans hle (Nat.le_of_lt h))]
    exact untilDeadline_false_pos

theorem untilDeadline_later (h : clockMs ≤ nowMs) :
    untilDeadline polled nowMs deadlineMs ≤ untilDeadline false clockMs deadlineMs := by
  rcases Nat.lt_or_ge nowMs deadlineMs with hlt | hle
  · rw [untilDeadline_of_lt hlt, untilDeadline_of_lt (Nat.lt_of_le_of_lt h hlt)]
    omega
  · rw [untilDeadline_of_le hle]
    have hpos : 0 < untilDeadline false clockMs deadlineMs := untilDeadline_false_pos
    split <;> omega

theorem Slot.worth_vacant (h : slot.inUse = false) : slot.worth longestMs polled clockMs = 0 := by
  rw [Slot.worth, h]
  rfl

theorem Slot.worth_later (h : clockMs ≤ nowMs) :
    slot.worth longestMs polled nowMs ≤ slot.worth longestMs false clockMs := by
  unfold Slot.worth
  split
  · exact Nat.add_le_add_left (untilDeadline_later h) _
  · exact Nat.le_refl _

theorem Slot.worth_advance (h : clockMs < nowMs) (hinUse : slot.inUse = true) :
    slot.worth longestMs true nowMs < slot.worth longestMs false clockMs := by
  rw [Slot.worth, Slot.worth, if_pos hinUse, if_pos hinUse]
  exact Nat.add_lt_add_left (untilDeadline_advance h) _

theorem Slot.worth_early (h : clockMs < nowMs) (hinUse : slot.inUse = true)
    (hearly : clockMs < slot.world.conn.deadlineMs) :
    slot.worth longestMs false nowMs < slot.worth longestMs false clockMs := by
  rw [Slot.worth, Slot.worth, if_pos hinUse, if_pos hinUse]
  exact Nat.add_lt_add_left (untilDeadline_early h hearly) _

/-- Of what is not due, the end of an iteration and the start of the next think alike. -/
theorem Slot.worth_undue
    (h : slot.inUse = true → clockMs < slot.world.conn.deadlineMs) :
    slot.worth longestMs false clockMs = slot.worth longestMs true clockMs := by
  unfold Slot.worth
  split
  · rename_i hinUse
    rw [untilDeadline_of_lt (h hinUse), untilDeadline_of_lt (h hinUse)]
  · rfl

theorem Slot.worth_pos (hinUse : slot.inUse = true) : 0 < slot.worth longestMs false clockMs := by
  rw [Slot.worth, if_pos hinUse]
  exact Nat.add_pos_right _ untilDeadline_false_pos

/-- A slot that is given up, or whose connection keeps its deadline or trades a renewal for a new
one, is worth no more than before. -/
theorem Slot.worth_le {slot' : Slot E} (hinUse : slot.inUse = true)
    (hmono : renewals (Conn.phase slot.world.conn) ≤ renewals (Conn.phase slot'.world.conn))
    (hdeadline : slot'.world.conn.deadlineMs = slot.world.conn.deadlineMs
      ∨ slot'.world.conn.deadlineMs ≤ clockMs + longestMs
        ∧ renewals (Conn.phase slot.world.conn) < renewals (Conn.phase slot'.world.conn)) :
    slot'.worth longestMs true clockMs ≤ slot.worth longestMs true clockMs := by
  rw [Slot.worth, Slot.worth, if_pos hinUse]
  split
  · rcases hdeadline with hsame | ⟨hlimit, hmore⟩
    · rw [hsame]
      apply Nat.add_le_add_right
      exact Nat.mul_le_mul_right _ (Nat.sub_le_sub_left hmono 5)
    · have hlast := renewals_le (Conn.phase slot'.world.conn)
      have htrade : (5 - renewals (Conn.phase slot'.world.conn) + 1) * (longestMs + 3)
          ≤ (5 - renewals (Conn.phase slot.world.conn)) * (longestMs + 3) :=
        Nat.mul_le_mul_right _ (by omega)
      have hnew : untilDeadline true clockMs slot'.world.conn.deadlineMs ≤ longestMs + 2 := by
        rcases Nat.lt_or_ge clockMs slot'.world.conn.deadlineMs with hlt | hle
        · rw [untilDeadline_of_lt hlt]
          omega
        · rw [untilDeadline_of_le hle]
          exact Nat.zero_le _
      rw [Nat.succ_mul] at htrade
      omega
  · exact Nat.zero_le _

end Worth

namespace Clocked

/-! ### What a loop is worth -/

/-- The worth of the attempts under way, and of those still to be made. Where a failed start leaves
no slot in use, one is kept back for the poll. -/
def work (longestMs : Nat) (c : Clocked E) : Nat :=
  (c.loop.totalTarget.toNat - c.loop.orch.attempts) * attemptWorth longestMs
    + (c.loop.orch.slots.map (Slot.worth longestMs c.loop.pc.polled c.clockMs)).sum
    + match c.loop.pc with
      | .poll _ => if c.loop.orch.slots.any Slot.inUse then 0 else 1
      | _ => 0

/-- How often the clock may still stand still before the next millisecond is taken. With no slot in
use no time is taken. -/
def stall (patience : Nat) (c : Clocked E) : Nat :=
  if c.loop.orch.slots.any Slot.inUse then c.stalled else patience

/-- The turns up to the next poll, or to the end. -/
def turnsLeft (slots : Nat) : Pc → Nat
  | .returned => 0
  | .poll _ => 1
  | .fill i _ => slots - i + 2
  | .top => slots + 3
  | .sweep i _ => slots - i + slots + 4
  | .dispatch results _ => results.length + 2 * slots + 5

/-- More than the turns of any iteration. -/
def iterationTurns (slots : Nat) : Nat := 2 * slots + 70

def potential (longestMs patience slots : Nat) (c : Clocked E) : Nat :=
  iterationTurns slots * ((patience + 1) * c.work longestMs - c.stall patience)
    + turnsLeft slots c.loop.pc

/-! ### What every turn keeps -/

/-- What the place in an iteration says of the slots. -/
def Placed (c : Clocked E) : Prop :=
  match c.loop.pc with
  | .top => ∀ slot ∈ c.loop.orch.slots, slot.inUse = true → c.clockMs < slot.world.conn.deadlineMs
  | .fill i nowMs => nowMs = c.clockMs
      ∧ ∀ j < i, ∀ slot ∈ c.loop.orch.slots[j]?, slot.inUse = true
  | .dispatch results nowMs => nowMs = c.clockMs ∧ results.length ≤ pollBatch
  | .sweep i nowMs => nowMs = c.clockMs ∧ ∃ start, Loop.Swept start nowMs i c.loop.orch.slots
  | _ => True

structure Timed (config : Config E) (patience slots : Nat) (c : Clocked E) : Prop where
  kept : Loop.Kept (fun _ _ => True) c.loop
  ledger : Loop.Ledger c.loop
  placed : Placed c
  patient : c.stalled ≤ patience
  config_eq : c.loop.orch.config = config
  slots_eq : c.loop.orch.slots.length = slots
  room : 0 < slots
  bounded : c.loop.totalTarget ≠ 0

/-! ### What pays for a turn -/

section Payment

variable {n x x' t t' patience w w' s s' : Nat}

theorem pays_of_turn (hx : x' ≤ x) (ht : t' < t) : n * x' + t' + 1 ≤ n * x + t := by
  have hmul := Nat.mul_le_mul_left n hx
  omega

theorem pays_of_drop (hx : x' < x) (ht : t' < n) : n * x' + t' + 1 ≤ n * x + t := by
  have hmul := Nat.mul_le_mul_left n (Nat.succ_le_of_lt hx)
  rw [Nat.mul_succ] at hmul
  omega

theorem drop_of_work (hw : w' < w) (hs : s ≤ patience) :
    (patience + 1) * w' - s' < (patience + 1) * w - s := by
  have hmul := Nat.mul_le_mul_left (patience + 1) (Nat.succ_le_of_lt hw)
  rw [Nat.mul_succ] at hmul
  omega

theorem drop_of_stall (hw : w' ≤ w) (hpos : 0 < w) (hs : s < patience) :
    (patience + 1) * w' - (s + 1) < (patience + 1) * w - s := by
  have hmul := Nat.mul_le_mul_left (patience + 1) hw
  have hone := Nat.mul_le_mul_left (patience + 1) (Nat.succ_le_of_lt hpos)
  rw [Nat.mul_one] at hone
  omega

theorem keeps_of_work (hw : w' ≤ w) (hs : s ≤ s') :
    (patience + 1) * w' - s' ≤ (patience + 1) * w - s := by
  have hmul := Nat.mul_le_mul_left (patience + 1) hw
  omega

end Payment

variable {config : Config E} {patience slots : Nat} {c c' : Clocked E}

theorem Timed.stall_le (h : Timed config patience slots c) : c.stall patience ≤ patience := by
  unfold stall
  split
  · exact h.patient
  · exact Nat.le_refl _

theorem Placed.turnsLeft_lt (h : Placed c) : turnsLeft slots c.loop.pc < iterationTurns slots := by
  unfold Placed at h
  unfold iterationTurns
  cases hpc : c.loop.pc with
  | dispatch results nowMs =>
      rw [hpc] at h
      have hlength := h.2
      unfold pollBatch at hlength
      simp only [turnsLeft]
      omega
  | top | fill _ _ | poll _ | sweep _ _ | returned =>
      simp only [turnsLeft]
      omega

/-- A turn that only takes the loop further. -/
theorem pays_of_place {longestMs : Nat} (hwork : c'.work longestMs ≤ c.work longestMs)
    (hstall : c.stall patience ≤ c'.stall patience)
    (hturns : turnsLeft slots c'.loop.pc < turnsLeft slots c.loop.pc) :
    c'.potential longestMs patience slots + 1 ≤ c.potential longestMs patience slots :=
  pays_of_turn (keeps_of_work hwork hstall) hturns

/-- A turn that takes of the work. -/
theorem Timed.pays_of_work (h : Timed config patience slots c) (hplaced : Placed c')
    (hwork : c'.work config.longestTimeoutMs < c.work config.longestTimeoutMs) :
    c'.potential config.longestTimeoutMs patience slots + 1
      ≤ c.potential config.longestTimeoutMs patience slots :=
  pays_of_drop (drop_of_work hwork h.stall_le) hplaced.turnsLeft_lt

/-! ### A call on a connection -/

section Calls

variable {identity : Bytes} {w w' : World E} {event : Event E} {nowMs longestMs : Nat}

theorem renewals_le_of_steps (h : Conn.Reachable identity w)
    (hstep : (Conn.machine E identity).Steps w event w') :
    renewals (Conn.phase w.conn) ≤ renewals (Conn.phase w'.conn) := by
  obtain ⟨acts, -, hsession⟩ := (Conn.took_of_steps hstep).step (Conn.sound_of_reachable h)
  exact hsession.renewals_le

/-- A completion keeps the deadline or trades a renewal for a new one; a timeout check keeps it. -/
theorem deadline_of_steps (h : Conn.Reachable identity w)
    (hstep : (Conn.machine E identity).Steps w event w') (hlong : Conn.stepTimeoutMs ≤ longestMs)
    (hevent : (∃ env op result data, event = .completion env op result data nowMs)
      ∨ event = .timeout nowMs) :
    w'.conn.deadlineMs = w.conn.deadlineMs
      ∨ w'.conn.deadlineMs ≤ nowMs + longestMs
        ∧ renewals (Conn.phase w.conn) < renewals (Conn.phase w'.conn) := by
  rcases hevent with ⟨env, op, result, data, rfl⟩ | rfl
  · cases h.deadline hstep with
    | keeps hdeadline => exact .inl hdeadline
    | renews hdeadline hrenewals =>
        refine .inr ⟨?_, hrenewals⟩
        rw [hdeadline]
        exact Nat.le_trans (Conn.addMs_le _ _) (Nat.add_le_add_left hlong _)
  · cases Conn.took_of_steps hstep <;> exact .inl rfl

/-- A call on the connection in a slot, at the last clock reading. -/
theorem worth_tends {orch orch' : Orchestrator E} {i : Nat} {slot : Slot E}
    (htends : Orchestrator.Tends orch i slot event orch') (hinUse : slot.inUse = true)
    (h : Conn.Reachable orch.config.ehloIdentity { slot.world with caps := orch.caps })
    (hadmissible : Conn.admissible { slot.world with caps := orch.caps } event)
    (hlong : Conn.stepTimeoutMs ≤ longestMs)
    (hevent : (∃ env op result data, event = .completion env op result data nowMs)
      ∨ event = .timeout nowMs) :
    ∃ slot', orch'.slots = orch.slots.set i slot'
      ∧ slot'.worth longestMs true nowMs ≤ slot.worth longestMs true nowMs := by
  cases htends with
  | goesOn w hstep =>
      have hsteps : (Conn.machine E orch.config.ehloIdentity).Steps
          { slot.world with caps := orch.caps } event w := ⟨hadmissible, hstep⟩
      have hrenewals := renewals_le_of_steps h hsteps
      have hdeadline := deadline_of_steps h hsteps hlong hevent
      exact ⟨{ slot with world := w }, rfl, Slot.worth_le hinUse hrenewals hdeadline⟩
  | finishes w =>
      refine ⟨_, rfl, ?_⟩
      rw [Slot.worth_vacant rfl]
      exact Nat.zero_le _

end Calls

/-! ### The work behind a turn -/

section Work

variable {longestMs : Nat} {l : Loop E} {clockMs stalled : Nat}

theorem work_of_unpolled (hpolled : l.pc.polled = false)
    (hpoll : ∀ timeoutMs, l.pc ≠ .poll timeoutMs) :
    work longestMs ⟨l, clockMs, stalled⟩
      = (l.totalTarget.toNat - l.orch.attempts) * attemptWorth longestMs
        + (l.orch.slots.map (Slot.worth longestMs false clockMs)).sum := by
  unfold work
  cases hpc : l.pc with
  | poll timeoutMs => exact absurd hpc (hpoll timeoutMs)
  | top | fill | returned => rfl
  | dispatch | sweep =>
      rw [hpc] at hpolled
      cases hpolled

theorem work_of_polled (hpolled : l.pc.polled = true) :
    work longestMs ⟨l, clockMs, stalled⟩
      = (l.totalTarget.toNat - l.orch.attempts) * attemptWorth longestMs
        + (l.orch.slots.map (Slot.worth longestMs true clockMs)).sum := by
  unfold work
  cases hpc : l.pc with
  | dispatch | sweep => rfl
  | top | fill | poll | returned =>
      rw [hpc] at hpolled
      cases hpolled

theorem work_of_poll {timeoutMs : Nat} (hpc : l.pc = .poll timeoutMs) :
    work longestMs ⟨l, clockMs, stalled⟩
      = (l.totalTarget.toNat - l.orch.attempts) * attemptWorth longestMs
        + (l.orch.slots.map (Slot.worth longestMs false clockMs)).sum
        + if l.orch.slots.any Slot.inUse then 0 else 1 := by
  unfold work
  rw [hpc]
  rfl

/-- Behind the filling loop. -/
theorem work_leaveFill_le (nowMs : Nat) :
    work longestMs ⟨l.leaveFill nowMs, clockMs, stalled⟩
      ≤ (l.totalTarget.toNat - l.orch.attempts) * attemptWorth longestMs
        + (l.orch.slots.map (Slot.worth longestMs false clockMs)).sum
        + if l.orch.slots.any Slot.inUse then 0 else 1 := by
  rcases l.leaveFill_pc nowMs with hpc | hpc
  · rw [work_of_unpolled (by rw [hpc]; rfl) (by simp [hpc])]
    simp
  · rw [work_of_poll hpc]
    simp

/-- A target that is met is left with a slot in use, or not at all. -/
theorem inUse_of_leaveFill {nowMs timeoutMs : Nat} (hpc : (l.leaveFill nowMs).pc = .poll timeoutMs)
    (htarget : l.targetStarted = true) : l.orch.slots.any Slot.inUse = true := by
  by_contra hnone
  unfold Loop.leaveFill at hpc
  split at hpc
  · cases hpc
  · rw [if_pos ⟨by simpa using hnone, htarget⟩] at hpc
    cases hpc

theorem any_inUse_iff {slots : List (Slot E)} :
    slots.any Slot.inUse = true ↔ ∃ slot ∈ slots, slot.inUse = true := List.any_eq_true

theorem worth_sum_eq_zero {slots : List (Slot E)} {polled : Bool}
    (h : slots.any Slot.inUse = false) :
    (slots.map (Slot.worth longestMs polled clockMs)).sum = 0 := by
  rw [List.sum_eq_zero_iff]
  intro n hn
  obtain ⟨slot, hslot, rfl⟩ := List.mem_map.1 hn
  exact Slot.worth_vacant (by simpa using List.any_eq_false.1 h slot hslot)

theorem worth_sum_later {slots : List (Slot E)} {polled : Bool} {nowMs : Nat}
    (h : clockMs ≤ nowMs) :
    (slots.map (Slot.worth longestMs polled nowMs)).sum
      ≤ (slots.map (Slot.worth longestMs false clockMs)).sum :=
  List.sum_le_sum fun _ _ => Slot.worth_later h

theorem worth_sum_pos {slots : List (Slot E)} (h : slots.any Slot.inUse = true) :
    0 < (slots.map (Slot.worth longestMs false clockMs)).sum := by
  obtain ⟨slot, hslot, hinUse⟩ := any_inUse_iff.1 h
  have hpos : 0 < slot.worth longestMs false clockMs := Slot.worth_pos hinUse
  exact Nat.lt_of_lt_of_le hpos (List.single_le_sum (by simp) _ (List.mem_map_of_mem hslot))

/-- Between the two clock readings every slot in use loses something. -/
theorem worth_sum_advance {slots : List (Slot E)} {nowMs : Nat} (h : clockMs < nowMs)
    (hinUse : slots.any Slot.inUse = true) :
    (slots.map (Slot.worth longestMs true nowMs)).sum
      < (slots.map (Slot.worth longestMs false clockMs)).sum := by
  obtain ⟨slot, hslot, hused⟩ := any_inUse_iff.1 hinUse
  apply List.sum_lt_sum
  · exact fun _ _ => Slot.worth_later (Nat.le_of_lt h)
  · exact ⟨slot, hslot, Slot.worth_advance h hused⟩

/-- Where nothing is due, so it does between two iterations. -/
theorem worth_sum_early {slots : List (Slot E)} {nowMs : Nat} (h : clockMs < nowMs)
    (hinUse : slots.any Slot.inUse = true)
    (hearly : ∀ slot ∈ slots, slot.inUse = true → clockMs < slot.world.conn.deadlineMs) :
    (slots.map (Slot.worth longestMs false nowMs)).sum
      < (slots.map (Slot.worth longestMs false clockMs)).sum := by
  obtain ⟨slot, hslot, hused⟩ := any_inUse_iff.1 hinUse
  apply List.sum_lt_sum
  · exact fun _ _ => Slot.worth_later (Nat.le_of_lt h)
  · exact ⟨slot, hslot, Slot.worth_early h hused (hearly slot hslot hused)⟩

/-- A slot replaced by one that is worth no more. -/
theorem worth_sum_set {slots : List (Slot E)} {i : Nat} {slot slot' : Slot E} {polled : Bool}
    (hslot : slots[i]? = some slot)
    (hworth : slot'.worth longestMs polled clockMs ≤ slot.worth longestMs polled clockMs) :
    ((slots.set i slot').map (Slot.worth longestMs polled clockMs)).sum
      ≤ (slots.map (Slot.worth longestMs polled clockMs)).sum := by
  have hsum := sum_map_set slot' (Slot.worth longestMs polled clockMs) hslot
  omega

end Work

/-! ### One turn -/

theorem longest_ge (config : Config E) : Conn.stepTimeoutMs ≤ config.longestTimeoutMs := by
  unfold Config.longestTimeoutMs
  exact le_max_of_le_right (Nat.le_max_left _ _)

/-- The connection in a slot, as it is called. -/
theorem lent {l : Loop E} (hkept : Loop.Kept (fun _ _ => True) l) {slot : Slot E}
    (hslot : slot ∈ l.orch.slots) (hinUse : slot.inUse = true) :
    Conn.Reachable l.orch.config.ehloIdentity { slot.world with caps := l.orch.caps } := by
  obtain ⟨⟨hreach, -⟩, -⟩ := hkept.tended.inUse slot hslot hinUse
  exact @Conn.Reachable.step _ _ _ _ (.others l.orch.caps) hreach.reachable ⟨trivial, rfl⟩

theorem stall_le_stall (hstalled : c'.stalled = c.stalled) (hpatient : c.stalled ≤ patience)
    (hany : c'.loop.orch.slots.any Slot.inUse = true → c.loop.orch.slots.any Slot.inUse = true) :
    c.stall patience ≤ c'.stall patience := by
  unfold stall
  rw [hstalled]
  by_cases hused : c'.loop.orch.slots.any Slot.inUse = true
  · rw [if_pos hused, if_pos (hany hused)]
  · rw [if_neg hused]
    split
    · exact hpatient
    · exact Nat.le_refl _

/-- A slot that was in use, replaced. -/
theorem any_inUse_of_set {slots : List (Slot E)} {i : Nat} {slot slot' : Slot E}
    (hslot : slots[i]? = some slot) (hinUse : slot.inUse = true)
    (_ : (slots.set i slot').any Slot.inUse = true) : slots.any Slot.inUse = true :=
  any_inUse_iff.2 ⟨slot, List.mem_of_getElem? hslot, hinUse⟩

/-- A call on a connection takes nothing but turns, and may give work back. -/
theorem pays_of_tends {orch' : Orchestrator E} {i : Nat} {slot : Slot E} {event : Event E} {pc : Pc}
    (h : Timed config patience slots c) (hslot : c.loop.orch.slots[i]? = some slot)
    (hinUse : slot.inUse = true)
    (hadmissible : Conn.admissible { slot.world with caps := c.loop.orch.caps } event)
    (hevent : (∃ env op result data, event = .completion env op result data c.clockMs)
      ∨ event = .timeout c.clockMs)
    (htends : Orchestrator.Tends c.loop.orch i slot event orch')
    (hpolled : c.loop.pc.polled = true) (hpolled' : pc.polled = true)
    (hturns : turnsLeft slots pc < turnsLeft slots c.loop.pc) :
    potential config.longestTimeoutMs patience slots
        { c with loop := { c.loop with orch := orch', pc := pc } } + 1
      ≤ c.potential config.longestTimeoutMs patience slots := by
  have hreach := lent h.kept (List.mem_of_getElem? hslot) hinUse
  obtain ⟨slot', hslots, hworth⟩ :=
    worth_tends htends hinUse hreach hadmissible (longest_ge config) hevent
  apply pays_of_place
  · rw [work_of_polled hpolled', work_of_polled hpolled, Orchestrator.attempts_tends htends]
    dsimp only
    rw [hslots]
    exact Nat.add_le_add_left (worth_sum_set hslot hworth) _
  · have hany : orch'.slots.any Slot.inUse = true → c.loop.orch.slots.any Slot.inUse = true := by
      rw [hslots]
      exact any_inUse_of_set hslot hinUse
    exact stall_le_stall rfl h.patient hany
  · exact hturns

/-- A turn at the same clock reading, on the same slots. -/
theorem pays_of_move {pc : Pc} (h : Timed config patience slots c)
    (hpolled : pc.polled = c.loop.pc.polled) (hpoll : ∀ timeoutMs, c.loop.pc ≠ .poll timeoutMs)
    (hpoll' : ∀ timeoutMs, pc ≠ .poll timeoutMs)
    (hturns : turnsLeft slots pc < turnsLeft slots c.loop.pc) :
    potential config.longestTimeoutMs patience slots { c with loop := { c.loop with pc := pc } } + 1
      ≤ c.potential config.longestTimeoutMs patience slots := by
  apply pays_of_place
  · cases hbehind : c.loop.pc.polled with
    | true =>
        rw [work_of_polled (hpolled.trans hbehind), work_of_polled hbehind]
    | false =>
        rw [work_of_unpolled (hpolled.trans hbehind) hpoll', work_of_unpolled hbehind hpoll]
  · exact stall_le_stall rfl h.patient id
  · exact hturns

/-- A turn at a new clock reading in front of the poll. -/
theorem pays_of_iterate {pc : Pc} {nowMs : Nat} (h : Timed config patience slots c)
    (htop : c.loop.pc = .top) (hclock : c.clockMs ≤ nowMs) (hpolled : pc.polled = false)
    (hpoll : ∀ timeoutMs, pc ≠ .poll timeoutMs) (hturns : turnsLeft slots pc < turnsLeft slots .top)
    (hplaced : Placed
      ⟨{ c.loop with pc := pc }, nowMs, if c.clockMs < nowMs then 0 else c.stalled⟩) :
    potential config.longestTimeoutMs patience slots
        ⟨{ c.loop with pc := pc }, nowMs, if c.clockMs < nowMs then 0 else c.stalled⟩ + 1
      ≤ c.potential config.longestTimeoutMs patience slots := by
  have hbefore : c.work config.longestTimeoutMs
      = (c.loop.totalTarget.toNat - c.loop.orch.attempts) * attemptWorth config.longestTimeoutMs
        + (c.loop.orch.slots.map (Slot.worth config.longestTimeoutMs false c.clockMs)).sum :=
    work_of_unpolled (by rw [htop]; rfl) (by simp [htop])
  by_cases hmoved : c.clockMs < nowMs ∧ c.loop.orch.slots.any Slot.inUse = true
  · obtain ⟨hlt, hinUse⟩ := hmoved
    apply h.pays_of_work hplaced
    rw [hbefore, work_of_unpolled hpolled hpoll]
    have hearly := h.placed
    unfold Placed at hearly
    rw [htop] at hearly
    exact Nat.add_lt_add_left (worth_sum_early hlt hinUse hearly) _
  · apply pays_of_place
    · rw [hbefore, work_of_unpolled hpolled hpoll]
      exact Nat.add_le_add_left (worth_sum_later hclock) _
    · -- with a slot in use the clock has not moved, and without one nothing is counted
      unfold stall
      dsimp only
      split
      · rename_i hinUse
        rw [if_neg fun hlt => hmoved ⟨hlt, hinUse⟩]
      · exact Nat.le_refl _
    · rw [htop]
      exact hturns

/-- The poll. -/
theorem pays_of_poll {results : List Completion} {nowMs timeoutMs : Nat}
    (h : Timed config patience slots c) (hpoll : c.loop.pc = .poll timeoutMs)
    (hclock : c.clockMs ≤ nowMs) (hpatience : c.clockMs < nowMs ∨ c.stalled < patience)
    (hplaced : Placed ⟨{ c.loop with pc := .dispatch results nowMs }, nowMs,
      if c.clockMs < nowMs then 0 else c.stalled + 1⟩) :
    potential config.longestTimeoutMs patience slots
        ⟨{ c.loop with pc := .dispatch results nowMs }, nowMs,
          if c.clockMs < nowMs then 0 else c.stalled + 1⟩ + 1
      ≤ c.potential config.longestTimeoutMs patience slots := by
  have hbefore : c.work config.longestTimeoutMs
      = (c.loop.totalTarget.toNat - c.loop.orch.attempts) * attemptWorth config.longestTimeoutMs
        + (c.loop.orch.slots.map (Slot.worth config.longestTimeoutMs false c.clockMs)).sum
        + if c.loop.orch.slots.any Slot.inUse then 0 else 1 := work_of_poll hpoll
  have hafter (stalled : Nat) : work config.longestTimeoutMs
        ⟨{ c.loop with pc := .dispatch results nowMs }, nowMs, stalled⟩
      = (c.loop.totalTarget.toNat - c.loop.orch.attempts) * attemptWorth config.longestTimeoutMs
        + (c.loop.orch.slots.map (Slot.worth config.longestTimeoutMs true nowMs)).sum :=
    work_of_polled rfl
  cases hinUse : c.loop.orch.slots.any Slot.inUse with
  | false =>
      -- the poll takes what was kept back for it
      apply h.pays_of_work hplaced
      rw [hafter, hbefore, hinUse]
      rw [worth_sum_eq_zero hinUse, worth_sum_eq_zero hinUse]
      exact Nat.lt_succ_self _
  | true =>
      by_cases hlt : c.clockMs < nowMs
      · apply h.pays_of_work hplaced
        rw [hafter, hbefore, hinUse]
        exact Nat.add_lt_add_left (worth_sum_advance hlt hinUse) _
      · refine pays_of_drop ?_ hplaced.turnsLeft_lt
        have hstall : c.stall patience = c.stalled := by rw [stall, if_pos hinUse]
        have hstall' : stall patience ⟨{ c.loop with pc := .dispatch results nowMs }, nowMs,
            if c.clockMs < nowMs then 0 else c.stalled + 1⟩ = c.stalled + 1 := by
          rw [stall, if_pos hinUse]
          exact if_neg hlt
        rw [hstall, hstall']
        apply drop_of_stall
        · rw [hafter, hbefore, hinUse]
          exact Nat.add_le_add_left (worth_sum_later hclock) _
        · rw [hbefore]
          have hpos : 0 < (c.loop.orch.slots.map
              (Slot.worth config.longestTimeoutMs false c.clockMs)).sum := worth_sum_pos hinUse
          omega
        · exact hpatience.resolve_left hlt

/-! ### Starting an attempt -/

section Starts

variable {orch orch' : Orchestrator E} {i nowMs : Nat} {slot : Slot E} {socketMade inFlight : Bool}
  {syscalls : ConnectSyscalls}

theorem startSlot_accepted
    (h : orch.startSlot i slot nowMs socketMade syscalls = .ok (orch', true)) :
    ∃ slot', orch'.slots = orch.slots.set i slot' ∧ slot'.inUse = true
      ∧ slot'.world.conn.deadlineMs ≤ nowMs + orch.config.longestTimeoutMs := by
  unfold Orchestrator.startSlot at h
  cases socketMade with
  | false => cases h
  | true =>
      simp only [Bool.not_true, Bool.false_eq_true, if_false] at h
      split at h
      · cases h
      rename_i w rc hstart
      obtain ⟨-, -, hw⟩ := Conn.start_fresh_ok hstart
      split at h
      · cases h
      · cases h
        refine ⟨⟨w, true, _⟩, rfl, rfl, ?_⟩
        rw [hw]
        apply Nat.le_trans (Conn.addMs_le _ _)
        exact Nat.add_le_add_left (Nat.le_max_left _ _) _

theorem startSlot_refused (hvacant : slot.inUse = false) (hslot : orch.slots[i]? = some slot)
    (h : orch.startSlot i slot nowMs socketMade syscalls = .ok (orch', false))
    (longestMs clockMs : Nat) :
    (orch'.slots.map (Slot.worth longestMs false clockMs)).sum
      = (orch.slots.map (Slot.worth longestMs false clockMs)).sum := by
  unfold Orchestrator.startSlot at h
  cases socketMade with
  | false =>
      cases h
      rfl
  | true =>
      simp only [Bool.not_true, Bool.false_eq_true, if_false] at h
      split at h
      · cases h
      rename_i w rc hstart
      split at h
      · cases h
        have hsum := sum_map_set { slot with world := w } (Slot.worth longestMs false clockMs) hslot
        have hnew : ({ slot with world := w } : Slot E).worth longestMs false clockMs = 0 :=
          Slot.worth_vacant hvacant
        rw [Slot.worth_vacant hvacant, hnew, Nat.zero_add, Nat.zero_add] at hsum
        exact hsum
      · cases h

/-- A new attempt is worth less than it has been paid for, with one left. -/
theorem worth_started (h : slot.world.conn.deadlineMs ≤ nowMs + longestMs) :
    slot.worth longestMs false nowMs + 2 ≤ attemptWorth longestMs := by
  unfold Slot.worth attemptWorth
  split
  · have hfive : (5 - renewals (Conn.phase slot.world.conn)) * (longestMs + 3)
        ≤ 5 * (longestMs + 3) := Nat.mul_le_mul_right _ (Nat.sub_le _ _)
    have huntil : untilDeadline false nowMs slot.world.conn.deadlineMs ≤ longestMs + 2 := by
      rcases Nat.lt_or_ge nowMs slot.world.conn.deadlineMs with hlt | hle
      · rw [untilDeadline_of_lt hlt]
        omega
      · rw [untilDeadline_of_le hle]
        exact Nat.le_add_left 1 _
    omega
  · omega

/-- An attempt is paid for by the target. -/
theorem attempts_left {l : Loop E} (hledger : Loop.Ledger l) (htarget : l.targetStarted = false)
    (hbounded : l.totalTarget ≠ 0) (hmore : orch'.attempts = l.orch.attempts + 1)
    (longestMs : Nat) :
    (l.totalTarget.toNat - orch'.attempts) * attemptWorth longestMs + attemptWorth longestMs
      = (l.totalTarget.toNat - l.orch.attempts) * attemptWorth longestMs := by
  have hlt := Loop.attempts_lt_of_not_targetStarted hledger htarget hbounded
  rw [← Nat.succ_mul, hmore]
  congr 1
  omega

end Starts

/-! ### The filling loop -/

section Fills

variable {l' : Loop E} {i nowMs : Nat} {socketMade : Bool} {syscalls : ConnectSyscalls}

theorem placed_leaveFill (l : Loop E) (nowMs clockMs stalled : Nat) :
    Placed ⟨l.leaveFill nowMs, clockMs, stalled⟩ := by
  unfold Placed
  rcases l.leaveFill_pc nowMs with hpc | hpc <;>
  · dsimp only
    rw [hpc]
    trivial

theorem turnsLeft_leaveFill (l : Loop E) (nowMs : Nat) :
    turnsLeft slots (l.leaveFill nowMs).pc ≤ 1 := by
  rcases l.leaveFill_pc nowMs with hpc | hpc <;> rw [hpc]
  · exact Nat.zero_le _
  · exact Nat.le_refl _

theorem placed_of_fills (h : Timed config patience slots c) (hpc : c.loop.pc = .fill i nowMs)
    (hfills : Loop.Fills c.loop i nowMs socketMade syscalls l') : Placed { c with loop := l' } := by
  have hplaced := h.placed
  unfold Placed at hplaced
  rw [hpc] at hplaced
  obtain ⟨hclock, hused⟩ := hplaced
  cases hfills with
  | passes slot hslot hinUse =>
      refine ⟨hclock, ?_⟩
      intro j hj other hother
      rcases Nat.lt_succ_iff_lt_or_eq.1 hj with hlt | rfl
      · exact hused j hlt other hother
      · obtain rfl := Option.some.inj (hslot.symm.trans hother)
        exact hinUse
  | leaves => exact placed_leaveFill ..
  | refused => exact placed_leaveFill ..
  | starts slot orch' hslot _ _ hstart =>
      obtain ⟨slot', hslots, hinUse, -⟩ := startSlot_accepted hstart
      obtain ⟨hi, -⟩ := List.getElem?_eq_some_iff.1 hslot
      unfold Placed
      dsimp only
      rw [hslots]
      refine ⟨hclock, ?_⟩
      intro j hj other hother
      rcases Nat.lt_succ_iff_lt_or_eq.1 hj with hlt | rfl
      · rw [List.getElem?_set_ne (Nat.ne_of_gt hlt)] at hother
        exact hused j hlt other hother
      · rw [List.getElem?_set_self hi] at hother
        obtain rfl := Option.some.inj hother
        exact hinUse

/-- A full house, or a target that is met: the loop goes on to a poll with something to wait for. -/
theorem inUse_of_leaves {timeoutMs : Nat} (h : Timed config patience slots c)
    (hpc : c.loop.pc = .fill i nowMs)
    (hdone : ∀ slot ∈ c.loop.orch.slots[i]?, slot.inUse = false ∧ c.loop.targetStarted = true)
    (hpoll : (c.loop.leaveFill nowMs).pc = .poll timeoutMs) :
    c.loop.orch.slots.any Slot.inUse = true := by
  have hplaced := h.placed
  unfold Placed at hplaced
  rw [hpc] at hplaced
  obtain ⟨-, hused⟩ := hplaced
  cases hslot : c.loop.orch.slots[i]? with
  | some slot => exact inUse_of_leaveFill hpoll (hdone slot hslot).2
  | none =>
      have hlength : slots ≤ i := by
        rw [← h.slots_eq]
        exact List.getElem?_eq_none_iff.1 hslot
      have hfirst : 0 < c.loop.orch.slots.length := by
        rw [h.slots_eq]
        exact h.room
      refine any_inUse_iff.2 ⟨c.loop.orch.slots[0], List.getElem_mem hfirst, ?_⟩
      exact hused 0 (Nat.lt_of_lt_of_le h.room hlength) _ (List.getElem?_eq_getElem hfirst)

theorem pays_of_fills (h : Timed config patience slots c) (hpc : c.loop.pc = .fill i nowMs)
    (hfills : Loop.Fills c.loop i nowMs socketMade syscalls l') :
    potential config.longestTimeoutMs patience slots { c with loop := l' } + 1
      ≤ c.potential config.longestTimeoutMs patience slots := by
  have hplaced' := placed_of_fills h hpc hfills
  have hclock : nowMs = c.clockMs := by
    have hplaced := h.placed
    unfold Placed at hplaced
    rw [hpc] at hplaced
    exact hplaced.1
  have hbefore : c.work config.longestTimeoutMs
      = (c.loop.totalTarget.toNat - c.loop.orch.attempts) * attemptWorth config.longestTimeoutMs
        + (c.loop.orch.slots.map (Slot.worth config.longestTimeoutMs false c.clockMs)).sum :=
    work_of_unpolled (by rw [hpc]; rfl) (by simp [hpc])
  cases hfills with
  | passes slot hslot =>
      obtain ⟨hi, -⟩ := List.getElem?_eq_some_iff.1 hslot
      rw [h.slots_eq] at hi
      apply pays_of_move h (by rw [hpc]; rfl) (by simp [hpc]) (by simp)
      rw [hpc]
      simp only [turnsLeft]
      omega
  | leaves hdone =>
      apply pays_of_place
      · rw [hbefore]
        rcases c.loop.leaveFill_pc nowMs with hreturned | hpoll
        · rw [work_of_unpolled (by rw [hreturned]; rfl) (by simp [hreturned])]
          simp
        · rw [work_of_poll hpoll, Loop.leaveFill_orch,
            if_pos (inUse_of_leaves h hpc hdone hpoll)]
          simp
      · exact stall_le_stall rfl h.patient (by simp)
      · have hleft : turnsLeft slots (c.loop.leaveFill nowMs).pc ≤ 1 := turnsLeft_leaveFill _ _
        apply Nat.lt_of_le_of_lt hleft
        rw [hpc]
        exact Nat.lt_add_left _ (by decide)
  | starts slot orch' hslot hvacant htarget hstart =>
      obtain ⟨slot', hslots, hinUse, hdeadline⟩ := startSlot_accepted hstart
      have hmore :=
        Orchestrator.attempts_starts (Orchestrator.startSlot_ok h.kept.tended.context hstart)
      have hpaid := attempts_left h.ledger htarget h.bounded hmore config.longestTimeoutMs
      rw [h.config_eq] at hdeadline
      have hworth := worth_started hdeadline
      have hsum := sum_map_set slot' (Slot.worth config.longestTimeoutMs false c.clockMs) hslot
      rw [Slot.worth_vacant hvacant, ← hclock] at hsum
      apply h.pays_of_work hplaced'
      rw [hbefore, work_of_unpolled rfl (by simp)]
      dsimp only
      rw [hslots, ← hclock]
      omega
  | refused slot orch' hslot hvacant htarget hstart =>
      have hmore :=
        Orchestrator.attempts_starts (Orchestrator.startSlot_ok h.kept.tended.context hstart)
      have hpaid := attempts_left h.ledger htarget h.bounded hmore config.longestTimeoutMs
      have hsum := startSlot_refused hvacant hslot hstart config.longestTimeoutMs c.clockMs
      have hleft : work config.longestTimeoutMs
          ⟨({ c.loop with orch := orch' } : Loop E).leaveFill nowMs, c.clockMs, c.stalled⟩ ≤ _ :=
        work_leaveFill_le nowMs
      have htwo : 2 ≤ attemptWorth config.longestTimeoutMs := by
        unfold attemptWorth
        omega
      apply h.pays_of_work hplaced'
      rw [hbefore]
      dsimp only at hleft
      rw [hsum] at hleft
      split at hleft <;> omega

end Fills

/-! ### Every turn -/

section Turns

variable {l' : Loop E} {turn : Turn E}

/-- What a turn leaves: the place it leaves the loop in, paid for. -/
structure Paid (config : Config E) (patience slots price : Nat) (c c' : Clocked E) : Prop where
  placed : Placed c'
  pays : c'.potential config.longestTimeoutMs patience slots + price
    ≤ c.potential config.longestTimeoutMs patience slots

theorem paid_of_dispatches {results : List Completion} {nowMs : Nat} {env : Env E}
    (h : Timed config patience slots c) (hpc : c.loop.pc = .dispatch results nowMs)
    (hdispatches : Loop.Dispatches c.loop nowMs env results l') :
    Paid config patience slots 1 c { c with loop := l' } := by
  have hplaced := h.placed
  unfold Placed at hplaced
  rw [hpc] at hplaced
  obtain ⟨hclock, hlength⟩ := hplaced
  cases hdispatches with
  | done =>
      refine ⟨⟨hclock, _, .refl _ nowMs⟩, ?_⟩
      apply pays_of_move h (by rw [hpc]; rfl) (by simp [hpc]) (by simp)
      rw [hpc]
      simp only [turnsLeft, List.length_nil]
      omega
  | nowhere completion rest =>
      rw [List.length_cons] at hlength
      refine ⟨⟨hclock, by omega⟩, ?_⟩
      apply pays_of_move h (by rw [hpc]; rfl) (by simp [hpc]) (by simp)
      rw [hpc]
      simp only [turnsLeft, List.length_cons]
      omega
  | tends completion rest slot orch' hslot htends =>
      rw [List.length_cons] at hlength
      obtain ⟨hinUse, hadmissible⟩ := h.kept.head hpc hslot env
      refine ⟨⟨hclock, by omega⟩, ?_⟩
      refine pays_of_tends h hslot hinUse hadmissible (.inl ?_) htends (by rw [hpc]; rfl) rfl ?_
      · rw [hclock]
        exact ⟨_, _, _, _, rfl⟩
      · rw [hpc]
        simp only [turnsLeft, List.length_cons]
        omega

theorem paid_of_sweeps {i nowMs : Nat} (h : Timed config patience slots c)
    (hpc : c.loop.pc = .sweep i nowMs) (hsweeps : Loop.Sweeps c.loop i nowMs l') :
    Paid config patience slots 1 c { c with loop := l' } := by
  have hplaced := h.placed
  unfold Placed at hplaced
  rw [hpc] at hplaced
  obtain ⟨hclock, start, hswept⟩ := hplaced
  have hindex {slot : Slot E} (hslot : c.loop.orch.slots[i]? = some slot) : i < slots := by
    obtain ⟨hi, -⟩ := List.getElem?_eq_some_iff.1 hslot
    rwa [h.slots_eq] at hi
  cases hsweeps with
  | done hslot =>
      have hundue : ∀ slot ∈ c.loop.orch.slots, slot.inUse = true →
          c.clockMs < slot.world.conn.deadlineMs := by
        intro slot hmem hinUse
        obtain ⟨j, hj⟩ := List.getElem?_of_mem hmem
        obtain ⟨hlt, -⟩ := List.getElem?_eq_some_iff.1 hj
        have hall := List.getElem?_eq_none_iff.1 hslot
        rw [← hclock]
        exact hswept.due j (Nat.lt_of_lt_of_le hlt hall) slot hj hinUse
      refine ⟨hundue, ?_⟩
      apply pays_of_place
      · rw [work_of_unpolled rfl (by simp), work_of_polled (by rw [hpc]; rfl)]
        apply Nat.add_le_add_left
        apply List.sum_le_sum
        intro slot hmem
        exact Nat.le_of_eq (Slot.worth_undue (hundue slot hmem))
      · exact stall_le_stall rfl h.patient id
      · rw [hpc]
        simp only [turnsLeft]
        omega
  | passes slot hslot hvacant =>
      have hi := hindex hslot
      constructor
      · refine ⟨hclock, start, hswept.next ?_⟩
        intro other hother hinUse
        obtain rfl := Option.some.inj (hslot.symm.trans hother)
        rw [hvacant] at hinUse
        cases hinUse
      · apply pays_of_move h (by rw [hpc]; rfl) (by simp [hpc]) (by simp)
        rw [hpc]
        simp only [turnsLeft]
        omega
  | tends slot orch' hslot hinUse htends =>
      have hi := hindex hslot
      constructor
      · cases hswept.sweeps (.tends slot orch' hslot hinUse htends) with
        | going j hj hnext =>
            cases hj
            exact ⟨hclock, start, hnext⟩
        | ended hj => cases hj
      · have hadmissible : Conn.admissible { slot.world with caps := c.loop.orch.caps }
            (.timeout nowMs) := trivial
        refine pays_of_tends h hslot hinUse hadmissible (.inr ?_) htends (by rw [hpc]; rfl) rfl ?_
        · rw [hclock]
        · rw [hpc]
          simp only [turnsLeft]
          omega

/-- **One turn** costs one, unless it is a stop request. -/
theorem Timed.paid (h : Timed config patience slots c) (hadm : Loop.admissible c.loop turn)
    (hticks : c.ticks patience turn) (hok : c.loop.step turn = .ok l') :
    Paid config patience slots (if turn.stops then 0 else 1) c (c.ticked turn l') := by
  cases Loop.turns_of_step hadm.1 hok with
  | stops => exact ⟨h.placed, Nat.le_refl _⟩
  | returns nowMs hpc =>
      obtain ⟨hclock, -⟩ := hticks nowMs rfl
      refine ⟨trivial, pays_of_iterate h hpc hclock rfl (by simp) ?_ trivial⟩
      exact Nat.succ_pos _
  | iterates nowMs hpc =>
      obtain ⟨hclock, -⟩ := hticks nowMs rfl
      have hplaced : Placed ⟨{ c.loop with pc := .fill 0 nowMs }, nowMs,
          if c.clockMs < nowMs then 0 else c.stalled⟩ :=
        ⟨rfl, fun j hj => absurd hj (Nat.not_lt_zero j)⟩
      refine ⟨hplaced, pays_of_iterate h hpc hclock rfl (by simp) ?_ hplaced⟩
      exact Nat.lt_succ_self _
  | fills socketMade syscalls i nowMs hpc hfills =>
      exact ⟨placed_of_fills h hpc hfills, pays_of_fills h hpc hfills⟩
  | polls results nowMs timeoutMs hpc =>
      obtain ⟨hclock, hpatience⟩ := hticks nowMs rfl
      have hplaced : Placed ⟨{ c.loop with pc := .dispatch results nowMs }, nowMs,
          if c.clockMs < nowMs then 0 else c.stalled + 1⟩ := ⟨rfl, hadm.2.bounded⟩
      exact ⟨hplaced, pays_of_poll h hpc hclock (hpatience rfl) hplaced⟩
  | dispatches env results nowMs hpc hdispatches => exact paid_of_dispatches h hpc hdispatches
  | sweeps i nowMs hpc hsweeps => exact paid_of_sweeps h hpc hsweeps

end Turns

/-! ### Runs -/

section Runs

variable {orch : Orchestrator E} {totalTarget : UInt64} {startMs : Nat} {turns : List (Turn E)}
  {turn : Turn E}

theorem length_slots_of_turned {C : World E → Event E → Prop} {l l' : Loop E}
    (h : Loop.Turned C l l') : l'.orch.slots.length = l.orch.slots.length := by
  cases h with
  | stops | returns | moves | polled | nowhere => rfl
  | leaves nowMs => rw [Loop.leaveFill_orch]
  | starts i nowMs slot _ _ _ hstarts =>
      cases hstarts
      exact List.length_set
  | refused i nowMs slot _ _ _ hstarts =>
      rw [Loop.leaveFill_orch]
      cases hstarts with
      | noSocket => rfl
      | refused => exact List.length_set
  | handled _ _ _ _ _ _ _ _ htends | swept _ _ _ _ _ _ htends =>
      cases htends <;> exact List.length_set

theorem stalled_ticked {l' : Loop E} (h : c.stalled ≤ patience) (hticks : c.ticks patience turn) :
    (c.ticked turn l').stalled ≤ patience := by
  unfold ticked
  cases hreading : turn.reading with
  | none => exact h
  | some nowMs =>
      obtain ⟨-, hpatience⟩ := hticks nowMs hreading
      dsimp only
      split
      · exact Nat.zero_le _
      · rename_i hlt
        split
        · rename_i hpolls
          exact (hpatience hpolls).resolve_left hlt
        · exact h

@[simp] theorem ticked_loop (turn : Turn E) (l' : Loop E) : (c.ticked turn l').loop = l' := by
  unfold ticked
  split <;> rfl

theorem steps_iff : (machine E patience).Steps c turn c'
    ↔ Loop.admissible c.loop turn ∧ c.ticks patience turn
      ∧ ∃ l', c.loop.step turn = .ok l' ∧ c' = c.ticked turn l' := by
  unfold Machine.Steps
  change (_ ∧ _) ∧ c.step turn = _ ↔ _
  rw [step, bind_eq_ok, and_assoc]
  constructor
  · rintro ⟨hadm, hticks, l', hok, hc'⟩
    exact ⟨hadm, hticks, l', hok, (Except.ok.inj hc').symm⟩
  · rintro ⟨hadm, hticks, l', hok, rfl⟩
    exact ⟨hadm, hticks, l', hok, rfl⟩

theorem Timed.step (h : Timed config patience slots c)
    (hsteps : (machine E patience).Steps c turn c') : Timed config patience slots c' := by
  obtain ⟨hadm, hticks, l', hok, rfl⟩ := steps_iff.1 hsteps
  have hturned : Loop.Turned (fun _ _ => True) c.loop l' :=
    Loop.turned_of_steps h.kept.tended.context ⟨⟨hadm, fun _ _ _ _ => trivial⟩, hok⟩
  obtain ⟨hconfig, htarget⟩ := hturned.fixed
  constructor
  · rw [ticked_loop]
    exact h.kept.turned hadm hok
  · rw [ticked_loop]
    exact hturned.ledger h.kept h.ledger
  · exact (h.paid hadm hticks hok).placed
  · exact stalled_ticked h.patient hticks
  · rw [ticked_loop, hconfig]
    exact h.config_eq
  · rw [ticked_loop, length_slots_of_turned hturned]
    exact h.slots_eq
  · exact h.room
  · rw [ticked_loop, htarget]
    exact h.bounded

end Runs

/-- A sample orchestrator of one slot, run for one attempt. -/
def playSample (turns : List Loop.SampleTurn) : Option (Clocked (recordEngine Conn.sampleInfo)) :=
  match Loop.createSample .none with
  | .ok (some orch) => (machine _ 0).exec (begin orch 1 0) turns
  | _ => none

end Clocked

end SmtpClient
