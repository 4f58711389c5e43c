import SmtpClient.Orchestrator
import SmtpClient.Proof.InFlight

/-!
# The slots of an orchestrator

What one call can do to the orchestrator, and what of it holds along every run: a slot in use holds
a connection that is under way, in a state a run of that connection alone can reach, whatever the
other slots have done in between; and so does every report.
-/

namespace SmtpClient

variable {E : TlsEngine}

namespace Reactor

theorem submitConnect_accepted {r : Reactor} {syscalls : ConnectSyscalls}
    (h : (r.submitConnect syscalls).2.toInt = 0) :
    r.liveCount < r.maxConnections
      ∧ (r.submitConnect syscalls).1 = { r with liveCount := r.liveCount + 1 } := by
  unfold submitConnect at h ⊢
  split at h
  · exact absurd h (by simp [ReactorErr.toInt])
  rename_i hroom
  split at h
  · exact absurd h (by simp [ReactorErr.toInt])
  split at h
  · exact absurd h (by simp [ReactorErr.toInt])
  · rename_i hmade hadded
    refine ⟨Nat.lt_of_not_le hroom, ?_⟩
    rw [if_neg hroom, if_neg hmade, if_neg hadded]

theorem submitConnect_refused {r : Reactor} {syscalls : ConnectSyscalls}
    (h : (r.submitConnect syscalls).2.toInt ≠ 0) : (r.submitConnect syscalls).1 = r := by
  unfold submitConnect at h ⊢
  split
  · rfl
  rename_i hroom
  rw [if_neg hroom] at h
  split
  · rfl
  rename_i hmade
  rw [if_neg hmade] at h
  split
  · rfl
  · rename_i hadded
    rw [if_neg hadded] at h
    exact absurd rfl h

end Reactor

/-- The settings of every connection of an orchestrator. -/
def Config.settings (config : Config E) : Settings E :=
  ⟨clip maxActorSize config.actor, config.tlsMode, config.tlsCtx, config.tlsTrustWithoutValidation⟩

namespace Orchestrator

/-! ### What one call can do -/

/-- The exits of `smtp_orch_start_slot`, with what it returns. -/
inductive Starts (orch : Orchestrator E) (i : Nat) (slot : Slot E) :
    Orchestrator E → Bool → Prop where
  | noSocket : Starts orch i slot orch.refuse false
  | refused (w : World E) :
      Starts orch i slot
        { orch with
          nextConnectionId := orch.nextConnectionId + 1
          slots := orch.slots.set i { slot with world := w } }.refuse false
  | accepted (w : World E) (hstarted : Conn.Started w) (hlive : w.conn.state.terminal = false)
      (hsettings : w.conn.settings = orch.config.settings)
      (hroom : orch.reactor.liveCount < orch.reactor.maxConnections) :
      Starts orch i slot
        ({ orch with
          reactor := { orch.reactor with liveCount := orch.reactor.liveCount + 1 }
          nextConnectionId := orch.nextConnectionId + 1 }.accept i w) true

theorem startSlot_ok {orch orch' : Orchestrator E} {i nowMs : Nat} {slot : Slot E}
    {socketMade inFlight : Bool} {syscalls : ConnectSyscalls}
    (hctx : orch.config.tlsMode = .none ∨ orch.config.tlsCtx.isSome)
    (h : orch.startSlot i slot nowMs socketMade syscalls = .ok (orch', inFlight)) :
    Starts orch i slot orch' inFlight := by
  unfold startSlot at h
  cases socketMade with
  | false =>
      cases Except.ok.inj h
      exact .noSocket
  | true =>
      simp only [Bool.not_true, Bool.false_eq_true, if_false] at h
      split at h
      · exact absurd h (by simp)
      rename_i w rc hstart
      obtain ⟨rfl, -, hw⟩ := Conn.start_fresh_ok hstart
      by_cases hrc : (orch.reactor.submitConnect syscalls).2.toInt = 0
      · obtain ⟨hroom, hreactor⟩ := Reactor.submitConnect_accepted hrc
        rw [if_neg (by simp [hrc]), hreactor] at h
        cases Except.ok.inj h
        rw [hrc] at hstart hw
        subst hw
        exact .accepted _ ⟨_, _, _, _, _, _, _, _, hctx, hstart⟩ rfl rfl hroom
      · rw [if_pos hrc, Reactor.submitConnect_refused hrc] at h
        cases Except.ok.inj h
        exact .refused w

/-- A slot given up, with the reactor one socket lighter. -/
def finished (orch : Orchestrator E) (i : Nat) (slot : Slot E) : Orchestrator E :=
  let ready := slot.world.conn.state = .ready
  { orch with
    caps := slot.world.caps
    reactor := { orch.reactor with liveCount := orch.reactor.liveCount - 1 }
    slots := orch.slots.set i
      { slot with
        world := { slot.world with conn := Conn.close slot.world.conn }
        inUse := false }
    stats := { orch.stats with
      totalCompleted := orch.stats.totalCompleted + 1
      totalSucceeded := orch.stats.totalSucceeded + if ready then 1 else 0
      totalFailed := orch.stats.totalFailed + if ready then 0 else 1 }
    history := orch.history ++ [.terminal slot.serial slot.world.conn.state slot.world] }

/-- The exits of a call on the connection in a slot, with the world the call leaves. -/
inductive Tends (orch : Orchestrator E) (i : Nat) (slot : Slot E) (event : Event E) :
    Orchestrator E → Prop where
  | goesOn (w : World E)
      (hstep : Conn.step orch.config.ehloIdentity { slot.world with caps := orch.caps } event = .ok w)
      (hlive : w.conn.state.terminal = false) :
      Tends orch i slot event
        { orch with caps := w.caps, slots := orch.slots.set i { slot with world := w } }
  | finishes (w : World E)
      (hstep : Conn.step orch.config.ehloIdentity { slot.world with caps := orch.caps } event = .ok w)
      (hover : w.conn.state.terminal = true) (hheld : 0 < orch.reactor.liveCount) :
      Tends orch i slot event (orch.finished i { slot with world := w })

theorem stepSlot_ok {orch orch' : Orchestrator E} {i : Nat} {slot : Slot E} {event : Event E}
    (h : orch.stepSlot i slot event = .ok orch') : Tends orch i slot event orch' := by
  unfold stepSlot at h
  split at h
  · exact absurd h (by simp)
  rename_i w hstep
  cases hterminal : w.conn.state.terminal with
  | false =>
      rw [hterminal] at h
      cases Except.ok.inj h
      exact .goesOn w hstep hterminal
  | true =>
      rw [hterminal, if_pos rfl] at h
      unfold finishSlot Reactor.forget at h
      by_cases hheld : 0 < orch.reactor.liveCount
      · simp only [hheld, if_true] at h
        cases Except.ok.inj h
        have htends := Tends.finishes (i := i) w hstep hterminal hheld
        simpa [finished, List.set_set] using htends
      · simp only [hheld, if_false] at h
        exact absurd h (by simp)

theorem startSlot_error {orch : Orchestrator E} {i nowMs : Nat} {slot : Slot E} {socketMade : Bool}
    {syscalls : ConnectSyscalls} {a : Abort}
    (h : orch.startSlot i slot nowMs socketMade syscalls = .error a) :
    a = .connection .logActor ∧ containsCrOrLf orch.config.settings.actor = true := by
  unfold startSlot at h
  split at h
  · cases h
  simp only at h
  split at h <;> rename_i hstart
  · obtain ⟨rfl, hactor⟩ := Conn.start_fresh_error hstart
    exact ⟨(Except.error.inj h).symm, hactor⟩
  · split at h <;> cases h

/-- A call on the connection in a slot fails in the connection, or over a socket that the reactor
does not count. -/
theorem stepSlot_error {orch : Orchestrator E} {i : Nat} {slot : Slot E} {event : Event E}
    {a : Abort} (h : orch.stepSlot i slot event = .error a) :
    (∃ e, a = .connection e ∧ Conn.step orch.config.ehloIdentity
        { slot.world with caps := orch.caps } event = .error e)
      ∨ a = .reactorForget ∧ orch.reactor.liveCount = 0 := by
  unfold stepSlot at h
  split at h <;> rename_i hstep
  · exact .inl ⟨_, (Except.error.inj h).symm, hstep⟩
  split at h
  swap
  · cases h
  unfold finishSlot Reactor.forget at h
  by_cases hheld : 0 < orch.reactor.liveCount
  · simp only [hheld, if_true] at h
    cases h
  · simp only [hheld, if_false] at h
    exact .inr ⟨(Except.error.inj h).symm, Nat.eq_zero_of_not_pos hheld⟩

/-! ### The connections in the slots -/

/-- What a run of its own could make of a connection of this orchestrator. -/
def Held (C : World E → Event E → Prop) (config : Config E) (w : World E) : Prop :=
  Conn.ReachableWhen C config.ehloIdentity w ∧ w.conn.settings = config.settings

structure Tended (C : World E → Event E → Prop) (orch : Orchestrator E) : Prop where
  context : orch.config.tlsMode = .none ∨ orch.config.tlsCtx.isSome
  inUse : ∀ slot ∈ orch.slots, slot.inUse = true →
    Held C orch.config slot.world ∧ slot.world.conn.state.terminal = false
  reported : ∀ r ∈ reports orch.history,
    Held C orch.config r.2.2 ∧ r.2.2.conn.state = r.2.1 ∧ r.2.1.terminal = true

section Tended

variable {C : World E → Event E → Prop} {orch orch' : Orchestrator E} {i : Nat} {slot : Slot E}

theorem Tended.refuse (h : Tended C orch) : Tended C orch.refuse where
  context := h.context
  inUse := h.inUse
  reported := by simpa [Orchestrator.refuse, reports] using h.reported

theorem Tended.starts {inFlight : Bool} (h : Tended C orch) (hvacant : slot.inUse = false)
    (hstarts : Starts orch i slot orch' inFlight) : Tended C orch' := by
  cases hstarts with
  | noSocket => exact h.refuse
  | refused w =>
      refine Tended.refuse ⟨h.context, fun other hmem hinUse => ?_, h.reported⟩
      rcases List.mem_or_eq_of_mem_set hmem with hmem | rfl
      · exact h.inUse other hmem hinUse
      · exact absurd hinUse (by simp [hvacant])
  | accepted w hstarted hlive hsettings hroom =>
      refine ⟨h.context, ?_, ?_⟩
      · intro other hmem hinUse
        rcases List.mem_or_eq_of_mem_set hmem with hmem | rfl
        · exact h.inUse other hmem hinUse
        · exact ⟨⟨⟨w, [], hstarted, .nil⟩, hsettings⟩, hlive⟩
      · simpa [accept, reports] using h.reported

/-- A step of a slot is a step of its connection, behind one in which the others leave their
capabilities. -/
theorem Held.step {config : Config E} {w w' : World E} {caps : Capabilities} {event : Event E}
    (h : Held C config w) (hothers : ∀ w caps, C w (.others caps))
    (hmeets : C { w with caps := caps } event)
    (hstep : (Conn.machine E config.ehloIdentity).Steps { w with caps := caps } event w') :
    Held C config w' := by
  obtain ⟨hreach, hsettings⟩ := h
  have hlent : Conn.ReachableWhen C config.ehloIdentity { w with caps := caps } :=
    hreach.step (hothers w caps) ⟨trivial, rfl⟩
  exact ⟨hlent.step hmeets hstep, (Conn.took_of_steps hstep).settings_eq.trans hsettings⟩

theorem Tended.tends {event : Event E} (h : Tended C orch) (hothers : ∀ w caps, C w (.others caps))
    (hslot : slot ∈ orch.slots) (hinUse : slot.inUse = true)
    (hadmissible : Conn.admissible { slot.world with caps := orch.caps } event)
    (hmeets : C { slot.world with caps := orch.caps } event)
    (htends : Tends orch i slot event orch') : Tended C orch' := by
  obtain ⟨hheld, -⟩ := h.inUse slot hslot hinUse
  have hnext {w : World E} (hstep : Conn.step orch.config.ehloIdentity
      { slot.world with caps := orch.caps } event = .ok w) : Held C orch.config w :=
    hheld.step hothers hmeets ⟨hadmissible, hstep⟩
  cases htends with
  | goesOn w hstep hlive =>
      refine ⟨h.context, ?_, h.reported⟩
      intro other hmem hother
      rcases List.mem_or_eq_of_mem_set hmem with hmem | rfl
      · exact h.inUse other hmem hother
      · exact ⟨hnext hstep, hlive⟩
  | finishes w hstep hover _ =>
      refine ⟨h.context, ?_, ?_⟩
      · intro other hmem hother
        rcases List.mem_or_eq_of_mem_set hmem with hmem | rfl
        · exact h.inUse other hmem hother
        · exact absurd hother (by simp)
      · intro r hmem
        simp only [finished, reports, List.filterMap_append, List.filterMap_cons,
          List.filterMap_nil, List.mem_append, List.mem_singleton] at hmem
        rcases hmem with hmem | rfl
        · exact h.reported r hmem
        · exact ⟨hnext hstep, rfl, hover⟩

theorem Tended.held_of_connections {w : World E} (h : Tended C orch) (hmem : w ∈ orch.connections) :
    Held C orch.config w := by
  rcases List.mem_append.mp hmem with hmem | hmem
  · obtain ⟨slot, hslot, rfl⟩ := List.mem_map.mp hmem
    obtain ⟨hslot, hinUse⟩ := List.mem_filter.mp hslot
    exact (h.inUse slot hslot hinUse).1
  · obtain ⟨r, hr, rfl⟩ := List.mem_map.mp hmem
    exact (h.reported r hr).1

end Tended

end Orchestrator

namespace Loop

open Orchestrator

/-- The completions still to be dispatched are of different slots, all in use. -/
def Pending (l : Loop E) : Prop :=
  ∀ results nowMs, l.pc = .dispatch results nowMs → (results.map Completion.slot).Nodup
    ∧ ∀ c ∈ results, ∃ slot ∈ l.orch.slots[c.slot]?,
      slot.inUse = true ∧ Delivers slot.world c.op c.result c.data

/-- **Inversion of a turn.** -/
inductive Turned (C : World E → Event E → Prop) (l : Loop E) : Loop E → Prop where
  | stops : Turned C l { l with orch := l.orch.requestStop }
  | returns (hpc : l.pc = .top) (hstop : l.orch.stopRequested = true) :
      Turned C l { l with pc := .returned }
  | moves (pc : Pc) (hdispatch : ∀ results nowMs, pc ≠ .dispatch results nowMs)
      (hreturned : pc ≠ .returned) : Turned C l { l with pc := pc }
  | leaves (nowMs : Nat) : Turned C l (l.leaveFill nowMs)
  | starts {orch' : Orchestrator E} (i nowMs : Nat) (slot : Slot E)
      (hslot : l.orch.slots[i]? = some slot) (hvacant : slot.inUse = false)
      (htarget : l.targetStarted = false) (hstarts : Starts l.orch i slot orch' true) :
      Turned C l { l with orch := orch', pc := .fill (i + 1) nowMs }
  | refused {orch' : Orchestrator E} (i nowMs : Nat) (slot : Slot E)
      (hslot : l.orch.slots[i]? = some slot) (hvacant : slot.inUse = false)
      (htarget : l.targetStarted = false) (hstarts : Starts l.orch i slot orch' false) :
      Turned C l ({ l with orch := orch' }.leaveFill nowMs)
  | polled (results : List Completion) (nowMs : Nat) (hpolls : Polls l.orch results) :
      Turned C l { l with pc := .dispatch results nowMs }
  | handled {orch' : Orchestrator E} (env : Env E) (c : Completion) (rest : List Completion)
      (nowMs : Nat) (slot : Slot E) (hpc : l.pc = .dispatch (c :: rest) nowMs)
      (hslot : l.orch.slots[c.slot]? = some slot)
      (hmeets : C { slot.world with caps := l.orch.caps }
        (.completion env c.op c.result c.data nowMs))
      (htends : Tends l.orch c.slot slot (.completion env c.op c.result c.data nowMs) orch') :
      Turned C l { l with orch := orch', pc := .dispatch rest nowMs }
  | nowhere (c : Completion) (rest : List Completion) (nowMs : Nat)
      (hpc : l.pc = .dispatch (c :: rest) nowMs) (hslot : l.orch.slots[c.slot]? = none) :
      Turned C l { l with pc := .dispatch rest nowMs }
  | swept {orch' : Orchestrator E} (i nowMs : Nat) (slot : Slot E)
      (hslot : l.orch.slots[i]? = some slot) (hinUse : slot.inUse = true)
      (hmeets : C { slot.world with caps := l.orch.caps } (.timeout nowMs))
      (htends : Tends l.orch i slot (.timeout nowMs) orch') :
      Turned C l { l with orch := orch', pc := .sweep (i + 1) nowMs }

variable {C : World E → Event E → Prop} {l l' : Loop E} {turn : Turn E}

@[simp] theorem leaveFill_orch (l : Loop E) (nowMs : Nat) : (l.leaveFill nowMs).orch = l.orch := by
  unfold leaveFill
  split
  · rfl
  · split <;> rfl

@[simp] theorem leaveFill_totalTarget (l : Loop E) (nowMs : Nat) :
    (l.leaveFill nowMs).totalTarget = l.totalTarget := by
  unfold leaveFill
  split
  · rfl
  · split <;> rfl

theorem leaveFill_pc (l : Loop E) (nowMs : Nat) : (l.leaveFill nowMs).pc = .returned
    ∨ (l.leaveFill nowMs).pc = .poll (l.orch.nextPollTimeoutMs nowMs) := by
  unfold leaveFill
  split
  · exact .inl rfl
  · split
    · exact .inl rfl
    · exact .inr rfl

/-- The exits of the turn of the filling loop at slot `i`. -/
inductive Fills (l : Loop E) (i nowMs : Nat) (socketMade : Bool) (syscalls : ConnectSyscalls) :
    Loop E → Prop where
  | passes (slot : Slot E) (hslot : l.orch.slots[i]? = some slot) (hinUse : slot.inUse = true) :
      Fills l i nowMs socketMade syscalls { l with pc := .fill (i + 1) nowMs }
  | leaves (hdone : ∀ slot ∈ l.orch.slots[i]?, slot.inUse = false ∧ l.targetStarted = true) :
      Fills l i nowMs socketMade syscalls (l.leaveFill nowMs)
  | starts (slot : Slot E) (orch' : Orchestrator E) (hslot : l.orch.slots[i]? = some slot)
      (hvacant : slot.inUse = false) (htarget : l.targetStarted = false)
      (hstart : l.orch.startSlot i slot nowMs socketMade syscalls = .ok (orch', true)) :
      Fills l i nowMs socketMade syscalls { l with orch := orch', pc := .fill (i + 1) nowMs }
  | refused (slot : Slot E) (orch' : Orchestrator E) (hslot : l.orch.slots[i]? = some slot)
      (hvacant : slot.inUse = false) (htarget : l.targetStarted = false)
      (hstart : l.orch.startSlot i slot nowMs socketMade syscalls = .ok (orch', false)) :
      Fills l i nowMs socketMade syscalls ({ l with orch := orch' }.leaveFill nowMs)

theorem fillTurn_ok {i nowMs : Nat} {socketMade : Bool} {syscalls : ConnectSyscalls}
    (h : l.fillTurn i nowMs socketMade syscalls = .ok l') :
    Fills l i nowMs socketMade syscalls l' := by
  unfold fillTurn at h
  split at h <;> rename_i hslot
  · cases Except.ok.inj h
    exact .leaves (by simp [hslot])
  rename_i slot
  cases hvacant : slot.inUse with
  | true =>
      rw [hvacant] at h
      cases Except.ok.inj h
      exact .passes slot hslot hvacant
  | false =>
      rw [hvacant, if_neg (by simp)] at h
      cases htarget : l.targetStarted with
      | true =>
          rw [htarget] at h
          cases Except.ok.inj h
          refine .leaves fun other hother => ⟨?_, htarget⟩
          rw [← Option.some.inj (hslot.symm.trans hother), hvacant]
      | false =>
          rw [htarget, if_neg (by simp)] at h
          split at h <;> rename_i hstart
          · exact absurd h (by simp)
          · cases Except.ok.inj h
            exact .starts slot _ hslot hvacant htarget hstart
          · cases Except.ok.inj h
            exact .refused slot _ hslot hvacant htarget hstart

/-- The exits of the turn of the dispatching loop. -/
inductive Dispatches (l : Loop E) (nowMs : Nat) (env : Env E) : List Completion → Loop E → Prop where
  | done : Dispatches l nowMs env [] { l with pc := .sweep 0 nowMs }
  | nowhere (c : Completion) (rest : List Completion) (hslot : l.orch.slots[c.slot]? = none) :
      Dispatches l nowMs env (c :: rest) { l with pc := .dispatch rest nowMs }
  | tends (c : Completion) (rest : List Completion) (slot : Slot E) (orch' : Orchestrator E)
      (hslot : l.orch.slots[c.slot]? = some slot)
      (htends : Tends l.orch c.slot slot (.completion env c.op c.result c.data nowMs) orch') :
      Dispatches l nowMs env (c :: rest) { l with orch := orch', pc := .dispatch rest nowMs }

theorem handleTurn_ok {results : List Completion} {nowMs : Nat} {env : Env E}
    (h : l.handleTurn results nowMs env = .ok l') : Dispatches l nowMs env results l' := by
  unfold handleTurn at h
  split at h
  · cases Except.ok.inj h
    exact .done
  rename_i c rest
  split at h <;> rename_i hslot
  · cases Except.ok.inj h
    exact .nowhere c rest hslot
  · rename_i slot
    obtain ⟨orch', hstep, h⟩ := bind_eq_ok.1 h
    cases Except.ok.inj h
    exact .tends c rest slot orch' hslot (stepSlot_ok hstep)

/-- The exits of the turn of the timeout sweep at slot `i`. -/
inductive Sweeps (l : Loop E) (i nowMs : Nat) : Loop E → Prop where
  | done (hslot : l.orch.slots[i]? = none) : Sweeps l i nowMs { l with pc := .top }
  | passes (slot : Slot E) (hslot : l.orch.slots[i]? = some slot) (hvacant : slot.inUse = false) :
      Sweeps l i nowMs { l with pc := .sweep (i + 1) nowMs }
  | tends (slot : Slot E) (orch' : Orchestrator E) (hslot : l.orch.slots[i]? = some slot)
      (hinUse : slot.inUse = true) (htends : Tends l.orch i slot (.timeout nowMs) orch') :
      Sweeps l i nowMs { l with orch := orch', pc := .sweep (i + 1) nowMs }

theorem sweepTurn_ok {i nowMs : Nat} (h : l.sweepTurn i nowMs = .ok l') :
    Sweeps l i nowMs l' := by
  unfold sweepTurn at h
  split at h <;> rename_i hslot
  · cases Except.ok.inj h
    exact .done hslot
  rename_i slot
  cases hinUse : slot.inUse with
  | false =>
      rw [hinUse] at h
      cases Except.ok.inj h
      exact .passes slot hslot hinUse
  | true =>
      rw [hinUse, if_neg (by simp)] at h
      obtain ⟨orch', hstep, h⟩ := bind_eq_ok.1 h
      cases Except.ok.inj h
      exact .tends slot orch' hslot hinUse (stepSlot_ok hstep)

/-- A turn in its place. -/
inductive Turns (l : Loop E) : Turn E → Loop E → Prop where
  | stops : Turns l .requestStop { l with orch := l.orch.requestStop }
  | returns (nowMs : Nat) (hpc : l.pc = .top) (hstop : l.orch.stopRequested = true) :
      Turns l (.iterate nowMs) { l with pc := .returned }
  | iterates (nowMs : Nat) (hpc : l.pc = .top) :
      Turns l (.iterate nowMs) { l with pc := .fill 0 nowMs }
  | fills (socketMade : Bool) (syscalls : ConnectSyscalls) (i nowMs : Nat)
      (hpc : l.pc = .fill i nowMs) {l' : Loop E} (hfills : Fills l i nowMs socketMade syscalls l') :
      Turns l (.fill socketMade syscalls) l'
  | polls (results : List Completion) (nowMs timeoutMs : Nat) (hpc : l.pc = .poll timeoutMs) :
      Turns l (.polled results nowMs) { l with pc := .dispatch results nowMs }
  | dispatches (env : Env E) (results : List Completion) (nowMs : Nat)
      (hpc : l.pc = .dispatch results nowMs) {l' : Loop E}
      (hdispatches : Dispatches l nowMs env results l') : Turns l (.handle env) l'
  | sweeps (i nowMs : Nat) (hpc : l.pc = .sweep i nowMs) {l' : Loop E}
      (hsweeps : Sweeps l i nowMs l') : Turns l .sweep l'

theorem turns_of_step (hfits : turn.fits l.pc = true) (h : l.step turn = .ok l') :
    Turns l turn l' := by
  unfold step at h
  cases turn with
  | requestStop =>
      cases Except.ok.inj h
      exact .stops
  | iterate nowMs =>
      cases hpc : l.pc <;> simp only [hpc, Turn.fits, Bool.false_eq_true] at h hfits
      split at h <;> rename_i hstop
      · cases Except.ok.inj h
        exact .returns nowMs hpc hstop
      · cases Except.ok.inj h
        exact .iterates nowMs hpc
  | fill socketMade syscalls =>
      cases hpc : l.pc <;> simp only [hpc, Turn.fits, Bool.false_eq_true] at h hfits
      exact .fills socketMade syscalls _ _ hpc (fillTurn_ok h)
  | polled results nowMs =>
      cases hpc : l.pc <;> simp only [hpc, Turn.fits, Bool.false_eq_true] at h hfits
      cases Except.ok.inj h
      exact .polls results nowMs _ hpc
  | handle env =>
      cases hpc : l.pc <;> simp only [hpc, Turn.fits, Bool.false_eq_true] at h hfits
      exact .dispatches env _ _ hpc (handleTurn_ok h)
  | sweep =>
      cases hpc : l.pc <;> simp only [hpc, Turn.fits, Bool.false_eq_true] at h hfits
      exact .sweeps _ _ hpc (sweepTurn_ok h)

/-- **Inversion of a turn that fails.** Where a connection was started or called. -/
inductive Fails (l : Loop E) : Turn E → Abort → Prop where
  | starts (socketMade : Bool) (syscalls : ConnectSyscalls) (i nowMs : Nat) (slot : Slot E)
      {a : Abort} (hstart : l.orch.startSlot i slot nowMs socketMade syscalls = .error a) :
      Fails l (.fill socketMade syscalls) a
  | handles (env : Env E) (c : Completion) (rest : List Completion) (nowMs : Nat) (slot : Slot E)
      {a : Abort} (hpc : l.pc = .dispatch (c :: rest) nowMs)
      (hslot : l.orch.slots[c.slot]? = some slot)
      (hstep : l.orch.stepSlot c.slot slot (.completion env c.op c.result c.data nowMs)
        = .error a) : Fails l (.handle env) a
  | sweeps (i nowMs : Nat) (slot : Slot E) {a : Abort} (hpc : l.pc = .sweep i nowMs)
      (hslot : l.orch.slots[i]? = some slot) (hinUse : slot.inUse = true)
      (hstep : l.orch.stepSlot i slot (.timeout nowMs) = .error a) : Fails l .sweep a

theorem fillTurn_error {i nowMs : Nat} {socketMade : Bool} {syscalls : ConnectSyscalls} {a : Abort}
    (h : l.fillTurn i nowMs socketMade syscalls = .error a) :
    Fails l (.fill socketMade syscalls) a := by
  unfold fillTurn at h
  split at h
  · cases h
  rename_i slot _
  split at h
  · cases h
  split at h
  · cases h
  split at h <;> rename_i hstart
  · cases Except.error.inj h
    exact .starts socketMade syscalls i nowMs slot hstart
  · cases h
  · cases h

theorem handleTurn_error {results : List Completion} {nowMs : Nat} {env : Env E} {a : Abort}
    (hpc : l.pc = .dispatch results nowMs) (h : l.handleTurn results nowMs env = .error a) :
    Fails l (.handle env) a := by
  unfold handleTurn at h
  split at h
  · cases h
  rename_i c rest
  split at h <;> rename_i hslot
  · cases h
  rename_i slot
  cases hstep : l.orch.stepSlot c.slot slot (.completion env c.op c.result c.data nowMs) with
  | ok orch' =>
      rw [hstep] at h
      cases h
  | error a' =>
      rw [hstep] at h
      cases Except.error.inj h
      exact .handles env c rest nowMs slot hpc hslot hstep

theorem sweepTurn_error {i nowMs : Nat} {a : Abort} (hpc : l.pc = .sweep i nowMs)
    (h : l.sweepTurn i nowMs = .error a) : Fails l .sweep a := by
  unfold sweepTurn at h
  split at h <;> rename_i hslot
  · cases h
  rename_i slot
  cases hinUse : slot.inUse with
  | false =>
      rw [hinUse] at h
      cases h
  | true =>
      rw [hinUse, if_neg (by simp)] at h
      cases hstep : l.orch.stepSlot i slot (.timeout nowMs) with
      | ok orch' =>
          rw [hstep] at h
          cases h
      | error a' =>
          rw [hstep] at h
          cases Except.error.inj h
          exact .sweeps i nowMs slot hpc hslot hinUse hstep

theorem step_error {a : Abort} (h : l.step turn = .error a) : Fails l turn a := by
  unfold step at h
  split at h
  · cases h
  · split at h <;> cases h
  · exact fillTurn_error h
  · cases h
  · rename_i hpc
    exact handleTurn_error hpc h
  · rename_i hpc
    exact sweepTurn_error hpc h
  · cases h

theorem turned_of_steps (hctx : l.orch.config.tlsMode = .none ∨ l.orch.config.tlsCtx.isSome)
    (h : ((machine E).restrict (Meets C)).Steps l turn l') : Turned C l l' := by
  obtain ⟨⟨⟨hfits, hpolls⟩, hmeets⟩, hstep⟩ := h
  cases turns_of_step hfits hstep with
  | stops => exact .stops
  | returns nowMs hpc hstop => exact .returns hpc hstop
  | iterates => exact .moves _ (by simp) (by simp)
  | fills socketMade syscalls i nowMs hpc hfills =>
      cases hfills with
      | passes => exact .moves _ (by simp) (by simp)
      | leaves => exact .leaves nowMs
      | starts slot orch' hslot hvacant htarget hstart =>
          exact .starts i nowMs slot hslot hvacant htarget (startSlot_ok hctx hstart)
      | refused slot orch' hslot hvacant htarget hstart =>
          exact .refused i nowMs slot hslot hvacant htarget (startSlot_ok hctx hstart)
  | polls results nowMs => exact .polled results nowMs hpolls
  | dispatches env results nowMs hpc hdispatches =>
      cases hdispatches with
      | done => exact .moves _ (by simp) (by simp)
      | nowhere c rest hslot => exact .nowhere c rest nowMs hpc hslot
      | tends c rest slot orch' hslot htends =>
          rw [Meets, hpc] at hmeets
          exact .handled env c rest nowMs slot hpc hslot (hmeets _ rfl slot hslot) htends
  | sweeps i nowMs hpc hsweeps =>
      cases hsweeps with
      | done => exact .moves _ (by simp) (by simp)
      | passes => exact .moves _ (by simp) (by simp)
      | tends slot orch' hslot hinUse htends =>
          rw [Meets, hpc] at hmeets
          exact .swept i nowMs slot hslot hinUse (hmeets _ rfl slot hslot) htends

/-- What the turns before it leave a turn to work on. -/
structure Kept (C : World E → Event E → Prop) (l : Loop E) : Prop where
  tended : Tended C l.orch
  pending : Pending l

/-- The completion to be dispatched next is one the connection in its slot can take. -/
theorem Kept.head (hkept : Kept C l) {c : Completion} {rest : List Completion} {nowMs : Nat}
    {slot : Slot E} (hpc : l.pc = .dispatch (c :: rest) nowMs)
    (hslot : l.orch.slots[c.slot]? = some slot) (env : Env E) :
    slot.inUse = true ∧ Conn.admissible { slot.world with caps := l.orch.caps }
      (.completion env c.op c.result c.data nowMs) := by
  obtain ⟨slot', hslot', hused, hdelivers⟩ := (hkept.pending _ _ hpc).2 c List.mem_cons_self
  obtain rfl := Option.some.inj (hslot'.symm.trans hslot)
  exact ⟨hused, (hkept.tended.inUse slot' (List.mem_of_getElem? hslot) hused).2, hdelivers.held,
    hdelivers.fits, hdelivers.nothing_of_failure, hdelivers.sent⟩

theorem Pending.of_pc (hpc : ∀ results nowMs, l.pc ≠ .dispatch results nowMs) : Pending l :=
  fun results nowMs h => absurd h (hpc results nowMs)

theorem pending_leaveFill (nowMs : Nat) : Pending (l.leaveFill nowMs) := by
  refine .of_pc fun results nowMs' h => ?_
  rcases l.leaveFill_pc nowMs with hpc | hpc <;>
  · rw [hpc] at h
    exact absurd h (by simp)

/-- `smtp_orchestrator_run` is called again. -/
theorem Kept.again (h : Kept C l) (totalTarget : UInt64) : Kept C (begin l.orch totalTarget) where
  tended := ⟨h.tended.context, h.tended.inUse, h.tended.reported⟩
  pending := .of_pc nofun

/-- One operation in flight to each slot, one completion to each operation: one completion to each
slot. -/
theorem pending_of_polls {results : List Completion} {nowMs : Nat} (h : Tended C l.orch)
    (hpolls : Polls l.orch results) : Pending { l with pc := .dispatch results nowMs } := by
  intro results' nowMs' hpc
  obtain ⟨rfl, rfl⟩ := Pc.dispatch.inj hpc
  have hop (c : Completion) (hmem : c ∈ results) :
      ∃ slot ∈ l.orch.slots[c.slot]?, c.op = slot.world.conn.op := by
    obtain ⟨slot, hslot, hinUse, hdelivers⟩ := hpolls.inUse c hmem
    obtain ⟨⟨hreach, -⟩, hlive⟩ := h.inUse slot (List.mem_of_getElem? hslot) hinUse
    obtain ⟨hone, -⟩ := (Conn.flight_of_reachable hreach.reachable).live hlive
    exact ⟨slot, hslot, by simpa [hone] using hdelivers.held⟩
  refine ⟨List.pairwise_map.mpr ?_, hpolls.inUse⟩
  refine (List.pairwise_map.mp hpolls.once).imp_of_mem fun {c c'} hmem hmem' hne heq => hne ?_
  obtain ⟨slot, hslot, hc⟩ := hop c hmem
  obtain ⟨slot', hslot', hc'⟩ := hop c' hmem'
  rw [heq] at hslot
  obtain rfl := Option.some.inj (hslot.symm.trans hslot')
  rw [heq, hc, hc']

theorem slots_of_tends {orch orch' : Orchestrator E} {i j : Nat} {slot : Slot E} {event : Event E}
    (h : Tends orch i slot event orch') (hne : i ≠ j) : orch'.slots[j]? = orch.slots[j]? := by
  cases h <;> simp [finished, List.getElem?_set_ne hne]

theorem Turned.kept (h : Turned C l l') (hothers : ∀ w caps, C w (.others caps))
    (hkept : Kept C l) : Kept C l' := by
  obtain ⟨htended, hpending⟩ := hkept
  cases h with
  | stops => exact ⟨⟨htended.context, htended.inUse, htended.reported⟩, hpending⟩
  | returns => exact ⟨htended, .of_pc (by simp)⟩
  | moves pc hdispatch => exact ⟨htended, .of_pc hdispatch⟩
  | leaves nowMs => exact ⟨by simpa using htended, pending_leaveFill nowMs⟩
  | starts i nowMs slot hslot hvacant _ hstarts =>
      exact ⟨htended.starts hvacant hstarts, .of_pc (by simp)⟩
  | refused i nowMs slot hslot hvacant _ hstarts =>
      exact ⟨by simpa using htended.starts hvacant hstarts, pending_leaveFill nowMs⟩
  | polled results nowMs hpolls => exact ⟨htended, pending_of_polls htended hpolls⟩
  | handled env c rest nowMs slot hpc hslot hmeets htends =>
      obtain ⟨hnodup, hinUse⟩ := hpending _ _ hpc
      obtain ⟨hused, hadmissible⟩ := Kept.head ⟨htended, hpending⟩ hpc hslot env
      refine ⟨htended.tends hothers (List.mem_of_getElem? hslot) hused hadmissible hmeets htends, ?_⟩
      intro results nowMs' heq
      obtain ⟨rfl, rfl⟩ := Pc.dispatch.inj heq
      obtain ⟨hnot, hrest⟩ := List.nodup_cons.mp hnodup
      refine ⟨hrest, ?_⟩
      intro c' hmem'
      have hne : c.slot ≠ c'.slot := fun heq => hnot (heq ▸ List.mem_map_of_mem hmem')
      rw [slots_of_tends htends hne]
      exact hinUse c' (List.mem_cons_of_mem _ hmem')
  | nowhere c rest nowMs hpc hslot =>
      obtain ⟨-, hinUse⟩ := hpending _ _ hpc
      obtain ⟨slot, hslot', -⟩ := hinUse c List.mem_cons_self
      exact absurd (hslot'.symm.trans hslot) (by simp)
  | swept i nowMs slot hslot hinUse hmeets htends =>
      have hadmissible : Conn.admissible { slot.world with caps := l.orch.caps }
          (.timeout nowMs) := trivial
      exact ⟨htended.tends hothers (List.mem_of_getElem? hslot) hinUse hadmissible hmeets htends,
        .of_pc (by simp)⟩

/-- What every turn keeps, whatever its events. -/
theorem Kept.turned (h : Kept (fun _ _ => True) l) (hadm : admissible l turn)
    (hstep : l.step turn = .ok l') : Kept (fun _ _ => True) l' := by
  have hturned : Turned (fun _ _ => True) l l' :=
    turned_of_steps h.tended.context ⟨⟨hadm, fun _ _ _ _ => trivial⟩, hstep⟩
  exact hturned.kept (fun _ _ => trivial) h

theorem starts_config {orch orch' : Orchestrator E} {i : Nat} {slot : Slot E} {inFlight : Bool}
    (h : Starts orch i slot orch' inFlight) : orch'.config = orch.config := by
  cases h <;> rfl

theorem tends_config {orch orch' : Orchestrator E} {i : Nat} {slot : Slot E} {event : Event E}
    (h : Tends orch i slot event orch') : orch'.config = orch.config := by
  cases h <;> rfl

theorem Turned.fixed (h : Turned C l l') :
    l'.orch.config = l.orch.config ∧ l'.totalTarget = l.totalTarget := by
  cases h with
  | stops | returns | moves | polled | nowhere => exact ⟨rfl, rfl⟩
  | leaves nowMs => simp
  | starts _ _ _ _ _ _ hstarts => exact ⟨starts_config hstarts, rfl⟩
  | refused _ _ _ _ _ _ hstarts => simp [starts_config hstarts]
  | handled _ _ _ _ _ _ _ _ htends => exact ⟨tends_config htends, rfl⟩
  | swept _ _ _ _ _ _ htends => exact ⟨tends_config htends, rfl⟩

end Loop

/-! ### From creation on -/

theorem Orchestrator.create_ok {alloc : Allocations E} {maxConnections connectTimeoutMs : Nat}
    {targetAddr : SockAddr} {targetHost : Option Bytes} {ehloIdentity : Bytes} {tlsMode : TlsMode}
    {trust : Bool} {threadId : UInt32} {orch : Orchestrator E}
    (h : create alloc maxConnections targetAddr targetHost ehloIdentity tlsMode trust
      connectTimeoutMs threadId = .ok (some orch)) :
    ∃ tlsCtx, (tlsMode = .none ∨ tlsCtx.isSome)
      ∧ orch =
        { config := ⟨targetAddr, formatActor targetAddr targetHost actorSize,
            clip identitySize ehloIdentity, tlsMode, tlsCtx, trust, connectTimeoutMs, threadId⟩
          reactor := ⟨maxConnections, 0⟩
          caps := Cap.init
          slots := List.replicate maxConnections .vacant
          nextConnectionId := 1
          stopRequested := false
          stats := ⟨0, 0, 0, 0⟩
          history := [] } := by
  unfold create Reactor.create at h
  by_cases hsome : maxConnections = 0
  · rw [if_pos hsome] at h
    exact absurd h (by simp)
  rw [if_neg hsome, if_neg hsome] at h
  split at h
  · exact absurd h (by simp)
  simp only at h
  by_cases hmode : tlsMode = .none
  · rw [if_pos hmode] at h
    split at h
    · exact absurd h (by simp)
    · exact ⟨none, .inl hmode, (Option.some.inj (Except.ok.inj h)).symm⟩
  · rw [if_neg hmode] at h
    split at h <;> rename_i hrefused
    · exact absurd h (by simp)
    · refine ⟨alloc.tlsCtx, .inr ?_, (Option.some.inj (Except.ok.inj h)).symm⟩
      by_contra hnone
      exact hrefused (.inl ⟨hmode, by simpa using hnone⟩)

namespace Loop

open Orchestrator

variable {C : World E → Event E → Prop} {orch : Orchestrator E} {totalTarget : UInt64} {l : Loop E}

theorem Reachable.reachableWhen (hC : ∀ w event, C w event) (h : Reachable orch totalTarget l) :
    ReachableWhen C orch totalTarget l := by
  obtain ⟨turns, run⟩ := h
  exact ⟨turns, run.to_restrict fun l turn _ _ _ _ => hC _ _⟩

theorem ReachableWhen.invariant {I : Loop E → Prop} (h : ReachableWhen C orch totalTarget l)
    (hcreated : orch.Created) (hothers : ∀ w caps, C w (.others caps))
    (hinit : I (begin orch totalTarget))
    (hstep : ∀ l l', Kept C l → I l → Turned C l l' → I l') : I l ∧ Kept C l := by
  obtain ⟨turns, run⟩ := h
  refine run.invariant (I := fun l => I l ∧ Kept C l) ⟨hinit, ?_⟩
    fun l turn l' ⟨hI, hkept⟩ hsteps => ?_
  · obtain ⟨_, _, _, _, _, _, _, _, _, hcreate⟩ := hcreated
    obtain ⟨tlsCtx, hctx, rfl⟩ := create_ok hcreate
    refine ⟨⟨hctx, ?_, by simp [begin, reports]⟩, .of_pc (by simp [begin])⟩
    intro slot hmem hinUse
    rw [List.eq_of_mem_replicate hmem] at hinUse
    exact absurd hinUse (by simp [Slot.vacant])
  · have hturned := turned_of_steps hkept.tended.context hsteps
    exact ⟨hstep l l' hkept hI hturned, hturned.kept hothers hkept⟩

/-- What holds in every run, whatever its events. -/
theorem Reachable.kept (h : Reachable orch totalTarget l) (hcreated : orch.Created) :
    Kept (fun _ _ => True) l :=
  ((h.reachableWhen fun _ _ => trivial).invariant (I := fun _ => True) hcreated
    (fun _ _ => trivial) trivial fun _ _ _ _ _ => trivial).2

theorem ReachableWhen.config_eq (h : ReachableWhen C orch totalTarget l) (hcreated : orch.Created)
    (hothers : ∀ w caps, C w (.others caps)) : l.orch.config = orch.config := by
  refine (h.invariant (I := fun l => l.orch.config = orch.config) hcreated hothers rfl ?_).1
  exact fun l l' _ hconfig hturned => hturned.fixed.1.trans hconfig

theorem ReachableWhen.held (h : ReachableWhen C orch totalTarget l) (hcreated : orch.Created)
    (hothers : ∀ w caps, C w (.others caps)) {w : World E} (hmem : w ∈ l.orch.connections) :
    Held C orch.config w := by
  rw [← h.config_eq hcreated hothers]
  have hkept := (h.invariant (I := fun _ => True) hcreated hothers trivial fun _ _ _ _ _ => trivial).2
  exact hkept.tended.held_of_connections hmem

end Loop

end SmtpClient
