import SmtpClient.Proof.Slots
import SmtpClient.Iocp
import SmtpClient.RecordEngine
import Mathlib.Data.List.Nodup

/-!
# Completions under IOCP go to the attempt they belong to, as long as nothing times out

What the OS owes is for attempts that are in their slots, one operation to each. A completion is
dequeued before it is handled, and only what its handling submits is owed again. So a slot is given
up with nothing owed for it, unless the sweep gives it up: then the operation stays with the OS, the
slot goes to the next attempt, and the packet that comes in the end is taken for a completion of
that one.
-/

namespace SmtpClient

variable {E : TlsEngine}

namespace Conn

open World Protocol

/-! ### Handling a completion gives the slot up with nothing in flight -/

section Exits

variable {env : Env E} {identity : Bytes} {nowMs : Nat} {w w' : World E} {result : IoResult}

theorem ne_timedOut_of_phase {p : Phase}
    (h : phase w'.conn = p ∨ (phase w'.conn).state = .error) (hp : p.state ≠ .timedOut) :
    w'.conn.state ≠ .timedOut := by
  cases h with
  | inl h =>
      rw [← h] at hp
      exact hp
  | inr h =>
      intro htimedOut
      cases h.symm.trans htimedOut

theorem ne_timedOut_reads (hstate : w.conn.state ≠ .timedOut) :
    (reads env w).conn.state ≠ .timedOut :=
  ne_timedOut_of_phase phase_reads hstate

theorem Quits.ne_timedOut (h : Quits w w') : w'.conn.state ≠ .timedOut := by
  rw [h.state]
  decide

theorem Handled.ne_timedOut (h : Handled env identity nowMs w result w') :
    w'.conn.state ≠ .timedOut := by
  cases h with
  | refuses _ hquits => exact hquits.ne_timedOut
  | proceeds _ hproceeds =>
      cases hproceeds with
      | connected | ehloSent | starttlsSent | securedFirst => exact ne_timedOut_reads nofun
      | waits hstate =>
          apply ne_timedOut_reads
          intro htimedOut
          change w.conn.state = _ at htimedOut
          rw [htimedOut] at hstate
          cases hstate
      | ready => nofun
      | connectedImplicit _ _ hbegins | starttlsAccepted _ _ _ _ _ hbegins =>
          exact ne_timedOut_of_phase hbegins.phase_eq nofun
      | greeted _ _ _ _ _ _ hsends | securedAgain _ _ _ _ _ _ _ hsends =>
          exact ne_timedOut_of_phase hsends.phase_eq nofun
      | starttlsWanted _ _ _ _ _ _ _ _ hsubmits =>
          exact ne_timedOut_of_phase hsubmits.phase_eq nofun
      | drives hstate tls htls _ _ hdrives =>
          apply ne_timedOut_of_phase (hdrives.phase_eq (by rw [htls]; rfl))
          intro htimedOut
          cases hstate.symm.trans htimedOut

theorem OnIo.ne_timedOut (h : OnIo env identity nowMs w result w')
    (hstate : w.conn.state ≠ .timedOut) : w'.conn.state ≠ .timedOut := by
  cases h with
  | direct _ hhandled | delivered _ _ _ _ _ hhandled => exact hhandled.ne_timedOut
  | full _ _ _ hquits | broken _ _ _ _ _ hquits => exact hquits.ne_timedOut
  | undecided tls hdecrypts =>
      apply ne_timedOut_of_phase phase_reads
      rw [phase_decrypted hdecrypts.tls]
      exact hstate

/-- Only the sweep ends a connection with an operation in flight. -/
theorem Took.inFlight_of_terminal {op : IoOp} {code : Int} {data : Bytes}
    (h : Took identity w (.completion env op code data nowMs) w') (hflight : Flight w)
    (hover : w'.conn.state.terminal = true) : w'.inFlight = [] := by
  apply (h.flight hflight).idle
  cases h with
  | completes _ _ _ _ _ hlive hdelivers honIo =>
      have hne : w'.conn.state ≠ .timedOut := by
        apply honIo.ne_timedOut
        rw [deliver_state]
        exact (ne_of_live hlive).2
      cases hstate : w'.conn.state with
      | ready => exact .inl rfl
      | error => exact .inr rfl
      | timedOut => exact absurd hstate hne
      | _ => rw [hstate] at hover; cases hover

end Exits

end Conn

namespace IocpLoop

open Orchestrator Loop

/-! ### What is owed is for the attempts in the slots -/

/-- What the OS owes is for attempts that are in their slots. -/
def Current (slots : List (Slot E)) (owed : List Packet) : Prop :=
  ∀ packet ∈ owed, ∃ slot ∈ slots[packet.slot]?, slot.inUse = true ∧ slot.serial = packet.serial

section Current

variable {slots : List (Slot E)} {owed : List Packet} {i : Nat} {slot slot' : Slot E}

theorem Current.set (h : Current slots owed)
    (hi : i ∈ owed.map Packet.slot → slot'.inUse = true ∧ ∀ slot ∈ slots[i]?,
      slot'.serial = slot.serial) : Current (slots.set i slot') owed := by
  intro packet hpacket
  obtain ⟨slot, hslot, hinUse, hserial⟩ := h packet hpacket
  by_cases heq : packet.slot = i
  · obtain ⟨hinUse', hserial'⟩ := hi (List.mem_map.2 ⟨packet, hpacket, heq⟩)
    rw [heq] at hslot ⊢
    refine ⟨slot', ?_, hinUse', (hserial' slot hslot).trans hserial⟩
    have hlt := (List.getElem?_eq_some_iff.1 hslot).1
    simp [hlt]
  · refine ⟨slot, ?_, hinUse, hserial⟩
    rw [List.getElem?_set_ne (Ne.symm heq)]
    exact hslot

theorem Current.set_of_notMem (h : Current slots owed) (hi : i ∉ owed.map Packet.slot)
    (slot' : Slot E) : Current (slots.set i slot') owed :=
  h.set fun hmem => absurd hmem hi

theorem Current.notMem (h : Current slots owed) (hslot : slots[i]? = some slot)
    (hvacant : slot.inUse = false) : i ∉ owed.map Packet.slot := by
  intro hi
  obtain ⟨packet, hpacket, rfl⟩ := List.mem_map.1 hi
  obtain ⟨other, hother, hinUse, -⟩ := h packet hpacket
  obtain rfl := Option.some.inj (hother.symm.trans hslot)
  rw [hvacant] at hinUse
  cases hinUse

theorem Current.cons (h : Current slots owed) (op : IoOp) (hslot : slots[i]? = some slot)
    (hinUse : slot.inUse = true) : Current slots (⟨i, slot.serial, op⟩ :: owed) := by
  intro packet hpacket
  cases List.mem_cons.1 hpacket with
  | inl heq => exact ⟨slot, by rw [heq]; exact hslot, hinUse, by rw [heq]⟩
  | inr hmem => exact h packet hmem

end Current

/-- What holds at every turn of a run without timeouts. -/
structure Settled (l : IocpLoop E) : Prop where
  kept : Kept (fun _ _ => True) l.loop
  current : Current l.loop.orch.slots l.owed
  once : (l.owed.map Packet.slot).Nodup
  apart : ∀ results nowMs, l.loop.pc = .dispatch results nowMs →
    ∀ c ∈ results, c.slot ∉ l.owed.map Packet.slot

variable {l l' : IocpLoop E}

theorem Settled.proper (h : Settled l) {turn : IocpTurn E} (hadm : admissible l turn) :
    Proper l turn := by
  constructor
  · intro i hi packet hpacket heq
    have hmem : i ∈ l.owed.map Packet.slot := List.mem_map.2 ⟨packet, hpacket, heq⟩
    unfold rewrites at hi
    split at hi
    · split at hi
      · rename_i j nowMs hpc
        split at hi
        · rename_i slot hslot
          split at hi
          · rename_i hfree
            cases hi
            exact h.current.notMem hslot (by simpa using hfree.1) hmem
          · cases hi
        · cases hi
      · cases hi
    · split at hi
      · rename_i c rest nowMs hpc
        cases hi
        exact h.apart _ _ hpc c List.mem_cons_self hmem
      · cases hi
    · cases hi
  · cases turn with
    | other | run => trivial
    | polled entries nowMs =>
        intro entry hentry
        exact h.current _ (hadm.2.2.1.subset (List.mem_map_of_mem hentry))

/-! ### What a poll reports -/

theorem mem_completions {entries : List (Packet × Overlapped)} {c : Completion}
    (h : c ∈ l.completions entries) : ∃ entry ∈ entries, ∃ slot ∈ l.loop.orch.slots[entry.1.slot]?,
      c.slot = entry.1.slot ∧ c.op = slot.world.conn.op
        ∧ (entry.2 = .succeeded c.data ∧ c.result = 0
          ∨ entry.2 = .failed c.result ∧ c.data = []) := by
  obtain ⟨⟨packet, answer⟩, hentry, hc⟩ := List.mem_filterMap.1 h
  obtain ⟨slot, hslot, hc⟩ := Option.map_eq_some_iff.1 hc
  refine ⟨(packet, answer), hentry, slot, hslot, ?_⟩
  cases answer with
  | succeeded data =>
      subst hc
      exact ⟨rfl, rfl, .inl ⟨rfl, rfl⟩⟩
  | failed error =>
      subst hc
      exact ⟨rfl, rfl, .inr ⟨rfl, rfl⟩⟩

theorem completions_slots (entries : List (Packet × Overlapped)) :
    ((l.completions entries).map Completion.slot).Sublist
      ((entries.map Prod.fst).map Packet.slot) := by
  induction entries with
  | nil => exact List.nil_sublist _
  | cons entry rest ih =>
      obtain ⟨packet, answer⟩ := entry
      rw [completions, List.filterMap_cons]
      cases hc : handleCompletion l.loop.orch packet answer with
      | none => exact ih.cons _
      | some c =>
          have hslot : c.slot = packet.slot := by
            obtain ⟨slot, -, rfl⟩ := Option.map_eq_some_iff.1 hc
            cases answer <;> rfl
          simp only [List.map_cons, hslot]
          exact ih.cons_cons _

/-- An attempt in its slot holds the operation it has in memory, and no other. -/
theorem Settled.inFlight (h : Settled l) {i : Nat} {slot : Slot E}
    (hslot : l.loop.orch.slots[i]? = some slot) (hinUse : slot.inUse = true) :
    Conn.Flight slot.world ∧ slot.world.inFlight = [slot.world.conn.op] := by
  obtain ⟨⟨hreach, -⟩, hlive⟩ := h.kept.tended.inUse slot (List.mem_of_getElem? hslot) hinUse
  have hflight := Conn.flight_of_reachable hreach.reachable
  exact ⟨hflight, (hflight.live hlive).1⟩

/-- What IOCP reports is what the loop expects of a reactor. -/
theorem Settled.polls (h : Settled l) {entries : List (Packet × Overlapped)} {nowMs : Nat}
    (hadm : admissible l (.polled entries nowMs)) : Polls l.loop.orch (l.completions entries) := by
  obtain ⟨-, hlength, howed, hfits⟩ := hadm
  constructor
  · calc (l.completions entries).length ≤ entries.length := List.length_filterMap_le ..
      _ ≤ pollBatch := Nat.le_trans hlength (Nat.min_le_right ..)
  · have hslots : ((l.completions entries).map Completion.slot).Nodup := by
      apply List.Nodup.sublist (completions_slots entries)
      obtain ⟨packets, hperm, hsub⟩ := howed
      rw [← (hperm.map Packet.slot).nodup_iff]
      exact h.once.sublist (hsub.map Packet.slot)
    rw [List.nodup_iff_pairwise_ne, List.pairwise_map] at hslots ⊢
    exact hslots.imp fun hne heq => hne (congrArg Prod.fst heq)
  · intro c hc
    obtain ⟨entry, hentry, slot, hslot, hcslot, hop, hdata⟩ := mem_completions hc
    obtain ⟨other, hother, hinUse, -⟩ := h.current _ (howed.subset (List.mem_map_of_mem hentry))
    obtain rfl := Option.some.inj (hother.symm.trans hslot)
    have hfit := hfits entry hentry other hslot
    refine ⟨other, by rw [hcslot]; exact hslot, hinUse, ?_⟩
    constructor
    · rw [(h.inFlight hslot hinUse).2, hop]
      exact List.mem_singleton_self _
    · rcases hdata with ⟨hentry, -⟩ | ⟨-, hnone⟩
      · rw [hentry] at hfit
        rw [hop]
        exact hfit.1
      · rw [hnone]
        exact Nat.zero_le _
    · intro hresult
      rcases hdata with ⟨-, hzero⟩ | ⟨-, hnone⟩
      · exact absurd hzero hresult
      · exact hnone
    · intro hkind
      rcases hdata with ⟨hentry, -⟩ | ⟨-, hnone⟩
      · rw [hentry] at hfit
        rw [hop] at hkind ⊢
        exact hfit.2 hkind
      · rw [hnone]
        unfold Connection.contents
        split <;> simp

/-! ### Turns -/

/-- No sweep finds a connection behind its deadline. -/
def Punctual (l : IocpLoop E) : IocpTurn E → Prop
  | .other .sweep =>
      match l.loop.pc with
      | .sweep i nowMs => ∀ slot ∈ l.loop.orch.slots[i]?, slot.inUse = true →
          nowMs < slot.world.conn.deadlineMs
      | _ => True
  | _ => True

theorem Settled.of_slots (h : Settled l) {loop : Loop E} (hkept : Kept (fun _ _ => True) loop)
    (hslots : loop.orch.slots = l.loop.orch.slots)
    (hpc : ∀ results nowMs, loop.pc = .dispatch results nowMs → loop.pc = l.loop.pc) :
    Settled ⟨loop, l.owed⟩ where
  kept := hkept
  current := by
    rw [hslots]
    exact h.current
  once := h.once
  apart results nowMs heq := h.apart results nowMs ((hpc results nowMs heq).symm.trans heq)

theorem leaveFill_ne_dispatch (loop : Loop E) (nowMs now : Nat) (results : List Completion) :
    (loop.leaveFill now).pc ≠ .dispatch results nowMs := by
  intro h
  rcases loop.leaveFill_pc now with hpc | hpc <;>
  · rw [hpc] at h
    cases h

theorem taken_fill_of_started {before after : Loop E} {i nowMs : Nat} {slot slot' : Slot E}
    (socketMade : Bool) (syscalls : ConnectSyscalls) (hpc : before.pc = .fill i nowMs)
    (hslot : before.orch.slots[i]? = some slot) (hslot' : after.orch.slots[i]? = some slot')
    (hvacant : slot.inUse = false) (hinUse : slot'.inUse = true) :
    taken before after (.fill socketMade syscalls)
      = slot'.world.inFlight.map fun op => ⟨i, slot'.serial, op⟩ := by
  simp [taken, hpc, hslot, hslot', hvacant, hinUse]

theorem taken_fill_of_not_started {before after : Loop E} {i nowMs : Nat} (socketMade : Bool)
    (syscalls : ConnectSyscalls) (hpc : before.pc = .fill i nowMs)
    (h : ∀ slot ∈ before.orch.slots[i]?, slot.inUse = false →
      ∀ slot' ∈ after.orch.slots[i]?, slot'.inUse = false) :
    taken before after (.fill socketMade syscalls) = [] := by
  unfold taken
  simp only [hpc]
  split
  · rename_i slot slot' hslot hslot'
    cases hvacant : slot.inUse with
    | true => rfl
    | false => simp [h slot hslot hvacant slot' hslot']
  · rfl

theorem Settled.fill (h : Settled l) {socketMade : Bool} {syscalls : ConnectSyscalls}
    {i nowMs : Nat} {loop : Loop E} (hpc : l.loop.pc = .fill i nowMs)
    (hfills : Fills l.loop i nowMs socketMade syscalls loop)
    (hkept : Kept (fun _ _ => True) loop) :
    Settled ⟨loop, taken l.loop loop (.fill socketMade syscalls) ++ l.owed⟩ := by
  have hnothing (hslots : loop.orch.slots = l.loop.orch.slots)
      (hdispatch : ∀ results nowMs, loop.pc ≠ .dispatch results nowMs) :
      Settled ⟨loop, taken l.loop loop (.fill socketMade syscalls) ++ l.owed⟩ := by
    rw [taken_fill_of_not_started socketMade syscalls hpc]
    · exact h.of_slots hkept hslots fun results nowMs heq => absurd heq (hdispatch results nowMs)
    · intro slot hslot hvacant slot' hslot'
      rw [hslots] at hslot'
      rw [← Option.some.inj (hslot.symm.trans hslot'), hvacant]
  cases hfills with
  | passes => exact hnothing rfl nofun
  | leaves => exact hnothing (by simp) (fun _ _ => leaveFill_ne_dispatch _ _ _ _)
  | starts slot orch hslot hvacant _ hstart =>
      have hfree := h.current.notMem hslot hvacant
      have hlt := (List.getElem?_eq_some_iff.1 hslot).1
      cases startSlot_ok h.kept.tended.context hstart with
      | accepted w hstarted hlive =>
          have hreach : Conn.Reachable [] w := ⟨w, [], hstarted, .nil⟩
          have hinFlight := ((Conn.flight_of_reachable hreach).live hlive).1
          rw [taken_fill_of_started socketMade syscalls hpc hslot (List.getElem?_set_self hlt)
            hvacant rfl, hinFlight, List.map_singleton, List.singleton_append]
          constructor
          · exact hkept
          · apply Current.cons _ _ (List.getElem?_set_self hlt) rfl
            exact h.current.set_of_notMem hfree _
          · rw [List.map_cons, List.nodup_cons]
            exact ⟨hfree, h.once⟩
          · nofun
  | refused slot orch hslot hvacant _ hstart =>
      have hfree := h.current.notMem hslot hvacant
      have hlt := (List.getElem?_eq_some_iff.1 hslot).1
      cases startSlot_ok h.kept.tended.context hstart with
      | noSocket => exact hnothing (by simp [refuse]) (fun _ _ => leaveFill_ne_dispatch _ _ _ _)
      | refused w =>
          rw [taken_fill_of_not_started socketMade syscalls hpc]
          · constructor
            · exact hkept
            · rw [leaveFill_orch]
              exact h.current.set_of_notMem hfree _
            · exact h.once
            · exact fun _ _ heq => absurd heq (leaveFill_ne_dispatch _ _ _ _)
          · intro other _ _ slot' hslot'
            rw [leaveFill_orch] at hslot'
            rw [← Option.some.inj ((List.getElem?_set_self hlt).symm.trans hslot'), hvacant]

theorem taken_handle {before after : Loop E} {c : Completion} {rest : List Completion}
    {nowMs : Nat} {slot slot' : Slot E} (env : Env E)
    (hpc : before.pc = .dispatch (c :: rest) nowMs)
    (hslot : before.orch.slots[c.slot]? = some slot)
    (hslot' : after.orch.slots[c.slot]? = some slot') :
    taken before after (.handle env)
      = (slot'.world.inFlight.diff (slot.world.inFlight.erase c.op)).map fun op =>
          ⟨c.slot, slot'.serial, op⟩ := by
  simp [taken, hpc, hslot, hslot']

theorem Settled.handle (h : Settled l) {env : Env E} {results : List Completion} {nowMs : Nat}
    {loop : Loop E} (hpc : l.loop.pc = .dispatch results nowMs)
    (hdispatches : Dispatches l.loop nowMs env results loop)
    (hkept : Kept (fun _ _ => True) loop) :
    Settled ⟨loop, taken l.loop loop (.handle env) ++ l.owed⟩ := by
  cases hdispatches with
  | done =>
      have hnothing : taken l.loop { l.loop with pc := .sweep 0 nowMs } (.handle env) = [] := by
        simp [taken, hpc]
      rw [hnothing]
      exact h.of_slots hkept rfl nofun
  | nowhere c rest hslot =>
      obtain ⟨slot, hslot', -⟩ := (h.kept.pending _ _ hpc).2 c List.mem_cons_self
      cases hslot'.symm.trans hslot
  | tends c rest slot orch hslot htends =>
      obtain ⟨hnodup, -⟩ := h.kept.pending _ _ hpc
      rw [List.map_cons, List.nodup_cons] at hnodup
      obtain ⟨hinUse, hadm⟩ := h.kept.head hpc hslot env
      obtain ⟨hflight, hone⟩ := h.inFlight hslot hinUse
      have hlent : Conn.Flight { slot.world with caps := l.loop.orch.caps } :=
        ⟨hflight.idle, hflight.live⟩
      have hop : c.op = slot.world.conn.op := (hlent.deliver hadm.1 hadm.2).1
      have herase : slot.world.inFlight.erase c.op = [] := by simp [hone, hop]
      have hfree : c.slot ∉ l.owed.map Packet.slot := h.apart _ _ hpc c List.mem_cons_self
      have hlt := (List.getElem?_eq_some_iff.1 hslot).1
      have hrest : ∀ c' ∈ rest, c'.slot ≠ c.slot ∧ c'.slot ∉ l.owed.map Packet.slot := by
        intro c' hc'
        refine ⟨fun heq => hnodup.1 ?_, h.apart _ _ hpc c' (List.mem_cons_of_mem _ hc')⟩
        rw [← heq]
        exact List.mem_map_of_mem hc'
      have hsteps {w : World E} (hw : Conn.step l.loop.orch.config.ehloIdentity
          { slot.world with caps := l.loop.orch.caps }
          (.completion env c.op c.result c.data nowMs) = .ok w) :
          (Conn.machine E l.loop.orch.config.ehloIdentity).Steps
            { slot.world with caps := l.loop.orch.caps }
            (.completion env c.op c.result c.data nowMs) w := ⟨hadm, hw⟩
      cases htends with
      | goesOn w hw hlive =>
          have htook := Conn.took_of_steps (hsteps hw)
          have hset : (l.loop.orch.slots.set c.slot { slot with world := w })[c.slot]?
              = some { slot with world := w } := List.getElem?_set_self hlt
          rw [taken_handle env hpc hslot hset, herase, List.diff_nil,
            ((htook.flight hlent).live hlive).1, List.map_singleton, List.singleton_append]
          constructor
          · exact hkept
          · exact (h.current.set_of_notMem hfree _).cons w.conn.op hset hinUse
          · rw [List.map_cons, List.nodup_cons]
            exact ⟨hfree, h.once⟩
          · intro results' nowMs' hpc' c' hc'
            cases hpc'
            rw [List.map_cons, List.mem_cons, not_or]
            exact hrest c' hc'
      | finishes w hw hover _ =>
          have htook := Conn.took_of_steps (hsteps hw)
          rw [taken_handle env hpc hslot (List.getElem?_set_self hlt), herase, List.diff_nil]
          simp only [htook.inFlight_of_terminal hlent hover, List.map_nil, List.nil_append]
          constructor
          · exact hkept
          · exact h.current.set_of_notMem hfree _
          · exact h.once
          · intro results' nowMs' hpc' c' hc'
            cases hpc'
            exact (hrest c' hc').2

/-- A sweep that finds a connection within its deadline leaves it as it is. -/
theorem Settled.sweep (h : Settled l) {i nowMs : Nat} {loop : Loop E}
    (hpc : l.loop.pc = .sweep i nowMs) (hpunctual : Punctual l (.other .sweep))
    (hsweeps : Sweeps l.loop i nowMs loop) (hkept : Kept (fun _ _ => True) loop) :
    Settled ⟨loop, l.owed⟩ := by
  cases hsweeps with
  | done => exact h.of_slots hkept rfl nofun
  | passes => exact h.of_slots hkept rfl nofun
  | tends slot orch hslot hinUse htends =>
      unfold Punctual at hpunctual
      simp only [hpc] at hpunctual
      have hlate := hpunctual slot hslot hinUse
      obtain ⟨-, hlive⟩ := h.kept.tended.inUse slot (List.mem_of_getElem? hslot) hinUse
      have hsame {w : World E} (hw : Conn.step l.loop.orch.config.ehloIdentity
          { slot.world with caps := l.loop.orch.caps } (.timeout nowMs) = .ok w) :
          w = { slot.world with caps := l.loop.orch.caps } := by
        have hsteps : (Conn.machine E l.loop.orch.config.ehloIdentity).Steps
            { slot.world with caps := l.loop.orch.caps } (.timeout nowMs) w := ⟨trivial, hw⟩
        cases Conn.took_of_steps hsteps with
        | inTime => rfl
        | expires _ _ hdeadline => exact absurd hdeadline (Nat.not_le.2 hlate)
      cases htends with
      | goesOn w hw _ =>
          constructor
          · exact hkept
          · apply h.current.set
            intro _
            refine ⟨hinUse, fun other hother => ?_⟩
            rw [← Option.some.inj (hslot.symm.trans hother)]
          · exact h.once
          · nofun
      | finishes w hw hover _ =>
          rw [hsame hw] at hover
          cases hlive.symm.trans hover

theorem Settled.step (h : Settled l) {turn : IocpTurn E} (hadm : admissible l turn)
    (hpunctual : Punctual l turn) (hstep : IocpLoop.step l turn = .ok l') : Settled l' := by
  cases turn with
  | run totalTarget =>
      cases hstep
      exact ⟨h.kept.again totalTarget, h.current, h.once, nofun⟩
  | polled entries nowMs =>
      have hpolls := h.polls hadm
      obtain ⟨loop, hloop, htaken⟩ := bind_eq_ok.1 hstep
      cases htaken
      have hkept := h.kept.turned ⟨hadm.1, hpolls⟩ hloop
      obtain ⟨hfits, -, howed, -⟩ := hadm
      cases turns_of_step hfits hloop
      have hnodup : l.owed.Nodup := List.Nodup.of_map _ h.once
      constructor
      · exact hkept
      · exact fun packet hpacket => h.current packet (List.diff_subset _ _ hpacket)
      · exact h.once.sublist ((List.diff_sublist _ _).map _)
      · intro results nowMs' hdispatch c hc hmem
        cases hdispatch
        obtain ⟨entry, hentry, -, -, hcslot, -⟩ := mem_completions hc
        obtain ⟨packet, hpacket, hslot⟩ := List.mem_map.1 hmem
        rw [hnodup.mem_sdiff_iff] at hpacket
        have hin : entry.1 ∈ entries.map Prod.fst := List.mem_map_of_mem hentry
        apply hpacket.2
        rw [List.inj_on_of_nodup_map h.once hpacket.1 (howed.subset hin) (hslot.trans hcslot)]
        exact hin
  | other turn =>
      obtain ⟨loop, hloop, htaken⟩ := bind_eq_ok.1 hstep
      cases htaken
      have hkept := h.kept.turned hadm.1 hloop
      obtain ⟨⟨hfits, -⟩, hnot⟩ := hadm
      cases turns_of_step hfits hloop with
      | stops => exact h.of_slots hkept rfl fun _ _ _ => rfl
      | returns | iterates => exact h.of_slots hkept rfl nofun
      | fills _ _ _ _ hpc hfills => exact h.fill hpc hfills hkept
      | polls => cases hnot
      | dispatches _ _ _ hpc hdispatches => exact h.handle hpc hdispatches hkept
      | sweeps _ _ hpc hsweeps => exact h.sweep hpc hpunctual hsweeps hkept

/-- **Whose a completion is.** While no sweep finds a connection behind its deadline, what a poll
reports was submitted by the attempts in the slots, and no operation is written to while the OS owes
its completion. -/
theorem completion_of_occupant {orch : Orchestrator E} {totalTarget : UInt64}
    (hcreated : orch.Created) (h : ReachableWhen Punctual orch totalTarget l) {turn : IocpTurn E}
    (hadm : (machine E).admissible l turn) : Proper l turn := by
  obtain ⟨turns, run⟩ := h
  have hbegin : Settled (begin orch totalTarget) := by
    have hreach : Loop.Reachable orch totalTarget (Loop.begin orch totalTarget) := ⟨[], .nil⟩
    exact ⟨hreach.kept hcreated, nofun, List.nodup_nil, nofun⟩
  have hsettled : Settled l := by
    apply run.invariant hbegin
    intro l turn l' hsettled hsteps
    exact hsettled.step hsteps.1.1 hsteps.1.2 hsteps.2
  exact hsettled.proper hadm

/-! ### A timeout, a recycled slot, and the packet of the attempt before -/

instance (l : IocpLoop E) : (turn : IocpTurn E) → Decidable (Punctual l turn)
  | .other .sweep =>
      match hpc : l.loop.pc with
      | .sweep i nowMs => decidable_of_iff (∀ slot ∈ l.loop.orch.slots[i]?, slot.inUse = true →
          nowMs < slot.world.conn.deadlineMs) (by simp [Punctual, hpc])
      | .top | .fill _ _ | .poll _ | .dispatch _ _ | .returned =>
          .isTrue (by simp [Punctual, hpc])
  | .other .requestStop | .other (.iterate _) | .other (.fill _ _) | .other (.polled _ _)
  | .other (.handle _) | .polled _ _ | .run _ => .isTrue trivial

abbrev SampleIocp := IocpLoop (recordEngine Conn.sampleInfo)
abbrev SampleIocpTurn := IocpTurn (recordEngine Conn.sampleInfo)

/-- A run of a sample orchestrator of one slot for two attempts. -/
def playIocp (M : Machine SampleIocp SampleIocpTurn Abort)
    [∀ l turn, Decidable (M.admissible l turn)] (turns : List SampleIocpTurn) : Option SampleIocp :=
  match createSample .none with
  | .ok (some orch) => M.exec (begin orch 2) turns
  | _ => none

theorem run_of_playIocp {M : Machine SampleIocp SampleIocpTurn Abort}
    [∀ l turn, Decidable (M.admissible l turn)] {turns : List SampleIocpTurn} {l : SampleIocp}
    (h : playIocp M turns = some l) :
    ∃ orch, orch.Created ∧ M.Run (begin orch 2) turns l := by
  unfold playIocp at h
  split at h
  · rename_i orch hcreate
    exact ⟨orch, ⟨_, _, _, _, _, _, _, _, _, hcreate⟩, Machine.run_of_exec h⟩
  · cases h

/-- An iteration up to its poll, with the one slot started in it. -/
def startTurns (nowMs : Nat) : List SampleIocpTurn :=
  [.other (.iterate nowMs), .other (.fill true ⟨true, true⟩), .other (.fill true ⟨true, true⟩)]

/-- The connect of the first attempt. -/
def firstConnect : Packet := ⟨0, 0, ⟨.connect, .null, 0⟩⟩

/-- The end of an iteration, behind the last completion. -/
def sweepTurns : List SampleIocpTurn :=
  [.other (.handle (Conn.accepts _)), .other .sweep, .other .sweep]

/-- The read of the first attempt. -/
def firstRead : Packet := ⟨0, 0, ⟨.read, .readBuf 0, readBufSize⟩⟩

/-- An iteration in which nothing is reported, and whose sweep comes a millisecond before the
deadline; then the connect is reported, and the slot is swept again; and then the greeting. -/
def punctualTurns : List SampleIocpTurn :=
  startTurns 0 ++ [.polled [] 999] ++ sweepTurns ++ startTurns 999
    ++ [.polled [(firstConnect, .succeeded [])] 999, .other (.handle (Conn.accepts _))]
    ++ sweepTurns ++ startTurns 999

theorem completion_of_occupant_greeting :
    ∃ l, playIocp ((machine _).restrict Punctual) punctualTurns = some l ∧ l.owed = [firstRead]
      ∧ (machine _).admissible l (.polled [(firstRead, .succeeded (bytes "220 mx\r\n"))] 999)
      ∧ Proper l (.polled [(firstRead, .succeeded (bytes "220 mx\r\n"))] 999) := by
  have hplay : (playIocp ((machine _).restrict Punctual) punctualTurns).any (fun l =>
      l.owed = [firstRead]
        ∧ admissible l (.polled [(firstRead, .succeeded (bytes "220 mx\r\n"))] 999)) = true := by
    decide +kernel
  obtain ⟨l, hl, hchecked⟩ := (Option.any_eq_true _ _).mp hplay
  obtain ⟨howed, hadm⟩ := of_decide_eq_true hchecked
  obtain ⟨orch, hcreated, run⟩ := run_of_playIocp hl
  exact ⟨l, hl, howed, hadm, completion_of_occupant hcreated ⟨_, run⟩ hadm⟩

/-- The connect of the first attempt is pending when its deadline passes; the slot goes to the
second attempt; and then the OS reports that the first connect was aborted. -/
theorem late_packet :
    ¬ ∀ (orch : Orchestrator (recordEngine Conn.sampleInfo)) (totalTarget : UInt64) (l : SampleIocp),
      orch.Created → Reachable orch totalTarget l →
        ∀ turn, (machine _).admissible l turn → Proper l turn := by
  intro h
  have hplay : (playIocp (machine _) (startTurns 0 ++ [.polled [] 1000] ++ sweepTurns
        ++ startTurns 1000)).map
      (fun l => decide (admissible l (.polled [(firstConnect, .failed 995)] 1000)
        ∧ ¬ l.Occupies firstConnect)) = some true := by
    decide +kernel
  obtain ⟨l, hl, hlate⟩ := Option.map_eq_some_iff.1 hplay
  obtain ⟨orch, hcreated, run⟩ := run_of_playIocp hl
  obtain ⟨hadm, hnot⟩ := of_decide_eq_true hlate
  have hproper := h orch 2 l hcreated ⟨_, run⟩ (.polled [(firstConnect, .failed 995)] 1000) hadm
  exact hnot (hproper.2 _ List.mem_cons_self)

end IocpLoop

end SmtpClient
