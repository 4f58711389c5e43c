import SmtpClient.Proof.Accounting
import SmtpClient.Proof.Received
import SmtpClient.Estate
import SmtpClient.RecordEngine

/-!
# Everything is released exactly once, unless the slots cannot be allocated

What an orchestrator has acquired and not released is what its slots own, and what it was created
with. A call on a connection creates an engine only where there was none, a slot that is given up
gives up what it owns, and what is left goes when the orchestrator is destroyed. Its creation
unwinds what it has acquired at each allocation that fails but the last: there the TLS context
stays.
-/

namespace SmtpClient

open scoped List

variable {E : TlsEngine}

/-! ### A connection creates at most one engine -/

namespace Conn

open Protocol

theorem reception_handshake (trace : List Effect) :
    (reception trace).1 = true ↔ .handshake ∈ actions trace := by
  induction trace using List.reverseRecOn with
  | nil => simp [reception]
  | append_singleton trace effect ih =>
      rw [reception_append, actions_append, List.mem_append, ← ih]
      change (Effect.receive (reception trace) effect).1 = true ↔ _
      cases effect with
      | completion kind result data =>
          cases kind with
          | read =>
              cases hengine : (reception trace).1 <;>
                simp [Effect.receive, Effect.action, hengine]
          | connect | write => simp [Effect.receive, Effect.action]
      | submitWrite payload =>
          cases payload with
          | command plain encrypted =>
              by_cases hplain : plain = bytes "STARTTLS\r\n" <;>
                simp [Effect.receive, Effect.action, hplain]
          | handshakeOutput => simp [Effect.receive, Effect.action]
      | tlsCreate hostname trust created =>
          cases created <;> simp [Effect.receive, Effect.action]
      | tlsDecrypt input room status chunk =>
          cases status <;> simp [Effect.receive, Effect.action]
      | _ => simp [Effect.receive, Effect.action]

theorem count_handshake_le {mode : TlsMode} {acts : List Action} (h : Lawful mode acts) :
    acts.count .handshake ≤ 1 := by
  obtain ⟨word, hword, hacts⟩ := h
  have hone : ∀ mode, ∀ word ∈ words mode, word.count .handshake ≤ 1 := by
    intro mode
    cases mode <;> decide
  calc acts.count .handshake ≤ word.count .handshake := hacts.sublist.count_le _
    _ ≤ 1 := hone mode word hword

theorem enginesCreated_of_reachable {identity : Bytes} {w : World E} (h : Reachable identity w) :
    Estate.enginesCreated w.trace = if w.conn.tls.isSome then 1 else 0 := by
  have hengine := (hears_of_reachable h).engine
  have hle := count_handshake_le (sound_of_reachable h).lawful
  have hmem := reception_handshake w.trace
  rw [hengine, ← List.count_pos_iff] at hmem
  rw [Estate.enginesCreated]
  cases htls : w.conn.tls.isSome with
  | true =>
      have hpos := hmem.1 htls
      rw [if_pos rfl]
      omega
  | false =>
      have hzero := mt hmem.2 (by simp [htls])
      rw [if_neg (by simp)]
      omega

/-- A connection keeps the engine it has. -/
theorem isSome_of_steps {identity : Bytes} {w w' : World E} {event : Event E}
    (h : Reachable identity w) (hstep : (machine E identity).Steps w event w')
    (htls : w.conn.tls.isSome = true) : w'.conn.tls.isSome = true := by
  have hbefore := enginesCreated_of_reachable h
  have hafter := enginesCreated_of_reachable (h.step hstep)
  obtain ⟨acts, hacts, -⟩ := (took_of_steps hstep).step (sound_of_reachable h)
  rw [Estate.enginesCreated, hacts, List.count_append] at hafter
  rw [Estate.enginesCreated, if_pos htls] at hbefore
  cases htls' : w'.conn.tls.isSome with
  | true => rfl
  | false =>
      rw [if_neg (by simp [htls'])] at hafter
      omega

end Conn

namespace Estate

open Orchestrator Loop

/-! ### What the slots own -/

section Cells

variable {slots : List (Slot E)} {cells : List Handles} {i : Nat} {slot slot' : Slot E}
  {handles handles' : Handles}

/-- What all slots own together. -/
def cellsOwn (slots : List (Slot E)) (cells : List Handles) : List Resource :=
  (slots.zip cells).flatMap fun cell => slotOwns cell.1 cell.2

theorem zip_set {α β : Type} (l : List α) (l' : List β) (i : Nat) (a : α) (b : β) :
    (l.set i a).zip (l'.set i b) = (l.zip l').set i (a, b) := by
  induction l generalizing l' i with
  | nil => rfl
  | cons c l ih =>
      cases l' with
      | nil => simp
      | cons d l' =>
          cases i with
          | zero => rfl
          | succ i => simp [ih]

/-- What one slot owns, and what the others do. -/
theorem cellsOwn_split (hslot : slots[i]? = some slot) (hhandles : cells[i]? = some handles) :
    ∃ rest, cellsOwn slots cells ~ slotOwns slot handles ++ rest
      ∧ ∀ slot' handles', cellsOwn (slots.set i slot') (cells.set i handles')
        ~ slotOwns slot' handles' ++ rest := by
  obtain ⟨hlt, hcell⟩ := List.getElem?_eq_some_iff.1
    (List.getElem?_zip_eq_some.2 ⟨hslot, hhandles⟩ : (slots.zip cells)[i]? = some (slot, handles))
  refine ⟨((slots.zip cells).eraseIdx i).flatMap fun cell => slotOwns cell.1 cell.2, ?_, ?_⟩
  · have hperm := (List.getElem_cons_eraseIdx_perm hlt).symm.flatMap_right
      fun cell => slotOwns cell.1 cell.2
    rwa [hcell, List.flatMap_cons] at hperm
  · intro slot' handles'
    have hperm := (List.set_perm_cons_eraseIdx hlt (slot', handles')).flatMap_right
      fun cell => slotOwns cell.1 cell.2
    rwa [← zip_set, List.flatMap_cons] at hperm

theorem set_getElem?_self {α : Type} {l : List α} {a : α} (h : l[i]? = some a) : l.set i a = l := by
  obtain ⟨hlt, rfl⟩ := List.getElem?_eq_some_iff.1 h
  exact List.set_getElem_self hlt

theorem slotOwns_vacant (h : slot.inUse = false) : slotOwns slot handles = [] := by
  rw [slotOwns, h, if_neg nofun]

end Cells

/-- What an orchestrator owns besides. -/
def fixture (config : Config E) : List Resource :=
  [.slots] ++ (if config.tlsCtx.isSome then [.tlsCtx] else []) ++ [.reactor, .orchestrator]

theorem owns_eq (x : Estate E) :
    x.owns = cellsOwn x.loop.orch.slots x.handles ++ fixture x.loop.orch.config := by
  simp [owns, cellsOwn, fixture]

/-! ### Every turn keeps the books -/

structure Kept (x : Estate E) : Prop where
  loop : Loop.Kept (fun _ _ => True) x.loop
  cells : x.handles.length = x.loop.orch.slots.length
  custody : Custody x.log x.owns
  fresh : ∀ n, .acquired (.socket n) ∈ x.log ∨ .acquired (.engine n) ∈ x.log → n < x.made

variable {x x' : Estate E}

theorem Kept.handles (h : Kept x) {i : Nat} {slot : Slot E}
    (hslot : x.loop.orch.slots[i]? = some slot) : ∃ handles, x.handles[i]? = some handles := by
  have hlt : i < x.handles.length := by
    rw [h.cells]
    exact (List.getElem?_eq_some_iff.1 hslot).1
  exact ⟨_, List.getElem?_eq_getElem hlt⟩

/-- A turn that touches no slot. -/
theorem Kept.passes (h : Kept x) {after : Loop E} (hkept : Loop.Kept (fun _ _ => True) after)
    (hslots : after.orch.slots = x.loop.orch.slots)
    (hconfig : after.orch.config = x.loop.orch.config) : Kept { x with loop := after } where
  loop := hkept
  cells := by
    rw [hslots]
    exact h.cells
  custody := by
    rw [owns_eq, hslots, hconfig, ← owns_eq]
    exact h.custody
  fresh := h.fresh

/-- What `smtp_orch_start_slot` leaves in its slot. -/
theorem starts_slot {orch orch' : Orchestrator E} {i : Nat} {slot : Slot E} {inFlight : Bool}
    (hslot : orch.slots[i]? = some slot) (hvacant : slot.inUse = false)
    (h : Starts orch i slot orch' inFlight) :
    ∃ slot', orch'.slots = orch.slots.set i slot' ∧ slot'.inUse = inFlight
      ∧ (inFlight = true → slot'.world.conn.tls = none) := by
  cases h with
  | noSocket => exact ⟨slot, (set_getElem?_self hslot).symm, hvacant, nofun⟩
  | refused w => exact ⟨{ slot with world := w }, rfl, hvacant, nofun⟩
  | accepted w hstarted =>
      refine ⟨_, rfl, rfl, fun _ => ?_⟩
      obtain ⟨_, _, _, _, _, _, _, _, -, -, rfl⟩ := hstarted.shape
      rfl

theorem Kept.startSlot (h : Kept x) {i : Nat} {slot : Slot E} {after : Loop E} {inFlight : Bool}
    (hslot : x.loop.orch.slots[i]? = some slot) (hvacant : slot.inUse = false)
    (hstarts : Starts x.loop.orch i slot after.orch inFlight)
    (hkept : Loop.Kept (fun _ _ => True) after) : Kept (x.startSlot i after) := by
  obtain ⟨handles, hhandles⟩ := h.handles hslot
  obtain ⟨slot', hslots, hinUse, htls⟩ := starts_slot hslot hvacant hstarts
  have hlt := (List.getElem?_eq_some_iff.1 hslot).1
  have hset : x.handles.modify i (fun handles => { handles with sock := x.made })
      = x.handles.set i { handles with sock := x.made } := by
    rw [List.modify_eq_set_getElem?, hhandles]
    rfl
  have hafter : after.orch.slots[i]? = some slot' := by
    rw [hslots]
    exact List.getElem?_set_self hlt
  have hnew : .acquired (.socket x.made) ∉ x.log := fun hmem =>
    Nat.lt_irrefl _ (h.fresh x.made (.inl hmem))
  have hacquired := h.custody.acquire hnew
  obtain ⟨rest, hbefore, hsplit⟩ := cellsOwn_split hslot hhandles
  rw [slotOwns_vacant hvacant, List.nil_append] at hbefore
  unfold Estate.startSlot
  rw [hset, hafter]
  simp only [Option.map_some, Option.getD_some, hinUse]
  constructor
  · exact hkept
  · simp only [hslots, List.length_set]
    exact h.cells
  · rw [owns_eq]
    simp only [hslots, starts_config hstarts]
    cases inFlight with
    | true =>
        have howns : slotOwns slot' { handles with sock := x.made } = [.socket x.made] := by
          simp [slotOwns, hinUse, htls rfl]
        apply hacquired.perm
        rw [owns_eq, ← List.cons_append]
        apply List.Perm.append_right
        calc .socket x.made :: cellsOwn x.loop.orch.slots x.handles
          _ ~ .socket x.made :: rest := hbefore.cons _
          _ = slotOwns slot' { handles with sock := x.made } ++ rest := by rw [howns]; rfl
          _ ~ _ := (hsplit slot' { handles with sock := x.made }).symm
    | false =>
        have hafter := hsplit slot' { handles with sock := x.made }
        rw [slotOwns_vacant hinUse, List.nil_append] at hafter
        apply hacquired.release.perm
        rw [owns_eq]
        exact (hbefore.trans hafter.symm).append_right _
  · intro n hmem
    have hcases : n = x.made ∨ .acquired (.socket n) ∈ x.log ∨ .acquired (.engine n) ∈ x.log := by
      cases inFlight <;> simpa [or_assoc, or_comm, or_left_comm] using hmem
    rcases hcases with heq | hmem
    · exact heq ▸ Nat.lt_succ_self _
    · exact Nat.lt_succ_of_lt (h.fresh n hmem)

/-! ### A call on a connection -/

theorem finishSlot_eq {slot : Slot E} (hinUse : slot.inUse = true) (handles : Handles) :
    finishSlot slot.world handles = (slotOwns slot handles).map .released := by
  rw [finishSlot, connectionClose, slotOwns, if_pos hinUse]
  cases slot.world.conn.tls <;> rfl

/-- The engine pointer behind a call that creates this many engines. -/
def handlesAfter (handles : Handles) (made created : Nat) : Handles :=
  if created = 0 then handles else { handles with engine := made + created - 1 }

/-- A call on a connection creates an engine exactly if it leaves one where there was none. -/
theorem custody_created {log : List (Use Resource)} {rest : List Resource} {made : Nat}
    {slot : Slot E} {w : World E} {handles : Handles} {identity : Bytes} {event : Event E}
    {caps : Capabilities} (hinUse : slot.inUse = true)
    (hreach : Conn.Reachable identity slot.world)
    (hsteps : (Conn.machine E identity).Steps { slot.world with caps := caps } event w)
    (hnew : .acquired (.engine made) ∉ log)
    (h : Custody log (slotOwns slot handles ++ rest)) :
    Custody (log ++ (List.range (enginesCreated w.trace - enginesCreated slot.world.trace)).map
        fun n => .acquired (.engine (made + n)))
      (slotOwns { slot with world := w } (handlesAfter handles made
        (enginesCreated w.trace - enginesCreated slot.world.trace)) ++ rest) := by
  have hothers : (Conn.machine E identity).Steps slot.world (.others caps)
      { slot.world with caps := caps } := ⟨trivial, rfl⟩
  have hlent := hreach.step hothers
  have hbefore := Conn.enginesCreated_of_reachable hreach
  have hafter := Conn.enginesCreated_of_reachable (hlent.step hsteps)
  have hkeeps := Conn.isSome_of_steps hlent hsteps
  rw [hbefore, hafter]
  cases htls : slot.world.conn.tls.isSome with
  | true =>
      have htls' : w.conn.tls.isSome = true := hkeeps htls
      simpa [htls', handlesAfter, slotOwns, hinUse, htls] using h
  | false =>
      cases htls' : w.conn.tls.isSome with
      | false => simpa [handlesAfter, slotOwns, hinUse, htls, htls'] using h
      | true =>
          have hacquired := h.acquire hnew
          simpa [handlesAfter, slotOwns, hinUse, htls, htls'] using hacquired

theorem stepSlot_eq {i : Nat} {slot slot' : Slot E} {handles : Handles} {after : Loop E}
    (hslot : x.loop.orch.slots[i]? = some slot) (hslot' : after.orch.slots[i]? = some slot')
    (hhandles : x.handles[i]? = some handles) {created : Nat}
    (hcreated : enginesCreated slot'.world.trace - enginesCreated slot.world.trace = created) :
    x.stepSlot i after =
      { loop := after
        handles := x.handles.set i (handlesAfter handles x.made created)
        made := x.made + created
        log := x.log ++ (List.range created).map (fun n => .acquired (.engine (x.made + n)))
          ++ (ended x.loop.orch after.orch).flatMap fun w =>
            finishSlot w (handlesAfter handles x.made created) } := by
  unfold Estate.stepSlot
  simp only [hslot, hslot', hhandles, hcreated]
  rfl

theorem fresh_created {log : List (Use Resource)} {made created : Nat} {resources : List Resource}
    (h : ∀ n, .acquired (.socket n) ∈ log ∨ .acquired (.engine n) ∈ log → n < made) (n : Nat)
    (hmem : .acquired (.socket n) ∈ log
          ++ (List.range created).map (fun n => .acquired (.engine (made + n)))
          ++ resources.map .released
        ∨ .acquired (.engine n) ∈ log
          ++ (List.range created).map (fun n => .acquired (.engine (made + n)))
          ++ resources.map .released) : n < made + created := by
  simp only [List.mem_append, List.mem_map, List.mem_range, Use.acquired.injEq, reduceCtorEq,
    and_false, exists_false, or_false, Resource.engine.injEq] at hmem
  rcases hmem with hmem | hmem | ⟨m, hm, rfl⟩
  · exact Nat.lt_add_right _ (h n (.inl hmem))
  · exact Nat.lt_add_right _ (h n (.inr hmem))
  · omega

theorem Kept.stepSlot (h : Kept x) {i : Nat} {slot : Slot E} {event : Event E} {after : Loop E}
    (hslot : x.loop.orch.slots[i]? = some slot) (hinUse : slot.inUse = true)
    (hadm : Conn.admissible { slot.world with caps := x.loop.orch.caps } event)
    (htends : Tends x.loop.orch i slot event after.orch)
    (hkept : Loop.Kept (fun _ _ => True) after) : Kept (x.stepSlot i after) := by
  obtain ⟨handles, hhandles⟩ := h.handles hslot
  have hlt := (List.getElem?_eq_some_iff.1 hslot).1
  have hlt' := (List.getElem?_eq_some_iff.1 hhandles).1
  obtain ⟨⟨hwhen, -⟩, -⟩ := h.loop.tended.inUse slot (List.mem_of_getElem? hslot) hinUse
  have hnew : .acquired (.engine x.made) ∉ x.log := fun hmem =>
    Nat.lt_irrefl _ (h.fresh x.made (.inr hmem))
  obtain ⟨rest, hbefore, hsplit⟩ := cellsOwn_split hslot hhandles
  have howns : Custody x.log (slotOwns slot handles ++ (rest ++ fixture x.loop.orch.config)) := by
    apply h.custody.perm
    rw [owns_eq, ← List.append_assoc]
    exact hbefore.append_right _
  have hsteps {w : World E} (hstep : Conn.step x.loop.orch.config.ehloIdentity
      { slot.world with caps := x.loop.orch.caps } event = .ok w) :
      (Conn.machine E x.loop.orch.config.ehloIdentity).Steps
        { slot.world with caps := x.loop.orch.caps } event w := ⟨hadm, hstep⟩
  -- the books behind the call, before the slot is given up
  have hbooks {w : World E} (hstep : Conn.step x.loop.orch.config.ehloIdentity
      { slot.world with caps := x.loop.orch.caps } event = .ok w) :=
    custody_created hinUse hwhen.reachable (hsteps hstep) hnew howns
  obtain ⟨orch, totalTarget, pc⟩ := after
  change Tends x.loop.orch i slot event orch at htends
  cases htends with
  | goesOn w hstep hlive =>
      have hset : (x.loop.orch.slots.set i { slot with world := w })[i]?
          = some { slot with world := w } := List.getElem?_set_self hlt
      have hended : ended x.loop.orch { x.loop.orch with
          caps := w.caps
          slots := x.loop.orch.slots.set i { slot with world := w } } = [] := by
        simp [ended]
      rw [stepSlot_eq hslot hset hhandles rfl]
      simp only [hended, List.flatMap_nil]
      constructor
      · exact hkept
      · simp only [List.length_set]
        exact h.cells
      · rw [List.append_nil, owns_eq]
        apply (hbooks hstep).perm
        rw [← List.append_assoc]
        exact (hsplit _ _).symm.append_right _
      · intro n hmem
        exact @fresh_created _ _ _ [] h.fresh n hmem
  | finishes w hstep hover hheld =>
      have hset : (x.loop.orch.finished i { slot with world := w }).slots[i]? = some
          { slot with world := { w with conn := Conn.close w.conn }, inUse := false } :=
        List.getElem?_set_self hlt
      have hended : ended x.loop.orch (x.loop.orch.finished i { slot with world := w }) = [w] := by
        simp [ended, finished, reports]
      have hfinish := @finishSlot_eq _ { slot with world := w } hinUse
      rw [stepSlot_eq hslot hset hhandles rfl]
      simp only [hended, List.flatMap_singleton, hfinish]
      constructor
      · exact hkept
      · simp only [finished, List.length_set]
        exact h.cells
      · have hreleased := (hbooks hstep).releaseAll
        have hafter := hsplit
          { slot with world := { w with conn := Conn.close w.conn }, inUse := false }
          (handlesAfter handles x.made (enginesCreated w.trace - enginesCreated slot.world.trace))
        rw [slotOwns_vacant rfl, List.nil_append] at hafter
        rw [owns_eq]
        apply hreleased.perm
        exact hafter.symm.append_right _
      · intro n hmem
        exact fresh_created h.fresh n hmem

theorem stepSlot_none {i : Nat} {after : Loop E} (hslot : x.loop.orch.slots[i]? = none) :
    x.stepSlot i after = { x with loop := after } := by
  unfold Estate.stepSlot
  simp only [hslot]

theorem stepSlot_idle {i : Nat} {slot : Slot E} {after : Loop E} (h : Kept x)
    (hslot : x.loop.orch.slots[i]? = some slot) (hafter : after.orch = x.loop.orch) :
    x.stepSlot i after = { x with loop := after } := by
  obtain ⟨handles, hhandles⟩ := h.handles hslot
  have hended : ended x.loop.orch after.orch = [] := by
    rw [hafter]
    simp [ended]
  rw [stepSlot_eq hslot (by rw [hafter]; exact hslot) hhandles (Nat.sub_self _), hended]
  simp [handlesAfter, set_getElem?_self hhandles]

theorem Kept.settle (h : Kept x) {turn : Turn E} {after : Loop E}
    (hadm : Loop.admissible x.loop turn) (hstep : x.loop.step turn = .ok after) :
    Kept (x.settle turn after) := by
  have hkept := h.loop.turned hadm hstep
  unfold Estate.settle
  cases turns_of_step hadm.1 hstep with
  | stops | returns | iterates | polls => exact h.passes hkept rfl rfl
  | fills socketMade syscalls i nowMs hpc hfills =>
      simp only [hpc]
      cases hfills with
      | passes slot hslot hinUse =>
          rw [if_neg (by simp [Estate.starts, hslot, hinUse])]
          exact h.passes hkept rfl rfl
      | leaves hdone =>
          have hidle : Estate.starts x.loop i = false := by
            unfold Estate.starts
            cases hslot : x.loop.orch.slots[i]? with
            | none => rfl
            | some slot => simp [(hdone slot hslot).2]
          rw [hidle, Bool.false_and, if_neg nofun]
          exact h.passes hkept (by simp) (by simp)
      | starts slot orch hslot hvacant htarget hstart =>
          have hstarts : Estate.starts x.loop i = true := by
            simp [Estate.starts, hslot, hvacant, htarget]
          cases socketMade with
          | false => cases hstart
          | true =>
              rw [hstarts, Bool.and_self, if_pos rfl]
              exact h.startSlot hslot hvacant (startSlot_ok h.loop.tended.context hstart) hkept
      | refused slot orch hslot hvacant htarget hstart =>
          have hstarts : Estate.starts x.loop i = true := by
            simp [Estate.starts, hslot, hvacant, htarget]
          cases socketMade with
          | false =>
              cases hstart
              rw [Bool.and_false, if_neg nofun]
              exact h.passes hkept (by simp [refuse]) (by simp [refuse])
          | true =>
              have hstarted : Starts x.loop.orch i slot
                  (({ x.loop with orch := orch } : Loop E).leaveFill nowMs).orch false := by
                rw [leaveFill_orch]
                exact startSlot_ok h.loop.tended.context hstart
              rw [hstarts, Bool.and_self, if_pos rfl]
              exact h.startSlot hslot hvacant hstarted hkept
  | dispatches env results nowMs hpc hdispatches =>
      simp only [hpc]
      cases hdispatches with
      | done => exact h.passes hkept rfl rfl
      | nowhere c rest hslot =>
          change Kept (x.stepSlot c.slot _)
          rw [stepSlot_none hslot]
          exact h.passes hkept rfl rfl
      | tends c rest slot orch hslot htends =>
          obtain ⟨hinUse, hadm⟩ := h.loop.head hpc hslot env
          exact h.stepSlot hslot hinUse hadm htends hkept
  | sweeps i nowMs hpc hsweeps =>
      simp only [hpc]
      cases hsweeps with
      | done hslot =>
          rw [stepSlot_none hslot]
          exact h.passes hkept rfl rfl
      | passes slot hslot hvacant =>
          rw [@stepSlot_idle _ _ _ _ { x.loop with pc := .sweep (i + 1) nowMs } h hslot rfl]
          exact h.passes hkept rfl rfl
      | tends slot orch hslot hinUse htends =>
          have hadm : Conn.admissible { slot.world with caps := x.loop.orch.caps }
              (.timeout nowMs) := trivial
          exact h.stepSlot hslot hinUse hadm htends hkept

theorem Kept.step (h : Kept x) {call : Call E} (hadm : admissible x call)
    (hstep : Estate.step x call = .ok x') : Kept x' := by
  cases call with
  | run totalTarget =>
      cases hstep
      exact h.passes (h.loop.again totalTarget) rfl rfl
  | turn turn =>
      obtain ⟨after, hloop, hsettled⟩ := bind_eq_ok.1 hstep
      cases hsettled
      exact h.settle hadm hloop

/-! ### Creation -/

/-- Created where nothing but the slots cannot be allocated, with TLS. -/
def CreateCall.Leaks (call : CreateCall E) : Prop :=
  call.maxConnections ≠ 0 ∧ call.alloc.orchestrator = true ∧ call.alloc.reactor = true
    ∧ call.tlsMode ≠ .none ∧ call.alloc.tlsCtx.isSome = true ∧ call.alloc.slots = false

/-- What a creation that succeeds has acquired. -/
def acquisitions (tlsCtx : Option E.Ctx) : List (Use Resource) :=
  [.acquired .orchestrator, .acquired .reactor]
    ++ (if tlsCtx.isSome then [.acquired .tlsCtx] else []) ++ [.acquired .slots]

/-- The exits of `smtp_orchestrator_create`. -/
inductive Exits (call : CreateCall E) : Option (Estate E) → List (Use Resource) → Prop where
  | noOrchestrator (h : call.alloc.orchestrator = false) : Exits call none []
  | noReactor (h : call.alloc.reactor = false) :
      Exits call none [.acquired .orchestrator, .released .orchestrator]
  | noTlsCtx (h : call.alloc.tlsCtx.isSome = false) :
      Exits call none [.acquired .orchestrator, .acquired .reactor, .released .reactor,
        .released .orchestrator]
  | noSlots (h : call.tlsMode = .none) :
      Exits call none [.acquired .orchestrator, .acquired .reactor, .released .reactor,
        .released .orchestrator]
  | leaks (h : call.Leaks) :
      Exits call none [.acquired .orchestrator, .acquired .reactor, .acquired .tlsCtx,
        .released .reactor, .released .orchestrator]
  | created (orch : Orchestrator E) (horch : call.orchestrator = .ok (some orch))
      (hslots : orch.slots = List.replicate call.maxConnections .vacant) :
      Exits call
        (some ⟨⟨orch, 0, .returned⟩, List.replicate call.maxConnections ⟨0, 0⟩, 0,
          acquisitions orch.config.tlsCtx⟩)
        (acquisitions orch.config.tlsCtx)

variable {call : CreateCall E} {log : List (Use Resource)}

/-- `smtp_orchestrator_create` is the one the orchestrator has, beside its log. -/
theorem create_eq (call : CreateCall E) :
    create call = call.orchestrator.map fun created =>
      (created.map fun orch =>
        ⟨⟨orch, 0, .returned⟩, List.replicate call.maxConnections ⟨0, 0⟩, 0, (acquire call).1⟩,
        (acquire call).1) := by
  unfold create
  cases call.orchestrator with
  | error e => rfl
  | ok created => cases created <;> rfl

theorem create_erased {created : Option (Estate E)} (h : create call = .ok (created, log)) :
    call.orchestrator = .ok (created.map fun x => x.loop.orch) := by
  rw [create_eq] at h
  cases horch : call.orchestrator with
  | error e =>
      rw [horch] at h
      cases h
  | ok result =>
      rw [horch] at h
      cases h
      cases result <;> rfl

theorem create_ok {created : Option (Estate E)} (h : create call = .ok (created, log)) :
    Exits call created log := by
  rw [create_eq] at h
  cases horch : call.orchestrator with
  | error e =>
      rw [horch] at h
      cases h
  | ok result =>
  rw [horch] at h
  cases h
  have hcreate := horch
  unfold CreateCall.orchestrator Orchestrator.create Reactor.create at hcreate
  by_cases hsome : call.maxConnections = 0
  · rw [if_pos hsome] at hcreate
    cases hcreate
  rw [if_neg hsome, if_neg hsome] at hcreate
  cases halloc : call.alloc.orchestrator with
  | false =>
      simp only [halloc, Bool.not_false, true_or, if_true] at hcreate
      cases hcreate
      have hacquire : acquire call = ([], false) := by simp [acquire, halloc]
      rw [hacquire]
      exact .noOrchestrator halloc
  | true =>
  cases hreactor : call.alloc.reactor with
  | false =>
      simp only [hreactor, Bool.not_false, or_true, if_true] at hcreate
      cases hcreate
      have hacquire : acquire call
          = ([.acquired .orchestrator, .released .orchestrator], false) := by
        simp [acquire, halloc, hreactor]
      rw [hacquire]
      exact .noReactor hreactor
  | true =>
  simp only [halloc, hreactor, Bool.not_true, Bool.false_eq_true, or_self, if_false] at hcreate
  by_cases hmode : call.tlsMode = .none
  · cases hslots : call.alloc.slots with
    | false =>
        simp only [hmode, hslots, Bool.not_false, or_true, if_true] at hcreate
        cases hcreate
        have hacquire : acquire call = ([.acquired .orchestrator, .acquired .reactor,
            .released .reactor, .released .orchestrator], false) := by
          simp [acquire, halloc, hreactor, hmode, hslots, tlsCtxDestroy]
        rw [hacquire]
        exact .noSlots hmode
    | true =>
        simp [hmode, hslots] at hcreate
        subst hcreate
        have hacquire : acquire call = (acquisitions (none : Option E.Ctx), true) := by
          simp [acquire, acquisitions, halloc, hreactor, hmode, hslots]
        rw [hacquire]
        exact .created _ horch rfl
  · cases htlsCtx : call.alloc.tlsCtx with
    | none =>
        simp [hmode, htlsCtx] at hcreate
        subst hcreate
        have hacquire : acquire call = ([.acquired .orchestrator, .acquired .reactor,
            .released .reactor, .released .orchestrator], false) := by
          simp [acquire, halloc, hreactor, hmode, htlsCtx]
        rw [hacquire]
        exact .noTlsCtx (by simp [htlsCtx])
    | some tlsCtx =>
    cases hslots : call.alloc.slots with
    | false =>
        simp [hmode, htlsCtx, hslots] at hcreate
        subst hcreate
        have hacquire : acquire call = ([.acquired .orchestrator, .acquired .reactor,
            .acquired .tlsCtx, .released .reactor, .released .orchestrator], false) := by
          simp [acquire, halloc, hreactor, hmode, htlsCtx, hslots]
        rw [hacquire]
        exact .leaks ⟨hsome, halloc, hreactor, hmode, by simp [htlsCtx], hslots⟩
    | true =>
        simp [hmode, htlsCtx, hslots] at hcreate
        subst hcreate
        have hacquire : acquire call = (acquisitions (some tlsCtx), true) := by
          simp [acquire, acquisitions, halloc, hreactor, hmode, htlsCtx, hslots]
        rw [hacquire]
        exact .created _ horch rfl

theorem create_leaks (h : call.Leaks) :
    create call = .ok (none, [.acquired .orchestrator, .acquired .reactor, .acquired .tlsCtx,
      .released .reactor, .released .orchestrator]) := by
  obtain ⟨hsome, halloc, hreactor, hmode, htlsCtx, hslots⟩ := h
  obtain ⟨tlsCtx, htlsCtx⟩ := Option.isSome_iff_exists.1 htlsCtx
  have horch : call.orchestrator = .ok none := by
    simp [CreateCall.orchestrator, Orchestrator.create, Reactor.create, *]
  have hacquire : acquire call = ([.acquired .orchestrator, .acquired .reactor, .acquired .tlsCtx,
      .released .reactor, .released .orchestrator], false) := by
    simp [acquire, *]
  rw [create_eq, horch, hacquire]
  rfl

theorem custody_acquisitions (config : Config E) :
    Custody (acquisitions config.tlsCtx) (fixture config) := by
  have horch : Custody [.acquired .orchestrator] [Resource.orchestrator] :=
    Custody.nil.acquire List.not_mem_nil
  have hreactor := @Custody.acquire _ _ _ _ Resource.reactor horch (by simp)
  cases htls : config.tlsCtx.isSome with
  | false =>
      have hslots := @Custody.acquire _ _ _ _ Resource.slots hreactor (by simp)
      simpa [acquisitions, fixture, htls] using hslots
  | true =>
      have htlsCtx := @Custody.acquire _ _ _ _ Resource.tlsCtx hreactor (by simp)
      have hslots := @Custody.acquire _ _ _ _ Resource.slots htlsCtx (by simp)
      simpa [acquisitions, fixture, htls] using hslots

theorem cellsOwn_vacant (n : Nat) (handles : Handles) :
    cellsOwn (List.replicate n (Slot.vacant : Slot E)) (List.replicate n handles) = [] := by
  simp [cellsOwn, slotOwns, Slot.vacant]

theorem kept_create (h : create call = .ok (some x, log)) : Kept x := by
  have herased := create_erased h
  have hcreated : x.loop.orch.Created := ⟨_, _, _, _, _, _, _, _, _, herased⟩
  cases create_ok h with
  | created orch horch hslots =>
      have hbegin : Reachable orch 0 (begin orch 0) := ⟨[], .nil⟩
      obtain ⟨hcontext, hinUse, hreported⟩ := (hbegin.kept hcreated).tended
      constructor
      · exact ⟨⟨hcontext, hinUse, hreported⟩, .of_pc nofun⟩
      · simp [hslots]
      · rw [owns_eq]
        simp only [hslots, cellsOwn_vacant, List.nil_append]
        exact custody_acquisitions orch.config
      · intro n hmem
        simp [acquisitions] at hmem

theorem Alive.kept (h : Alive call x) : Kept x := by
  obtain ⟨x₀, log, calls, hcreate, run⟩ := h
  exact run.invariant (kept_create hcreate) fun x c x' hkept hsteps => hkept.step hsteps.1 hsteps.2

/-! ### The end -/

/-- `smtp_orchestrator_destroy` releases all an orchestrator owns. -/
theorem destroy_eq (x : Estate E) : x.destroy = x.owns.map .released := by
  have hcell (cell : Slot E × Handles) :
      (if cell.1.inUse then
        connectionClose cell.1.world.conn cell.2 ++ [.released (.socket cell.2.sock)]
      else []) = (slotOwns cell.1 cell.2).map Use.released := by
    cases hinUse : cell.1.inUse with
    | false => rw [slotOwns_vacant hinUse, if_neg nofun, List.map_nil]
    | true => exact finishSlot_eq hinUse cell.2
  rw [destroy, owns, funext hcell]
  cases htls : x.loop.orch.config.tlsCtx <;> simp [tlsCtxDestroy, List.map_flatMap]

theorem Kept.destroyed (h : Kept x) : ReleasedOnce (x.log ++ x.destroy) := by
  have hall : Custody x.log (x.owns ++ []) := by simpa using h.custody
  rw [destroy_eq]
  exact hall.releaseAll.releasedOnce

/-- Every exit of `smtp_orchestrator_create` but one unwinds what it has acquired. -/
theorem releasedOnce_notCreated (h : create call = .ok (none, log)) (hleaks : ¬ call.Leaks) :
    ReleasedOnce log := by
  have horch : Custody [.acquired .orchestrator] [Resource.orchestrator] :=
    Custody.nil.acquire List.not_mem_nil
  have hreactor := @Custody.acquire _ _ _ _ Resource.reactor horch (by simp)
  have hunwound : Custody [.acquired .orchestrator, .acquired .reactor, .released .reactor,
      .released .orchestrator] ([] : List Resource) := hreactor.release.release
  cases create_ok h with
  | noOrchestrator => exact Custody.nil.releasedOnce
  | noReactor => exact horch.release.releasedOnce
  | noTlsCtx | noSlots => exact hunwound.releasedOnce
  | leaks hleak => exact absurd hleak hleaks

/-- **Everything is released exactly once**, unless the slots cannot be allocated where there is a
TLS context. -/
theorem released_once (call : CreateCall E) :
    ((∀ log, Lifetime call log → ReleasedOnce log)
      ∧ ∀ x, Alive call x → held x.log ~ x.owns ∧ x.owns.Nodup) ↔ ¬ call.Leaks := by
  constructor
  · rintro ⟨hreleased, -⟩ hleaks
    have honce := hreleased _ (.notCreated (create_leaks hleaks)) .tlsCtx (.inl (by decide))
    exact absurd honce.2 (by decide)
  · intro hleaks
    constructor
    · intro log hlife
      cases hlife with
      | notCreated h => exact releasedOnce_notCreated h hleaks
      | destroyed h hpc => exact h.kept.destroyed
    · intro x halive
      have hkept := halive.kept
      exact ⟨hkept.custody.owned, hkept.custody.nodup⟩

/-- A TLS context without slots. -/
def unslotted : CreateCall (recordEngine Conn.sampleInfo) where
  alloc := ⟨true, true, some (), false⟩
  maxConnections := 1
  targetAddr := .inet 192 0 2 1 25
  targetHost := some (bytes "mx")
  ehloIdentity := bytes "me"
  tlsMode := .explicit
  tlsTrustWithoutValidation := false
  connectTimeoutMs := 1000
  threadId := 1

/-- Where the slots cannot be allocated, the TLS context is never released. -/
theorem tlsCtx_leaks : ∃ log, Lifetime unslotted log ∧ .acquired .tlsCtx ∈ log
    ∧ .released .tlsCtx ∉ log ∧ ¬ ReleasedOnce log := by
  have hleaks : unslotted.Leaks := ⟨Nat.one_ne_zero, rfl, rfl, nofun, rfl, rfl⟩
  refine ⟨_, .notCreated (create_leaks hleaks), by decide, by decide, fun honce => ?_⟩
  exact absurd (honce .tlsCtx (.inl (by decide))).2 (by decide)

end Estate

end SmtpClient
