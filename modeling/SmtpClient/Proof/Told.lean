import SmtpClient.Base.Interleaved
import SmtpClient.Chronicle
import SmtpClient.Proof.Accounting
import SmtpClient.Proof.LoggedTexts
import SmtpClient.Proof.LogLines

/-!
# What a turn says

A turn of the loop says nothing, or opens a connection under an identifier never used before, or is
refused one, or lets one connection go on; what it says is under the identifier of that connection.
So what has been said interleaves what the connections have said, whatever other threads say between
it, as long as the identifiers have not come round.
-/

namespace SmtpClient

open scoped List

variable {E : TlsEngine}

/-! ### What a connection has said -/

theorem said_append (w : World E) (effects effects' : List Effect) :
    w.said (effects ++ effects') = w.said effects ++ w.said effects' := List.filterMap_append

theorem said_congr {w w' : World E} (hlogId : w'.conn.logId = w.conn.logId)
    (hactor : w'.conn.actor = w.conn.actor) : w'.said = w.said := by
  funext effects
  rw [World.said, hlogId, hactor]
  rfl

theorem mem_said {w : World E} {effects : List Effect} {entry : LogEntry}
    (h : entry ∈ w.said effects) : ∃ event detail, .log event detail ∈ effects
      ∧ entry = ⟨event, w.conn.logId, none, w.conn.actor, detail⟩ := by
  obtain ⟨effect, hmem, heq⟩ := List.mem_filterMap.mp h
  cases effect <;> simp only [reduceCtorEq, Option.some.injEq] at heq
  exact ⟨_, _, hmem, heq.symm⟩

/-- What a call on a connection has said is behind what was said before it. -/
theorem Adds.entries {w w' : World E} (h : Adds w w') :
    w'.entries = w.entries ++ w'.said (w'.trace.drop w.trace.length) := by
  obtain ⟨effects, htrace, -⟩ := h.trace
  calc
    w'.entries
    _ = w'.said w.trace ++ w'.said effects := by rw [World.entries, htrace, said_append]
    _ = w.entries ++ w'.said effects := by rw [said_congr h.logId h.actor, World.entries]
    _ = w.entries ++ w'.said (w'.trace.drop w.trace.length) := by rw [htrace, List.drop_left]

namespace Orchestrator

/-! ### The connections, one slot apart -/

def openWorlds (slots : List (Slot E)) : List (World E) := (slots.filter Slot.inUse).map Slot.world

theorem connections_eq (orch : Orchestrator E) : orch.connections
    = openWorlds orch.slots ++ (reports orch.history).map fun r => r.2.2 := rfl

theorem openWorlds_perm {slots slots' : List (Slot E)} (h : slots ~ slots') :
    openWorlds slots ~ openWorlds slots' := (h.filter Slot.inUse).map Slot.world

theorem openWorlds_cons_of_inUse {slot : Slot E} (h : slot.inUse = true) (slots : List (Slot E)) :
    openWorlds (slot :: slots) = slot.world :: openWorlds slots := by
  rw [openWorlds, List.filter_cons_of_pos h, List.map_cons]
  rfl

theorem openWorlds_cons_of_vacant {slot : Slot E} (h : slot.inUse = false) (slots : List (Slot E)) :
    openWorlds (slot :: slots) = openWorlds slots := by
  rw [openWorlds, List.filter_cons_of_neg (by simp [h])]
  rfl

theorem openWorlds_eraseIdx {slots : List (Slot E)} {i : Nat} {slot : Slot E}
    (h : slots[i]? = some slot) : openWorlds slots ~ openWorlds (slot :: slots.eraseIdx i) := by
  obtain ⟨hi, rfl⟩ := List.getElem?_eq_some_iff.mp h
  exact openWorlds_perm (List.getElem_cons_eraseIdx_perm hi).symm

theorem openWorlds_set {slots : List (Slot E)} {i : Nat} {slot : Slot E} (slot' : Slot E)
    (h : slots[i]? = some slot) :
    openWorlds (slots.set i slot') ~ openWorlds (slot' :: slots.eraseIdx i) := by
  obtain ⟨hi, -⟩ := List.getElem?_eq_some_iff.mp h
  exact openWorlds_perm (List.set_perm_cons_eraseIdx hi slot')

section Connections

variable {orch orch' : Orchestrator E} {i : Nat} {slot : Slot E} {event : Event E}

/-- The identifier of the next connection. -/
def nextId (orch : Orchestrator E) : LogId :=
  ⟨orch.config.threadId.toNat, orch.nextConnectionId.toNat⟩

/-- What the next connection says first. -/
def greeting (orch : Orchestrator E) : LogEntry :=
  ⟨.connecting, orch.nextId, none, clip maxActorSize orch.config.actor, bytes "connecting"⟩

/-- What a call of the orchestrator does to its connections, and what it says: nothing; or the
greeting of a connection that is opened or refused; or more from one connection. -/
inductive Tells (orch : Orchestrator E) (said : List LogEntry) (orch' : Orchestrator E) : Prop where
  | silent (hconnections : orch'.connections ~ orch.connections)
      (hnext : orch'.nextConnectionId = orch.nextConnectionId) (hsaid : said = [])
  | refused (hconnections : orch'.connections ~ orch.connections)
      (hnext : orch'.nextConnectionId = orch.nextConnectionId + 1) (hsaid : said = [orch.greeting])
      (hclean : containsCrOrLf (clip maxActorSize orch.config.actor) = false)
  | opens (w : World E) (hconnections : orch'.connections ~ w :: orch.connections)
      (hnext : orch'.nextConnectionId = orch.nextConnectionId + 1) (hsaid : said = [orch.greeting])
      (hclean : containsCrOrLf (clip maxActorSize orch.config.actor) = false)
      (hlogId : w.conn.logId = orch.nextId)
      (hactor : w.conn.actor = clip maxActorSize orch.config.actor)
      (hentries : w.entries = [orch.greeting])
  | goesOn (w w' : World E) (rest : List (World E)) (hconnections : orch.connections ~ w :: rest)
      (hconnections' : orch'.connections ~ w' :: rest)
      (hnext : orch'.nextConnectionId = orch.nextConnectionId) (hadds : Adds w w')
      (hsaid : said = w'.said (w'.trace.drop w.trace.length))

theorem startSlot_tells {nowMs : Nat} {socketMade inFlight : Bool} {syscalls : ConnectSyscalls}
    (h : orch.startSlot i slot nowMs socketMade syscalls = .ok (orch', inFlight))
    (hslot : orch.slots[i]? = some slot) (hvacant : slot.inUse = false) :
    Tells orch (orch.startEmitted nowMs socketMade syscalls) orch' := by
  have hbefore := openWorlds_eraseIdx hslot
  rw [openWorlds_cons_of_vacant hvacant] at hbefore
  unfold startSlot at h
  cases socketMade with
  | false =>
      cases Except.ok.inj h
      refine .silent ?_ rfl rfl
      simp [connections, refuse]
  | true =>
      simp only [Bool.not_true, Bool.false_eq_true, if_false] at h
      split at h
      · exact absurd h (by simp)
      rename_i w rc hstart
      have hemitted : orch.startEmitted nowMs true syscalls = w.entries := by
        simp only [startEmitted, Bool.not_true, Bool.false_eq_true, if_false]
        rw [hstart]
      obtain ⟨rfl, hclean, hw⟩ := Conn.start_fresh_ok hstart
      have hlogId : w.conn.logId = orch.nextId := by rw [hw]; rfl
      have hactor : w.conn.actor = clip maxActorSize orch.config.actor := by rw [hw]; rfl
      have hentries : w.entries = [orch.greeting] := by rw [hw]; rfl
      rw [hemitted, hentries]
      split at h
      · cases Except.ok.inj h
        have hafter := openWorlds_set { slot with world := w } hslot
        rw [openWorlds_cons_of_vacant (by exact hvacant)] at hafter
        refine .refused ?_ rfl rfl hclean
        have happended := (hafter.trans hbefore.symm).append_right
          ((reports orch.history).map fun r => r.2.2)
        simpa [connections_eq, refuse] using happended
      · cases Except.ok.inj h
        have hafter := openWorlds_set
          (⟨w, true, (acceptedSerials orch.history).length⟩ : Slot E) hslot
        rw [openWorlds_cons_of_inUse rfl] at hafter
        refine .opens w ?_ rfl rfl hclean hlogId hactor hentries
        have happended := (hafter.trans (hbefore.symm.cons w)).append_right
          ((reports orch.history).map fun r => r.2.2)
        simpa [connections_eq, accept] using happended

theorem stepSlot_tells (htexts : CertTexts E) (h : Tends orch i slot event orch')
    (hslot : orch.slots[i]? = some slot) (hinUse : slot.inUse = true) :
    Tells orch (orch.stepEmitted slot event) orch' := by
  have hbefore := openWorlds_eraseIdx hslot
  rw [openWorlds_cons_of_inUse hinUse] at hbefore
  have htells {w : World E} (hstep : Conn.step orch.config.ehloIdentity
      { slot.world with caps := orch.caps } event = .ok w) :
      Adds slot.world w
        ∧ orch.stepEmitted slot event = w.said (w.trace.drop slot.world.trace.length) := by
    have hadds := (Conn.step_adds htexts _ _ event).of_ok w hstep
    refine ⟨⟨hadds.logId, hadds.actor, hadds.trace⟩, ?_⟩
    rw [stepEmitted, hstep]
  cases h with
  | goesOn w hstep =>
      have hafter := openWorlds_set { slot with world := w } hslot
      rw [openWorlds_cons_of_inUse (by exact hinUse)] at hafter
      obtain ⟨hadds, hemitted⟩ := htells hstep
      exact .goesOn _ w _ (hbefore.append_right _) (hafter.append_right _) rfl hadds hemitted
  | finishes w hstep =>
      have hafter := openWorlds_set
        { slot with
          world := { w with conn := Conn.close w.conn }
          inUse := false } hslot
      rw [openWorlds_cons_of_vacant rfl] at hafter
      obtain ⟨hadds, hemitted⟩ := htells hstep
      refine .goesOn _ w _ (hbefore.append_right _) ?_ rfl hadds hemitted
      have happended := hafter.append_right ((reports orch.history).map (fun r => r.2.2) ++ [w])
      refine (List.Perm.of_eq ?_).trans (happended.trans ?_)
      · simp [connections_eq, finished]
      · rw [← List.append_assoc]
        exact List.perm_append_singleton w _

end Connections

end Orchestrator

/-! ### What has been told -/

/-- The source a connection is. -/
def World.source (w : World E) : LogId × List LogEntry := (w.conn.logId, w.entries)

/-- What has been said so far, interleaved with the lines of other threads: nothing under an
identifier still to be given out, and only greetings under one that no connection has. -/
structure Told (config : Config E) (next : Nat) (connections : List (World E))
    (written : List LogEntry) : Prop where
  interleaves : Interleaves LogEntry.id (connections.map World.source) written
  known : ∀ w ∈ connections, w.conn.logId.threadId = config.threadId.toNat
    ∧ w.conn.logId.connectionId < next ∧ w.conn.actor = clip maxActorSize config.actor
  used : ∀ entry ∈ written, entry.id.threadId = config.threadId.toNat →
    entry.id.connectionId < next
  owned : ∀ entry ∈ written, entry.id.threadId = config.threadId.toNat →
    (∃ w ∈ connections, w.conn.logId = entry.id) ∨ entry.event = .connecting

namespace Told

variable {config : Config E} {next : Nat} {connections connections' : List (World E)}
  {written : List LogEntry} {entry : LogEntry} {w w' : World E}

theorem start (config : Config E) (next : Nat) : Told config next [] [] where
  interleaves := ⟨List.nodup_nil, by simp⟩
  known := by simp
  used := by simp
  owned := by simp

theorem perm (h : Told config next connections written) (hperm : connections ~ connections') :
    Told config next connections' written where
  interleaves := h.interleaves.perm (hperm.map World.source)
  known w hw := h.known w (hperm.mem_iff.mpr hw)
  used := h.used
  owned entry hentry hthread := by
    rcases h.owned entry hentry hthread with ⟨w, hw, heq⟩ | hevent
    · exact .inl ⟨w, hperm.mem_iff.mp hw, heq⟩
    · exact .inr hevent

/-- Another thread writes a line. -/
theorem others {front back : List LogEntry} (h : Told config next connections (front ++ back))
    (hthread : entry.id.threadId ≠ config.threadId.toNat) :
    Told config next connections (front ++ [entry] ++ back) := by
  have hmem {other : LogEntry} (hother : other ∈ front ++ [entry] ++ back)
      (hown : other.id.threadId = config.threadId.toNat) : other ∈ front ++ back := by
    rcases List.mem_append.mp hother with hother | hback
    · rcases List.mem_append.mp hother with hfront | hentry
      · exact List.mem_append_left _ hfront
      · rw [List.mem_singleton.mp hentry] at hown
        exact absurd hown hthread
    · exact List.mem_append_right _ hback
  refine ⟨?_, h.known, fun other hother hown => h.used other (hmem hother hown) hown,
    fun other hother hown => h.owned other (hmem hother hown) hown⟩
  apply h.interleaves.insert
  intro other hother source hsource
  obtain ⟨w, hw, rfl⟩ := List.mem_map.mp hsource
  rw [List.mem_singleton.mp hother]
  intro heq
  exact hthread (heq ▸ (h.known w hw).1)

/-- The greeting of a connection that is refused. -/
theorem refused (h : Told config next connections written)
    (hid : entry.id = ⟨config.threadId.toNat, next⟩) (hevent : entry.event = .connecting) :
    Told config (next + 1) connections (written ++ [entry]) where
  interleaves := by
    apply h.interleaves.append
    intro other hother source hsource
    obtain ⟨w, hw, rfl⟩ := List.mem_map.mp hsource
    rw [List.mem_singleton.mp hother, hid]
    intro heq
    have hlt := (h.known w hw).2.1
    rw [show w.conn.logId = _ from heq.symm] at hlt
    exact Nat.lt_irrefl _ hlt
  known w hw := by
    obtain ⟨hthread, hlt, hactor⟩ := h.known w hw
    exact ⟨hthread, Nat.lt_succ_of_lt hlt, hactor⟩
  used other hother hthread := by
    rcases List.mem_append.mp hother with hother | hother
    · exact Nat.lt_succ_of_lt (h.used other hother hthread)
    · rw [List.mem_singleton.mp hother, hid]
      exact Nat.lt_succ_self next
  owned other hother hthread := by
    rcases List.mem_append.mp hother with hother | hother
    · exact h.owned other hother hthread
    · rw [List.mem_singleton.mp hother]
      exact .inr hevent

/-- The greeting of a connection that is opened. -/
theorem opens (h : Told config next connections written)
    (hid : entry.id = ⟨config.threadId.toNat, next⟩) (hevent : entry.event = .connecting)
    (hlogId : w.conn.logId = ⟨config.threadId.toNat, next⟩) (hentries : w.entries = [entry])
    (hactor : w.conn.actor = clip maxActorSize config.actor) :
    Told config (next + 1) (w :: connections) (written ++ [entry]) := by
  have hrefused := h.refused hid hevent
  refine ⟨?_, ?_, hrefused.used, ?_⟩
  · rw [List.map_cons, World.source, hentries]
    apply h.interleaves.opens
    · intro source hsource
      obtain ⟨u, hu, rfl⟩ := List.mem_map.mp hsource
      intro heq
      have hlt := (h.known u hu).2.1
      rw [show u.conn.logId = _ from heq.trans hlogId] at hlt
      exact Nat.lt_irrefl _ hlt
    · intro other hother heq
      rw [hlogId] at heq
      have hlt := h.used other hother (by rw [heq])
      rw [heq] at hlt
      exact Nat.lt_irrefl _ hlt
    · intro other hother
      rw [List.mem_singleton.mp hother, hid, hlogId]
  · intro u hu
    rcases List.mem_cons.mp hu with rfl | hu
    · rw [hlogId]
      exact ⟨rfl, Nat.lt_succ_self next, hactor⟩
    · exact hrefused.known u hu
  · intro other hother hthread
    rcases hrefused.owned other hother hthread with ⟨u, hu, heq⟩ | hother
    · exact .inl ⟨u, List.mem_cons_of_mem _ hu, heq⟩
    · exact .inr hother

/-- More from one connection. -/
theorem goesOn (h : Told config next (w :: connections) written) (hadds : Adds w w') :
    Told config next (w' :: connections)
      (written ++ w'.said (w'.trace.drop w.trace.length)) := by
  obtain ⟨hknown, hrest⟩ := List.forall_mem_cons.mp h.known
  have hown : ∀ entry ∈ w'.said (w'.trace.drop w.trace.length), entry.id = w.conn.logId := by
    intro entry hentry
    obtain ⟨event, detail, -, rfl⟩ := mem_said hentry
    exact hadds.logId
  refine ⟨?_, ?_, ?_, ?_⟩
  · rw [List.map_cons, World.source, hadds.entries, hadds.logId]
    exact h.interleaves.continues hown
  · intro u hu
    rcases List.mem_cons.mp hu with rfl | hu
    · rw [hadds.logId, hadds.actor]
      exact hknown
    · exact hrest u hu
  · intro entry hentry hthread
    rcases List.mem_append.mp hentry with hentry | hentry
    · exact h.used entry hentry hthread
    · rw [hown entry hentry]
      exact hknown.2.1
  · intro entry hentry hthread
    rcases List.mem_append.mp hentry with hentry | hentry
    · rcases h.owned entry hentry hthread with ⟨u, hu, heq⟩ | hevent
      · rcases List.mem_cons.mp hu with rfl | hu
        · exact .inl ⟨w', List.mem_cons_self, hadds.logId.trans heq⟩
        · exact .inl ⟨u, List.mem_cons_of_mem _ hu, heq⟩
      · exact .inr hevent
    · exact .inl ⟨w', List.mem_cons_self, hadds.logId.trans (hown entry hentry).symm⟩

variable {orch orch' : Orchestrator E} {said : List LogEntry}

/-- What a call of the orchestrator says, behind what was said before. -/
theorem tells (h : Told orch.config orch.nextConnectionId.toNat orch.connections written)
    (htells : orch.Tells said orch') (hconfig : orch'.config = orch.config)
    (hroom : orch.nextConnectionId.toNat + 1 < 2 ^ 32) :
    Told orch'.config orch'.nextConnectionId.toNat orch'.connections (written ++ said) := by
  have hsucc : (orch.nextConnectionId + 1).toNat = orch.nextConnectionId.toNat + 1 := by
    rw [UInt32.toNat_add]
    exact Nat.mod_eq_of_lt hroom
  rw [hconfig]
  cases htells with
  | silent hconnections hnext hsaid =>
      rw [hsaid, List.append_nil, hnext]
      exact h.perm hconnections.symm
  | refused hconnections hnext hsaid =>
      rw [hsaid, hnext, hsucc]
      exact (h.refused rfl rfl).perm hconnections.symm
  | opens w hconnections hnext hsaid _ hlogId hactor hentries =>
      rw [hsaid, hnext, hsucc]
      exact (h.opens rfl rfl hlogId hentries hactor).perm hconnections.symm
  | goesOn w w' rest hconnections hconnections' hnext hadds hsaid =>
      rw [hsaid, hnext]
      exact ((h.perm hconnections).goesOn hadds).perm hconnections'.symm

/-- Every line of an orchestrator whose actor has no closing bracket is whole. -/
theorem whole (h : Told orch.config orch.nextConnectionId.toNat orch.connections written)
    (htells : orch.Tells said orch') (hbracket : 93 ∉ orch.config.actor) :
    ∀ entry ∈ said, entry.Whole := by
  have hfree : 93 ∉ clip maxActorSize orch.config.actor := fun hmem =>
    hbracket (mem_of_mem_clip hmem)
  have hshort : (clip maxActorSize orch.config.actor).length ≤ 319 := by
    rw [length_clip, maxActorSize]
    exact Nat.min_le_left _ _
  have hid {connectionId : Nat} (hlt : connectionId ≤ orch.nextConnectionId.toNat) :
      (idText ⟨orch.config.threadId.toNat, connectionId⟩ none).length < idBufSize :=
    length_idText_lt orch.config.threadId.toNat_lt
      (Nat.lt_of_le_of_lt hlt orch.nextConnectionId.toNat_lt)
  have hgreeting (hclean : containsCrOrLf (clip maxActorSize orch.config.actor) = false) :
      orch.greeting.Whole := by
    have htext : containsCrOrLf (bytes "connecting") = false := by decide +kernel
    refine ⟨hid (Nat.le_refl _), ?_, hclean, htext, hfree⟩
    exact Nat.add_le_add hshort (by decide +kernel : (bytes "connecting").length ≤ 1581)
  cases htells with
  | silent _ _ hsaid => simp [hsaid]
  | refused _ _ hsaid hclean | opens _ _ _ hsaid hclean =>
      intro entry hentry
      rw [hsaid] at hentry
      rw [List.mem_singleton.mp hentry]
      exact hgreeting hclean
  | goesOn w w' rest hconnections _ _ hadds hsaid =>
      obtain ⟨hthread, hlt, hactor⟩ := h.known w (hconnections.mem_iff.mpr List.mem_cons_self)
      intro entry hentry
      rw [hsaid] at hentry
      obtain ⟨event, detail, hmem, rfl⟩ := mem_said hentry
      obtain ⟨effects, htrace, hlogs⟩ := hadds.trace
      rw [htrace, List.drop_left] at hmem
      obtain ⟨hcleanActor, hcleanDetail, hlength⟩ := hlogs event detail hmem
      have hlogId : w'.conn.logId
          = ⟨orch.config.threadId.toNat, w.conn.logId.connectionId⟩ := by
        rw [← hthread]
        exact hadds.logId
      rw [hadds.actor, hactor, hlogId]
      rw [hactor] at hcleanActor
      exact ⟨hid (Nat.le_of_lt hlt), Nat.le_trans (Nat.add_le_add hshort (Nat.le_of_lt hlength))
          (by decide), clean_iff.mpr hcleanActor, clean_iff.mpr hcleanDetail, hfree⟩

end Told

namespace Loop

open Orchestrator

variable {C : World E → Event E → Prop} {l l' : Loop E} {turn : Turn E}

/-- What a turn says is what its call of the orchestrator says. -/
theorem emitted_tells (htexts : CertTexts E) (hkept : Kept C l) (hadm : admissible l turn)
    (hstep : l.step turn = .ok l') : Tells l.orch (l.emitted turn) l'.orch := by
  have hsilent {l' : Loop E} (horch : l'.orch = l.orch) (hemitted : l.emitted turn = []) :
      Tells l.orch (l.emitted turn) l'.orch := by
    rw [horch]
    exact .silent (List.Perm.refl _) rfl hemitted
  cases turns_of_step hadm.1 hstep with
  | stops => exact .silent (List.Perm.refl _) rfl rfl
  | returns | iterates | polls => exact hsilent rfl rfl
  | fills socketMade syscalls i nowMs hpc hfills =>
      cases hfills with
      | passes slot hslot hinUse =>
          apply hsilent rfl
          simp [emitted, hpc, hslot, hinUse]
      | leaves hdone =>
          apply hsilent (leaveFill_orch l nowMs)
          cases hslot : l.orch.slots[i]? with
          | none => simp [emitted, hpc, hslot]
          | some slot => simp [emitted, hpc, hslot, (hdone slot hslot).2]
      | starts slot orch' hslot hvacant htarget hstart =>
          have hemitted : l.emitted (.fill socketMade syscalls)
              = l.orch.startEmitted nowMs socketMade syscalls := by
            simp [emitted, hpc, hslot, hvacant, htarget]
          rw [hemitted]
          exact startSlot_tells hstart hslot hvacant
      | refused slot orch' hslot hvacant htarget hstart =>
          have hemitted : l.emitted (.fill socketMade syscalls)
              = l.orch.startEmitted nowMs socketMade syscalls := by
            simp [emitted, hpc, hslot, hvacant, htarget]
          rw [hemitted, leaveFill_orch]
          exact startSlot_tells hstart hslot hvacant
  | dispatches env results nowMs hpc hdispatches =>
      cases hdispatches with
      | done =>
          apply hsilent rfl
          simp [emitted, hpc]
      | nowhere c rest hslot =>
          apply hsilent rfl
          simp [emitted, hpc, hslot]
      | tends c rest slot orch' hslot htends =>
          have hemitted : l.emitted (.handle env)
              = l.orch.stepEmitted slot (.completion env c.op c.result c.data nowMs) := by
            simp [emitted, hpc, hslot]
          rw [hemitted]
          exact stepSlot_tells htexts htends hslot (hkept.head hpc hslot env).1
  | sweeps i nowMs hpc hsweeps =>
      cases hsweeps with
      | done hslot =>
          apply hsilent rfl
          simp [emitted, hpc, hslot]
      | passes slot hslot hvacant =>
          apply hsilent rfl
          simp [emitted, hpc, hslot, hvacant]
      | tends slot orch' hslot hinUse htends =>
          have hemitted : l.emitted .sweep = l.orch.stepEmitted slot (.timeout nowMs) := by
            simp [emitted, hpc, hslot, hinUse]
          rw [hemitted]
          exact stepSlot_tells htexts htends hslot hinUse

/-! ### Identifiers -/

theorem toNat_succ_le (n : UInt32) : (n + 1).toNat ≤ n.toNat + 1 := by
  rw [UInt32.toNat_add]
  exact Nat.mod_le _ _

/-- Identifiers are given out no faster than attempts are made, and attempts are not taken back. -/
theorem Turned.identifiers (h : Turned C l l') : l.orch.attempts ≤ l'.orch.attempts
    ∧ (l.orch.nextConnectionId.toNat ≤ l.orch.attempts + 1 →
      l'.orch.nextConnectionId.toNat ≤ l'.orch.attempts + 1) := by
  have hstarts {orch' : Orchestrator E} {i : Nat} {slot : Slot E} {inFlight : Bool}
      (hstarts : Starts l.orch i slot orch' inFlight) : l.orch.attempts ≤ orch'.attempts
        ∧ (l.orch.nextConnectionId.toNat ≤ l.orch.attempts + 1 →
          orch'.nextConnectionId.toNat ≤ orch'.attempts + 1) := by
    have hsucc := toNat_succ_le l.orch.nextConnectionId
    rw [attempts_starts hstarts]
    refine ⟨Nat.le_succ _, fun hle => ?_⟩
    cases hstarts with
    | noSocket => exact Nat.le_succ_of_le hle
    | refused | accepted => exact Nat.le_trans hsucc (Nat.succ_le_succ hle)
  have htends {orch' : Orchestrator E} {i : Nat} {slot : Slot E} {event : Event E}
      (htends : Tends l.orch i slot event orch') : l.orch.attempts ≤ orch'.attempts
        ∧ (l.orch.nextConnectionId.toNat ≤ l.orch.attempts + 1 →
          orch'.nextConnectionId.toNat ≤ orch'.attempts + 1) := by
    rw [attempts_tends htends]
    cases htends <;> exact ⟨Nat.le_refl _, id⟩
  cases h with
  | stops | returns | moves | polled | nowhere => exact ⟨Nat.le_refl _, id⟩
  | leaves nowMs =>
      rw [leaveFill_orch]
      exact ⟨Nat.le_refl _, id⟩
  | starts _ _ _ _ _ _ h => exact hstarts h
  | refused _ nowMs _ _ _ _ h =>
      rw [leaveFill_orch]
      exact hstarts h
  | handled _ _ _ _ _ _ _ _ h => exact htends h
  | swept _ _ _ _ _ _ h => exact htends h

end Loop

end SmtpClient
