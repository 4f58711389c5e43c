import SmtpClient.Proof.Told
import SmtpClient.RecordEngine

/-!
# The log file tells the run

The lines of a turn go from the outbox to the file one by one, and what is in the two, taken
together, is what has been told. Every line is whole, so the file is read back.
-/

namespace SmtpClient

variable {E : TlsEngine}

namespace Chronicle

open Orchestrator

variable {orch : Orchestrator E} {totalTarget : UInt64} {file : Bytes} {c c' : Chronicle E}
  {records : List LogRecord} {occurrence : Occurrence E} {entry : LogEntry}

/-- **Inversion of a step**, with what it was admitted for. -/
inductive Occurs (c c' : Chronicle E) : Prop where
  | logger (logger : Logger) (hfile : logger.file = c.logger.file)
      (hready : c.outbox ≠ [] → c.logger.ready = true → logger.ready = true)
      (hc' : c' = { c with logger := logger })
  | turns (turn : Turn E) (l : Loop E) (hready : c.logger.ready = true) (houtbox : c.outbox = [])
      (hadm : Loop.admissible c.loop turn) (hstep : c.loop.step turn = .ok l)
      (hc' : c' = { c with loop := l, outbox := c.loop.emitted turn })
  | writes (ts : LogTimestamp) (entry : LogEntry) (rest : List LogEntry)
      (houtbox : c.outbox = entry :: rest) (hemit : c.emit entry ts rest = .ok c')
  | others (ts : LogTimestamp) (entry : LogEntry) (hready : c.logger.ready = true)
      (hwhole : entry.Whole) (hthread : entry.id.threadId ≠ c.loop.orch.config.threadId.toNat)
      (hemit : c.emit entry ts c.outbox = .ok c')

theorem init_ok {logger logger' : Logger} {filepath : Option Bytes} {opened mutexMade : Bool}
    {rc : Int} (h : logger.init filepath opened mutexMade = .ok (logger', rc)) :
    logger.ready = false ∧ logger'.file = logger.file := by
  unfold Logger.init at h
  split at h <;> rename_i hready
  · exact absurd h (by simp)
  refine ⟨by simpa using hready, ?_⟩
  split at h
  · cases Except.ok.inj h
    rfl
  split at h
  · cases Except.ok.inj h
    rfl
  split at h <;> cases Except.ok.inj h <;> rfl

theorem occurs_of_steps (h : (machine E).Steps c occurrence c') : Occurs c c' := by
  obtain ⟨hadm, hstep⟩ := h
  change c.step occurrence = .ok c' at hstep
  cases occurrence with
  | init filepath opened mutexMade =>
      simp only [step] at hstep
      split at hstep
      · rename_i logger rc hinit
        obtain ⟨hready, hfile⟩ := init_ok hinit
        refine .logger logger hfile (fun _ => ?_) (Except.ok.inj hstep).symm
        rw [hready]
        exact fun hnot => Bool.noConfusion hnot
      · exact absurd hstep (by simp)
  | turn turn =>
      obtain ⟨hready, houtbox, hturn⟩ := hadm
      simp only [step] at hstep
      split at hstep
      · rename_i l hl
        exact .turns turn l hready houtbox hturn hl (Except.ok.inj hstep).symm
      · exact absurd hstep (by simp)
  | write ts =>
      simp only [step] at hstep
      split at hstep <;> rename_i houtbox
      · exact absurd houtbox hadm
      · exact .writes ts _ _ houtbox hstep
  | others ts entry =>
      obtain ⟨hready, hwhole, hthread⟩ := hadm
      exact .others ts entry hready hwhole hthread hstep
  | shutdown =>
      refine .logger c.logger.shutdown ?_ (fun hne => absurd hadm hne) (Except.ok.inj hstep).symm
      unfold Logger.shutdown
      split <;> rfl

theorem emit_loop {ts : LogTimestamp} {outbox : List LogEntry}
    (h : c.emit entry ts outbox = .ok c') : c'.loop = c.loop := by
  unfold emit at h
  split at h
  · cases Except.ok.inj h
    rfl
  · exact absurd h (by simp)

/-- The loop takes its turns and does nothing else. -/
theorem Reachable.loop (h : Reachable orch totalTarget file c) :
    Loop.Reachable orch totalTarget c.loop := by
  obtain ⟨occurrences, run⟩ := h
  apply run.invariant (I := fun c => Loop.Reachable orch totalTarget c.loop) ⟨[], .nil⟩
  intro c occurrence c' hloop hsteps
  cases occurs_of_steps hsteps with
  | logger logger _ _ hc' =>
      rw [hc']
      exact hloop
  | turns turn l _ _ hadm hstep hc' =>
      obtain ⟨turns, run⟩ := hloop
      rw [hc']
      exact ⟨_, run.snoc ⟨hadm, hstep⟩⟩
  | writes _ _ _ _ hemit | others _ _ _ _ _ hemit =>
      rw [emit_loop hemit]
      exact hloop

/-- The file has the lines of the records behind what it had before, and the records are what has
been told so far, but for what is still to be written. -/
structure Recorded (file : Bytes) (c : Chronicle E) (records : List LogRecord) : Prop where
  file : c.logger.file = file ++ fileOf records
  whole : ∀ record ∈ records, record.entry.Whole
  pending : ∀ entry ∈ c.outbox, entry.Whole
  ready : c.outbox ≠ [] → c.logger.ready = true
  told : Told c.loop.orch.config c.loop.orch.nextConnectionId.toNat c.loop.orch.connections
    (records.map LogRecord.entry ++ c.outbox)

/-- A whole line is written by a logger that is ready. -/
theorem emit_ok (hready : c.logger.ready = true) (hwhole : entry.Whole) (ts : LogTimestamp)
    (outbox : List LogEntry) : c.emit entry ts outbox
      = .ok { c with
          outbox := outbox
          logger := { c.logger with file := c.logger.file ++ (entry.line ts ++ [lf]) } } := by
  simp only [emit, Logger.emit, hready, hwhole.actor, hwhole.detail, clip_text hwhole ts,
    Bool.not_true, Bool.false_eq_true, if_false]

theorem fileOf_append (records : List LogRecord) (entry : LogEntry) (ts : LogTimestamp) :
    fileOf (records ++ [⟨ts, entry⟩]) = fileOf records ++ (entry.line ts ++ [lf]) := by
  rw [fileOf, List.flatMap_append, List.flatMap_singleton]
  rfl

section Step

variable (hrecorded : Recorded file c records)
include hrecorded

/-- A line goes from the outbox to the file. -/
theorem Recorded.write {rest : List LogEntry} (houtbox : c.outbox = entry :: rest)
    (ts : LogTimestamp) : ∃ c', c.emit entry ts rest = .ok c'
      ∧ Recorded file c' (records ++ [⟨ts, entry⟩]) := by
  have hready := hrecorded.ready (by simp [houtbox])
  have hpending := hrecorded.pending
  have htold := hrecorded.told
  rw [houtbox] at hpending htold
  obtain ⟨hwhole, hrest⟩ := List.forall_mem_cons.mp hpending
  refine ⟨_, emit_ok hready hwhole ts rest, ?_, ?_, hrest, fun _ => hready, ?_⟩
  · rw [fileOf_append, hrecorded.file, List.append_assoc]
  · intro record hrecord
    rcases List.mem_append.mp hrecord with hrecord | hrecord
    · exact hrecorded.whole record hrecord
    · rw [List.mem_singleton.mp hrecord]
      exact hwhole
  · simpa using htold

/-- Another thread writes a line. -/
theorem Recorded.others (hready : c.logger.ready = true) (hwhole : entry.Whole)
    (hthread : entry.id.threadId ≠ c.loop.orch.config.threadId.toNat) (ts : LogTimestamp) :
    ∃ c', c.emit entry ts c.outbox = .ok c' ∧ Recorded file c' (records ++ [⟨ts, entry⟩]) := by
  refine ⟨_, emit_ok hready hwhole ts c.outbox, ?_, ?_, hrecorded.pending, hrecorded.ready, ?_⟩
  · rw [fileOf_append, hrecorded.file, List.append_assoc]
  · intro record hrecord
    rcases List.mem_append.mp hrecord with hrecord | hrecord
    · exact hrecorded.whole record hrecord
    · rw [List.mem_singleton.mp hrecord]
      exact hwhole
  · rw [List.map_append, List.map_cons, List.map_nil]
    exact hrecorded.told.others hthread

end Step

/-- What is known of the loop of a chronicle. -/
theorem Reachable.facts (hcreated : orch.Created) (h : Reachable orch totalTarget file c) :
    Loop.Kept (fun _ _ => True) c.loop ∧ c.loop.orch.config = orch.config
      ∧ c.loop.orch.nextConnectionId.toNat ≤ c.loop.orch.attempts + 1 := by
  have hwhen := h.loop.reachableWhen (C := fun _ _ => True) fun _ _ => trivial
  refine ⟨h.loop.kept hcreated, hwhen.config_eq hcreated fun _ _ => trivial, ?_⟩
  refine (hwhen.invariant (I := fun l => l.orch.nextConnectionId.toNat ≤ l.orch.attempts + 1)
    hcreated (fun _ _ => trivial) ?_ fun l l' _ hle hturned => hturned.identifiers.2 hle).1
  obtain ⟨_, _, _, _, _, _, _, _, _, hcreate⟩ := hcreated
  obtain ⟨tlsCtx, -, rfl⟩ := create_ok hcreate
  exact Nat.le_add_left 1 _

theorem attempts_mono (hcreated : orch.Created) (h : Reachable orch totalTarget file c)
    (hsteps : (machine E).Steps c occurrence c') :
    c.loop.orch.attempts ≤ c'.loop.orch.attempts := by
  cases occurs_of_steps hsteps with
  | logger logger _ _ hc' =>
      rw [hc']
  | turns turn l _ _ hadm hstep hc' =>
      rw [hc']
      have hctx := (h.facts hcreated).1.tended.context
      have hturned : Loop.Turned (fun _ _ => True) c.loop l :=
        Loop.turned_of_steps hctx ⟨⟨hadm, fun _ _ _ _ => trivial⟩, hstep⟩
      exact hturned.identifiers.1
  | writes _ _ _ _ hemit | others _ _ _ _ _ hemit =>
      rw [emit_loop hemit]

theorem Recorded.step (hcreated : orch.Created) (htexts : CertTexts E)
    (hbracket : 93 ∉ orch.config.actor) (h : Reachable orch totalTarget file c)
    (hrecorded : Recorded file c records) (hsteps : (machine E).Steps c occurrence c')
    (hfew : c'.loop.orch.attempts + 2 < 2 ^ 32) : ∃ records', Recorded file c' records' := by
  have hmono := attempts_mono hcreated h hsteps
  obtain ⟨hkept, hconfig, hnext⟩ := h.facts hcreated
  cases occurs_of_steps hsteps with
  | logger logger hfile hready hc' =>
      rw [hc']
      exact ⟨records, hfile.trans hrecorded.file, hrecorded.whole, hrecorded.pending,
        fun hne => hready hne (hrecorded.ready hne), hrecorded.told⟩
  | turns turn l hready houtbox hadm hstep hc' =>
      have htold := hrecorded.told
      rw [houtbox, List.append_nil] at htold
      have htells := Loop.emitted_tells htexts hkept hadm hstep
      have hturned : Loop.Turned (fun _ _ => True) c.loop l :=
        Loop.turned_of_steps hkept.tended.context ⟨⟨hadm, fun _ _ _ _ => trivial⟩, hstep⟩
      rw [hc']
      refine ⟨records, hrecorded.file, hrecorded.whole, ?_, fun _ => hready, ?_⟩
      · exact htold.whole htells (hconfig ▸ hbracket)
      · apply htold.tells htells hturned.fixed.1
        omega
  | writes ts entry rest houtbox hemit =>
      obtain ⟨u, hu, hrecorded'⟩ := hrecorded.write houtbox ts
      rw [Except.ok.inj (hemit.symm.trans hu)]
      exact ⟨_, hrecorded'⟩
  | others ts entry hready hwhole hthread hemit =>
      obtain ⟨u, hu, hrecorded'⟩ := hrecorded.others hready hwhole hthread ts
      rw [Except.ok.inj (hemit.symm.trans hu)]
      exact ⟨_, hrecorded'⟩

end Chronicle

end SmtpClient
