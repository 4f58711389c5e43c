import SmtpClient.Proof.PeerClose

/-!
# What a call hands to the reactor

A call submits one operation or none. Whether the reactor accepts it or not, it points into one of
the buffers of the connection, and the transfer it asks for ends inside that buffer.
-/

namespace SmtpClient

variable {E : TlsEngine}

/-- The stretch of memory an operation names is inside its buffer, and what is done there is what
the buffer is for. -/
def IoOp.Inside (op : IoOp) : Prop :=
  match op.buf with
  | .null => op.kind = .connect ∧ op.bufLen = 0
  | .readBuf offset => op.kind = .read ∧ 0 < op.bufLen ∧ offset + op.bufLen = readBufSize
  | .writeBuf => op.kind = .write ∧ 0 < op.bufLen ∧ op.bufLen < writeBufSize
  | .cipherBuf => op.kind = .read ∧ op.bufLen = readBufSize
      ∨ op.kind = .write ∧ op.bufLen ≤ readBufSize

/-- Where in its buffer an operation starts. -/
def BufRef.start : BufRef → Nat
  | .readBuf offset => offset
  | _ => 0

def BufRef.size : BufRef → Nat
  | .null => 0
  | .readBuf _ | .cipherBuf => readBufSize
  | .writeBuf => writeBufSize

theorem IoOp.Inside.fits {op : IoOp} (h : op.Inside) :
    op.buf.start + op.bufLen ≤ op.buf.size := by
  unfold IoOp.Inside at h
  cases hbuf : op.buf with
  | null =>
      rw [hbuf] at h
      exact Nat.le_of_eq ((Nat.zero_add _).trans h.2)
  | readBuf offset =>
      rw [hbuf] at h
      exact Nat.le_of_eq h.2.2
  | writeBuf =>
      rw [hbuf] at h
      exact Nat.le_of_lt ((Nat.zero_add _).trans_lt h.2.2)
  | cipherBuf =>
      rw [hbuf] at h
      refine Nat.le_trans (Nat.le_of_eq (Nat.zero_add _)) ?_
      rcases h with ⟨-, hall⟩ | ⟨-, hle⟩
      · exact Nat.le_of_eq hall
      · exact hle

/-- An operation as the connection that owns it stands: what is read goes behind what is already
there, and a write is as long as its completion will be asked to be. -/
structure IoOp.Placed (conn : Connection E) (op : IoOp) : Prop where
  inside : op.Inside
  behind : ∀ offset, op.buf = .readBuf offset → offset = conn.readLen
  whole : op.kind = .write → op.bufLen = conn.wireWriteLen

/-- A submission, as the trace shows it, of an operation of some kind. -/
inductive Effect.Asks (rc : Int) : IoKind → Effect → Prop where
  | read : Asks rc .read (.submitRead rc)
  | write (payload : Payload) (wire : Bytes) : Asks rc .write (.submitWrite payload wire rc)

theorem Effect.Asks.submits {rc : Int} {kind : IoKind} {effect : Effect}
    (h : effect.Asks rc kind) : effect.submits = true := by
  cases h <;> rfl

namespace Conn

open World

/-- What one call submits: nothing, and the connection is over, or the operation it leaves behind,
and the connection is over if the reactor has refused it. -/
inductive Submits (env : Env E) (w w' : World E) : Prop where
  | nothing (htrace : submissions w'.trace = submissions w.trace)
      (hover : w'.conn.state.terminal = true) (hinFlight : w'.inFlight = w.inFlight)
  | one (effect : Effect) (hasks : effect.Asks env.submitRc w'.conn.op.kind)
      (htrace : submissions w'.trace = submissions w.trace ++ [effect])
      (hplaced : w'.conn.op.Placed w'.conn)
      (hstate : w'.conn.state.terminal = true ↔ env.submitRc ≠ 0)
      (hinFlight : w'.inFlight
        = if env.submitRc = 0 then w'.conn.op :: w.inFlight else w.inFlight)

section Exits

variable {env : Env E} {identity plaintext input : Bytes} {nowMs : Nat} {w w' u : World E}
  {tls : E.State} {result : IoResult}

/-- Behind calls that leave the reactor alone. -/
theorem Submits.after (h : Submits env u w') (htrace : submissions u.trace = submissions w.trace)
    (hinFlight : u.inFlight = w.inFlight) : Submits env w w' := by
  cases h with
  | nothing hsame hover hheld => exact .nothing (hsame.trans htrace) hover (hheld.trans hinFlight)
  | one effect hasks hone hplaced hstate hheld =>
      rw [htrace] at hone
      rw [hinFlight] at hheld
      exact .one effect hasks hone hplaced hstate hheld

theorem Quits.submitted (h : Quits w w') : Submits env w w' := by
  apply Submits.nothing h.submissions_eq _ h.inFlight
  rw [h.state]
  rfl

theorem submits_orFail {op : IoOp} {effect : Effect} (hasks : effect.Asks env.submitRc op.kind)
    (hplaced : op.Placed w.conn) (hlive : w.conn.state.terminal = false) :
    Submits env w (orFail (w.submit env op effect)) := by
  apply Submits.one effect
  · simpa using hasks
  · simp [submissions, hasks.submits]
  · obtain ⟨hinside, hbehind, hwhole⟩ := hplaced
    refine ⟨?_, ?_, ?_⟩
    · simpa using hinside
    · simpa using hbehind
    · simpa using hwhole
  · by_cases hrc : env.submitRc = 0
    · simpa [hrc] using hlive
    · simp [hrc, ConnState.terminal]
  · simp

theorem placed_readOp {conn : Connection E}
    (hroom : conn.tls = none → conn.readLen < readBufSize) : (readOp conn).Placed conn := by
  unfold readOp
  cases htls : conn.tls with
  | some tls =>
      refine ⟨.inl ⟨rfl, rfl⟩, ?_, ?_⟩
      · intro offset hbuf
        cases hbuf
      · intro hkind
        cases hkind
  | none =>
      have hlt := hroom htls
      refine ⟨⟨rfl, ?_, ?_⟩, ?_, ?_⟩
      · exact Nat.sub_pos_of_lt hlt
      · exact Nat.add_sub_cancel' (Nat.le_of_lt hlt)
      · rintro offset ⟨⟩
        rfl
      · intro hkind
        cases hkind

theorem placed_cipherWrite {conn : Connection E} {out : Bytes}
    (hfits : out.length ≤ readBufSize) (hlen : conn.wireWriteLen = out.length) :
    (⟨.write, .cipherBuf, out.length⟩ : IoOp).Placed conn where
  inside := .inr ⟨rfl, hfits⟩
  behind := by
    intro offset hbuf
    cases hbuf
  whole _ := hlen.symm

theorem kind_readOp (conn : Connection E) : (readOp conn).kind = .read := by
  unfold readOp
  cases conn.tls <;> rfl

theorem submits_reads (hroom : w.conn.tls = none → w.conn.readLen < readBufSize)
    (hstate : awaitsReply w.conn.state = true) : Submits env w (reads env w) := by
  apply submits_orFail
  · rw [kind_readOp]
    exact .read
  · exact placed_readOp hroom
  · cases h : w.conn.state <;> simp_all [awaitsReply, ConnState.terminal]

/-- A command that leaves room for its NUL was built at the length it has. -/
theorem eq_length_of_slice {buffer : Buffer writeBufSize} {len : Nat}
    (hslice : buffer.slice 0 len = plaintext) (hshort : plaintext.length < writeBufSize) :
    len = plaintext.length := by
  have hlength : (buffer.slice 0 len).length = min len writeBufSize := by
    simp [Buffer.slice, buffer.length_eq]
  rw [hslice] at hlength
  omega

theorem SubmitsCommand.submitted (h : SubmitsCommand env w plaintext w')
    (hlive : w.conn.state.terminal = false) (hpos : 0 < plaintext.length)
    (hshort : plaintext.length < writeBufSize) : Submits env w w' := by
  cases h with
  | plain htls len hlen =>
      have hlength := eq_length_of_slice hlen hshort
      have hinside : (⟨.write, .writeBuf, len⟩ : IoOp).Inside := by
        rw [hlength]
        exact ⟨rfl, hpos, hshort⟩
      have hbehind : ∀ offset, BufRef.writeBuf = .readBuf offset → offset = w.conn.readLen := by
        intro offset hbuf
        cases hbuf
      refine Submits.after (submits_orFail (.write _ _) ⟨hinside, hbehind, fun _ => rfl⟩ ?_) rfl rfl
      exact hlive
  | encrypted tls htls hdone out hout hstatus =>
      have hfits : out.length ≤ readBufSize := by
        rw [← hout]
        exact E.encrypt_out_le tls plaintext readBufSize
      refine Submits.after (submits_orFail (.write _ _) (placed_cipherWrite hfits rfl) ?_) ?_ rfl
      · exact hlive
      · simp [encrypting, submissions, Effect.submits]
  | encryptFailed tls =>
      apply Submits.nothing
      · simp [encrypting, submissions, Effect.submits]
      · rfl
      · rfl

theorem length_ehloLine_pos : 0 < (ehloLine identity).length := by
  simp [ehloLine, bytes]

theorem SendsEhlo.submitted (h : SendsEhlo env identity nowMs w w') : Submits env w w' := by
  cases h with
  | tooLong _ hquits => exact hquits.submitted
  | submits hlen _ hsubmits =>
      have hshort : (ehloLine identity).length < writeBufSize :=
        Nat.lt_of_not_le (mt buildEhloCommand_eq_zero_iff.2 hlen)
      apply (hsubmits.submitted rfl length_ehloLine_pos hshort).after
      · simp [ehloBuilt, submissions, Effect.submits]
      · rfl

theorem submissions_driveHandshake :
    submissions (driveHandshake w tls input).1.trace = submissions w.trace := by
  simp [driveHandshake, submissions, Effect.submits]

theorem Drives.submitted (h : Drives env w tls input w')
    (hlive : w.conn.state.terminal = false) : Submits env w w' := by
  cases h with
  | wantWrite out hout hstatus =>
      have hfits : out.length ≤ readBufSize := by
        rw [← hout]
        exact E.handshake_out_le tls input readBufSize
      refine Submits.after (submits_orFail (.write _ _) (placed_cipherWrite hfits rfl) ?_)
        submissions_driveHandshake rfl
      exact hlive
  | wantRead hstatus =>
      refine Submits.after (submits_orFail .read ⟨.inl ⟨rfl, rfl⟩, ?_, ?_⟩ ?_)
        submissions_driveHandshake rfl
      · intro offset hbuf
        cases hbuf
      · intro hkind
        cases hkind
      exact hlive
  | refused _ hquits => exact hquits.submitted.after submissions_driveHandshake rfl

theorem Begins.submitted (h : Begins env nowMs w w') : Submits env w w' := by
  cases h with
  | createFailed _ _ _ hquits =>
      apply hquits.submitted.after
      · simp [submissions, Effect.submits]
      · rfl
  | drives _ _ tls _ _ hdrives =>
      apply (hdrives.submitted rfl).after
      · simp [handshaking, submissions, Effect.submits]
      · rfl

theorem Handled.submitted (h : Handled env identity nowMs w result w') : Submits env w w' := by
  cases h with
  | refuses _ hquits => exact hquits.submitted
  | proceeds _ hproceeds =>
      cases hproceeds with
      | connected =>
          refine Submits.after (submits_reads (fun _ => readBufSize_pos) rfl) ?_ rfl
          simp [submissions, Effect.submits]
      | connectedImplicit _ _ hbegins =>
          apply hbegins.submitted.after
          · simp [submissions, Effect.submits]
          · rfl
      | waits hstate _ _ hroom =>
          exact Submits.after (submits_reads (fun _ => hroom) hstate) rfl rfl
      | greeted _ _ _ _ _ _ hsends =>
          apply hsends.submitted.after
          · simp [greetedBy, grown, submissions, Effect.submits]
          · rfl
      | ehloSent | starttlsSent =>
          exact Submits.after (submits_reads (fun _ => readBufSize_pos) rfl) rfl rfl
      | ready =>
          apply Submits.nothing
          · simp [readied, capabilitiesOf, grown, submissions, Effect.submits]
          · rfl
          · rfl
      | starttlsWanted _ _ _ _ _ _ _ _ hsubmits =>
          apply (hsubmits.submitted rfl (by decide) (by decide)).after
          · simp [starttlsBuilt, capabilitiesOf, grown, submissions, Effect.submits]
          · rfl
      | starttlsAccepted _ _ _ _ _ hbegins => exact hbegins.submitted.after rfl rfl
      | drives hstate _ _ _ _ hdrives =>
          apply hdrives.submitted
          rw [hstate]
          rfl
      | securedFirst _ tls =>
          refine Submits.after (submits_reads (fun _ => readBufSize_pos) rfl) ?_ rfl
          simp [secured, driveHandshake, submissions, Effect.submits]
      | securedAgain _ tls _ _ _ _ _ hsends =>
          apply hsends.submitted.after
          · simp [secured, driveHandshake, submissions, Effect.submits]
          · rfl

theorem OnIo.submitted (h : OnIo env identity nowMs w result w')
    (hexpects : expects w.conn.state result.kind = true) : Submits env w w' := by
  cases h with
  | direct _ hhandled => exact hhandled.submitted
  | full _ _ _ hquits => exact hquits.submitted
  | undecided tls hdecrypts =>
      rw [hdecrypts.kind] at hexpects
      refine Submits.after (submits_reads ?_ ?_) submissions_decrypted rfl
      · intro hnone
        cases hnone
      · exact awaitsReply_of_expects hexpects hdecrypts.state
  | broken _ _ _ _ _ hquits => exact hquits.submitted.after submissions_decrypted rfl
  | delivered _ _ _ _ _ hhandled => exact hhandled.submitted.after submissions_decrypted rfl

end Exits

/-! ### Runs -/

/-- What one step asks of the reactor. -/
def AsksOnce (w w' : World E) : Prop :=
  submissions w'.trace = submissions w.trace
    ∨ ∃ rc effect, effect.Asks rc w'.conn.op.kind ∧ w'.conn.op.Placed w'.conn
      ∧ submissions w'.trace = submissions w.trace ++ [effect]

variable {identity : Bytes} {w w' : World E} {event : Event E}

theorem Took.asksOnce (h : Took identity w event w') (hflight : Flight w) : AsksOnce w w' := by
  cases h with
  | completes env op result data nowMs hlive hdelivers honIo =>
      obtain ⟨-, -, hexpects⟩ := hflight.deliver hlive hdelivers
      cases honIo.submitted (by simpa using hexpects) with
      | nothing htrace => exact .inl (htrace.trans submissions_deliver)
      | one effect hasks htrace hplaced =>
          rw [submissions_deliver] at htrace
          exact .inr ⟨_, effect, hasks, hplaced, htrace⟩
  | inTime | others => exact .inl rfl
  | expires =>
      refine .inl ?_
      simp [expired, submissions, Effect.submits]

theorem Took.placed (h : Took identity w event w') (hflight : Flight w)
    (hplaced : ∀ op ∈ w.inFlight, op.Placed w.conn) : ∀ op ∈ w'.inFlight, op.Placed w'.conn := by
  cases h with
  | completes env op result data nowMs hlive hdelivers honIo =>
      obtain ⟨-, hidle, hexpects⟩ := hflight.deliver hlive hdelivers
      cases honIo.submitted (by simpa using hexpects) with
      | nothing _ _ hinFlight =>
          rw [hinFlight, hidle]
          simp
      | one _ _ _ hnew _ hinFlight =>
          rw [hinFlight, hidle]
          split
          · simpa using hnew
          · simp
  | inTime | others => exact hplaced
  | expires =>
      intro op hop
      obtain ⟨hinside, hbehind, hwhole⟩ := hplaced op hop
      exact ⟨hinside, hbehind, hwhole⟩

theorem placed_of_reachable (h : Reachable identity w) :
    ∀ op ∈ w.inFlight, op.Placed w.conn := by
  obtain ⟨w₀, events, hstart, run⟩ := h
  refine run.relates (I := Reachable identity) (R := fun w => ∀ op ∈ w.inFlight, op.Placed w.conn)
    ⟨w₀, [], hstart, .nil⟩ (fun _ _ _ hreach hstep => hreach.step hstep) ?_
    fun u event u' hreach hplaced hstep => ?_
  · obtain ⟨_, _, _, _, _, _, _, _, -, -, rfl⟩ := hstart.shape
    intro op hop
    obtain rfl := List.mem_singleton.1 hop
    refine ⟨⟨rfl, rfl⟩, ?_, ?_⟩
    · intro offset hbuf
      cases hbuf
    · intro hkind
      cases hkind
  · exact (took_of_steps hstep).placed (flight_of_reachable hreach) hplaced

/-- **Inside its buffers.** In every run a step asks for one transfer at most, accepted or not; and
what is asked for, and whatever is in flight, starts and ends inside a buffer of the connection, a
read behind the bytes that are already there and a write at the length kept for its completion. -/
theorem operations_inside (h : Reachable identity w) :
    (∀ op ∈ w.inFlight, op.Placed w.conn ∧ op.buf.start + op.bufLen ≤ op.buf.size)
      ∧ ∀ event w', (machine E identity).Steps w event w' → AsksOnce w w' := by
  constructor
  · intro op hop
    have hplaced := placed_of_reachable h op hop
    exact ⟨hplaced, hplaced.inside.fits⟩
  · intro event w' hstep
    exact (took_of_steps hstep).asksOnce (flight_of_reachable h)

/-- A session that has been greeted in two pieces and has sent its EHLO, and of whose reply nine
bytes are there: the read in flight leaves them alone. -/
theorem operations_inside_partial :
    ∃ w op, playSample sampleInfo .none [.connected, .received (bytes "220 m"),
        .received (bytes "x\r\n"), .sentAll, .received (bytes "250-mx\r\n2")] = some w
      ∧ w.inFlight = [op] ∧ w.conn.readLen = 9 ∧ op.buf = .readBuf 9
      ∧ 9 + op.bufLen ≤ readBufSize := by
  have hplay : (playSample sampleInfo .none [.connected, .received (bytes "220 m"),
      .received (bytes "x\r\n"), .sentAll, .received (bytes "250-mx\r\n2")]).map
        (fun w => (w.inFlight, w.conn.readLen))
      = some ([⟨.read, .readBuf 9, readBufSize - 9⟩], 9) := by decide +kernel
  obtain ⟨w, hw, heq⟩ := Option.map_eq_some_iff.1 hplay
  obtain ⟨hone, hread⟩ := Prod.mk.inj heq
  refine ⟨w, _, hw, hone, hread, rfl, ?_⟩
  obtain ⟨-, hfits⟩ := (operations_inside (reachable_of_playSample hw)).1 _ (by
    rw [hone]
    exact List.mem_singleton_self _)
  exact hfits

end Conn

end SmtpClient
