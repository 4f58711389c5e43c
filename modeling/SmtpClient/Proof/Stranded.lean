import SmtpClient.Proof.LogText

/-!
# Records left behind in the engine

Each raw read is followed by one call to the engine, and each call hands out at most one record. So
a raw read is submitted with nothing left behind only if the peer's records fall into the reads one
by one: a read that does not finish the session completes at most one record, and the last flight of
the handshake completes none.
-/

namespace SmtpClient

variable {E : TlsEngine}

namespace Conn

open World Protocol

/-- A text behind which the connection will read again: an incomplete reply with room for more, or a
greeting that is answered. -/
def GoesOn (state : ConnState) (text : Bytes) : Prop :=
  (Reply.read text maxReplyLines = .incomplete ∧ text.length < readBufSize)
    ∨ state = .waitBanner ∧ ∃ reply, Reply.read text maxReplyLines = .ok reply
      ∧ Reply.positive reply.code = true

/-- How the records of the peer fall into the raw reads. -/
def OneRecordAtATime (L : RecordLayer E) (w : World E) : Event E → Prop
  | .completion _ op result data _ => ∀ tls, w.conn.tls = some tls →
      (w.conn.state = .tlsHandshaking → result = 0 → (op.kind = .read → data ≠ []) →
          (E.handshake tls (handshakeBytes op data) readBufSize).status = .ok →
            L.held tls ++ L.arriving tls (handshakeBytes op data) = [])
        ∧ ∀ text, shown w result data = some text → GoesOn w.conn.state text →
          L.arriving tls data = [] ∨ ∃ only, L.arriving tls data = [only]
            ∧ only.length ≤ readBufSize - w.conn.readLen
  | _ => True

/-- Outside the handshake, and in it while it is read from, the engine has handed out all it has. -/
def Drained (L : RecordLayer E) (w : World E) : Prop :=
  w.conn.state.terminal = false →
    (w.conn.state ≠ .tlsHandshaking ∨ w.conn.op.kind = .read) →
      ∀ tls, w.conn.tls = some tls → L.held tls = []

section Exits

variable {L : RecordLayer E} {env : Env E} {identity plaintext input : Bytes} {nowMs : Nat}
  {w w' : World E} {tls : E.State} {result : IoResult}

theorem Drained.of_error (hstate : w.conn.state = .error) : Drained L w := by
  intro hlive
  rw [hstate] at hlive
  exact absurd hlive (by decide)

theorem drained_reads (h : ∀ tls, w.conn.tls = some tls → L.held tls = []) :
    Drained L (reads env w) := by
  intro _ _
  simpa [reads] using h

theorem SubmitsCommand.drained (h : SubmitsCommand env w plaintext w')
    (hheld : ∀ tls, w.conn.tls = some tls → L.held tls = []) : Drained L w' := by
  cases h with
  | plain htls len hlen =>
      intro _ _ tls hsome
      exact absurd hsome (by simp [htls])
  | encrypted tls htls hdone out hout hstatus =>
      intro _ _ tls' hsome
      obtain rfl : (E.encrypt tls plaintext readBufSize).next = tls' := by
        simpa [encrypting] using hsome
      rw [L.held_encrypt]
      exact hheld tls htls
  | encryptFailed => exact .of_error rfl

theorem SendsEhlo.drained (h : SendsEhlo env identity nowMs w w')
    (hheld : ∀ tls, w.conn.tls = some tls → L.held tls = []) : Drained L w' := by
  cases h with
  | tooLong _ hquits => exact .of_error hquits.state
  | submits _ _ hsubmits => exact hsubmits.drained hheld

theorem Drives.drained (h : Drives env w tls input w')
    (hstate : w.conn.state = .tlsHandshaking) : Drained L w' := by
  cases h with
  | wantWrite out hout hstatus =>
      intro hlive hread
      by_cases hrc : env.submitRc = 0 <;> simp [driveHandshake, hrc, hstate] at hlive hread
      exact absurd hlive (by decide)
  | wantRead hstatus =>
      intro _ _ tls' hsome
      obtain rfl : (E.handshake tls input readBufSize).next = tls' := by
        simpa [driveHandshake] using hsome
      have hnone := L.handshake_wantRead tls input readBufSize hstatus
      rw [L.held_handshake tls input readBufSize (by simp [hstatus]), hnone]
  | refused _ hquits => exact .of_error hquits.state

theorem Begins.drained (h : Begins env nowMs w w') : Drained L w' := by
  cases h with
  | createFailed _ _ _ hquits => exact .of_error hquits.state
  | drives _ _ _ _ _ hdrives => exact hdrives.drained rfl

theorem Handled.drained (h : Handled env identity nowMs w result w')
    (hheld : w.conn.state ≠ .tlsHandshaking →
      (awaitsReply w.conn.state = true → result.result = 0 ∧ result.bytesTransferred ≠ 0
        ∧ GoesOn w.conn.state (offered w result.bytesTransferred)) →
      ∀ tls, w.conn.tls = some tls → L.held tls = [])
    (hfinish : ∀ tls, w.conn.tls = some tls → result.result = 0 →
      (result.kind = .read → result.bytesTransferred ≠ 0) → w.conn.state = .tlsHandshaking →
      (E.handshake tls (handshakeInput w result) readBufSize).status = .ok →
        L.held tls ++ L.arriving tls (handshakeInput w result) = [])
    (hlength : awaitsReply w.conn.state = true → result.result = 0 →
      w.conn.readLen + result.bytesTransferred ≤ readBufSize) : Drained L w' := by
  have hquiet {state : ConnState} (hstate : w.conn.state = state)
      (hnot : state ≠ .tlsHandshaking) (hsilent : awaitsReply state = false) :
      ∀ tls, w.conn.tls = some tls → L.held tls = [] := by
    apply hheld (hstate ▸ hnot)
    intro hawaits
    rw [hstate, hsilent] at hawaits
    exact absurd hawaits (by decide)
  have hfinished {tls : E.State} (hstate : w.conn.state = .tlsHandshaking)
      (hresult : result.result = 0) (htls : w.conn.tls = some tls)
      (hstatus : (E.handshake tls (handshakeInput w result) readBufSize).status = .ok)
      (hbytes : result.kind = .read → result.bytesTransferred ≠ 0) :
      ∀ next, some (E.handshake tls (handshakeInput w result) readBufSize).next = some next →
        L.held next = [] := by
    rintro next heq
    obtain rfl := Option.some.inj heq
    rw [L.held_handshake _ _ _ (by simp [hstatus])]
    exact hfinish tls htls hresult hbytes hstate hstatus
  cases h with
  | refuses _ hquits => exact .of_error hquits.state
  | proceeds hresult hproceeds =>
      cases hproceeds with
      | connected hstate => exact drained_reads (hquiet hstate (by decide) rfl)
      | ehloSent hstate => exact drained_reads (hquiet hstate (by decide) rfl)
      | starttlsSent hstate => exact drained_reads (hquiet hstate (by decide) rfl)
      | connectedImplicit _ _ hbegins | starttlsAccepted _ _ _ _ _ hbegins =>
          exact hbegins.drained
      | waits hawaits hbytes hread hroom =>
          refine drained_reads (hheld ?_ fun _ => ⟨hresult, hbytes, .inl ⟨hread, ?_⟩⟩)
          · intro hstate
            rw [hstate] at hawaits
            exact absurd hawaits (by decide)
          · rwa [offered, w.conn.readBuf.length_slice (hlength hawaits hresult)]
      | greeted hstate hbytes reply hread _ hpositive hsends =>
          refine hsends.drained (hheld (by simp [hstate]) fun _ => ?_)
          exact ⟨hresult, hbytes, .inr ⟨hstate, reply, hread, hpositive⟩⟩
      | ready =>
          intro hlive
          cases hlive
      | starttlsWanted _ _ _ _ _ hnone _ _ hsubmits =>
          refine hsubmits.drained fun tls hsome => absurd hsome ?_
          simp [starttlsBuilt, capabilitiesOf, grown, hnone]
      | drives hstate _ _ _ _ hdrives => exact hdrives.drained hstate
      | securedFirst hstate tls htls hstatus hbytes =>
          exact drained_reads (hfinished hstate hresult htls hstatus hbytes)
      | securedAgain hstate tls htls hstatus hbytes _ _ hsends =>
          exact hsends.drained (hfinished hstate hresult htls hstatus hbytes)

end Exits

section Deliver

variable {L : RecordLayer E} {identity : Bytes} {w : World E} {op : IoOp} {result : Int}
  {data : Bytes} (h : Reachable identity w) (hlive : w.conn.state.terminal = false)
  (hdelivers : Delivers w op result data) (hdrained : Drained L w)
include h hlive hdelivers hdrained

theorem held_decrypted {tls : E.State} {env : Env E} {nowMs : Nat}
    (hmeets : OneRecordAtATime L w (.completion env op result data nowMs))
    (hdecrypts : Decrypts (w.deliver op result data) ⟨op.kind, result, data.length⟩ tls)
    (hstatus : (answer w tls data).status = .ok) (hbytes : (answer w tls data).out.length ≠ 0)
    (hgoesOn : GoesOn w.conn.state (offered (decrypted (w.deliver op result data) tls data.length)
      (answer w tls data).out.length)) : L.held (answer w tls data).next = [] := by
  have htls : w.conn.tls = some tls := by simpa using hdecrypts.tls
  have hnot : w.conn.state ≠ .tlsHandshaking := by simpa using hdecrypts.state
  have hshown := shown_decrypted h hlive hdelivers hdecrypts
  rw [if_pos ⟨hstatus, hbytes⟩] at hshown
  obtain ⟨-, hone⟩ := hmeets tls htls
  have harriving := hone _ hshown hgoesOn
  have hnone := hdrained hlive (.inl hnot) tls htls
  rcases L.decrypt_ok tls data _ hstatus with hnil | ⟨first, rest, hrecords, hout, hnext⟩
  · exact absurd (congrArg List.length hnil) hbytes
  rw [hnone, List.nil_append] at hrecords
  rcases harriving with hempty | ⟨only, honly, hfits⟩
  · exact absurd (hempty.symm.trans hrecords) (by simp)
  obtain ⟨rfl, rfl⟩ := List.cons.inj (honly.symm.trans hrecords)
  have hkept : L.held (answer w tls data).next = _ := hnext
  rw [hkept, if_neg (by omega)]

theorem drained_of_onIo {env : Env E} {nowMs : Nat} {w' : World E}
    (hmeets : OneRecordAtATime L w (.completion env op result data nowMs))
    (honIo : OnIo env identity nowMs (w.deliver op result data) ⟨op.kind, result, data.length⟩
      w') : Drained L w' := by
  have hflight := flight_of_reachable h
  have hears := hears_of_reachable h
  cases honIo with
  | direct hraw hhandled =>
      refine hhandled.drained (fun hnot _ tls htls => ?_) (fun tls htls hresult hbytes hstate => ?_)
        ?_
      · exact hdrained hlive (.inl (by simpa using hnot)) tls (by simpa using htls)
      · rw [deliver_state] at hstate
        rw [deliver_tls] at htls
        rw [handshakeInput_deliver h hlive hdelivers hstate]
        obtain ⟨hfinish, -⟩ := hmeets tls htls
        exact hfinish hstate hresult fun hkind => by simpa using hbytes hkind
      · intro hawaits hresult
        rw [deliver_state] at hawaits
        rw [deliver_readLen]
        exact room_deliver h hlive hdelivers (by simpa using hraw) hawaits hresult
  | full _ _ _ hquits => exact .of_error hquits.state
  | undecided tls hdecrypts _ _ hstatus =>
      apply drained_reads
      intro next hnext
      obtain ⟨hheld, -⟩ := L.decrypt_wantRead _ _ _ hstatus
      obtain rfl := Option.some.inj hnext
      exact hheld
  | broken _ _ _ _ _ hquits => exact .of_error hquits.state
  | delivered tls hdecrypts _ _ hstatus hhandled =>
      have heq := decryption_deliver h hlive hdelivers hdecrypts
      simp only [decryptedResult, heq] at hhandled hstatus
      have hnot : w.conn.state ≠ .tlsHandshaking := by simpa using hdecrypts.state
      obtain ⟨hawaits, -⟩ := deliver_of_decrypts hears hflight hlive hdelivers hdecrypts
      have hroom := hears.room hawaits
      have hout : (answer w tls data).out.length ≤ readBufSize - w.conn.readLen :=
        E.decrypt_out_le tls data _
      refine hhandled.drained (fun _ hgoesOn next hnext => ?_) (fun _ _ _ _ hstate => ?_) ?_
      · obtain rfl : (answer w tls data).next = next := by
          simpa [Conn.decrypted, heq] using hnext
        obtain ⟨-, hbytes, hgoesOn⟩ := hgoesOn (by simpa using hawaits)
        exact held_decrypted h hlive hdelivers hdrained hmeets hdecrypts hstatus hbytes
          (by simpa using hgoesOn)
      · exact absurd (by simpa using hstate) hnot
      · intro _ _
        simp only [Conn.decrypted, record_conn, modify_conn, deliver_readLen]
        omega

end Deliver

theorem drained_of_reachableWhen {L : RecordLayer E} {identity : Bytes} {w : World E}
    (h : ReachableWhen (OneRecordAtATime L) identity w) : Drained L w := by
  refine h.invariant (fun w hstart => ?_) fun w event w' hreach hdrained hmeets hstep => ?_
  · obtain ⟨_, _, _, _, _, _, _, _, -, -, rfl⟩ := hstart.shape
    exact fun _ _ tls htls => absurd htls (by simp [init])
  · cases took_of_steps hstep with
    | completes env op result data nowMs hlive hdelivers honIo =>
        exact drained_of_onIo hreach hlive hdelivers hdrained hmeets honIo
    | inTime => exact hdrained
    | expires =>
        intro hlive
        cases hlive
    | others => exact hdrained

/-- **No record is left behind.** In a run in which the records come one by one, a connection over
TLS that reads has been handed everything the engine holds, and has it all in front of the parser.
-/
theorem no_record_stranded {L : RecordLayer E} {identity : Bytes} {w : World E} {tls : E.State}
    (h : ReachableWhen (OneRecordAtATime L) identity w) (hlive : w.conn.state.terminal = false)
    (htls : w.conn.tls = some tls) {op : IoOp} (hop : op ∈ w.inFlight) (hread : op.kind = .read) :
    L.held tls = [] ∧ received w.trace = heard w.conn := by
  obtain ⟨herror, htimedOut⟩ := ne_of_live hlive
  obtain ⟨hone, -⟩ := (flight_of_reachable h.reachable).live hlive
  obtain rfl : op = w.conn.op := by simpa [hone] using hop
  exact ⟨drained_of_reachableWhen h hlive (.inr hread) tls htls,
    (hears_of_reachable h.reachable).text herror htimedOut⟩

section Sample

variable {info : TlsCertInfo}

/-- The records the record engine would hold. -/
def recordsIn (raw : Bytes) : List Bytes := RecordEngine.recordsWithin raw.length raw

/-- Enough for the condition, and can be evaluated: the handshake is fed no record of application
data, and behind it one at most, with room for it, comes to an engine that holds none. -/
def FewRecords (w : World (recordEngine info)) : Event (recordEngine info) → Prop
  | .completion _ op _ data _ => ∀ tls : RecordEngine.State, w.conn.tls = some tls →
      if w.conn.state = .tlsHandshaking then recordsIn (tls.raw ++ handshakeBytes op data) = []
      else recordsIn tls.raw = [] ∧ (recordsIn (tls.raw ++ data)).length ≤ 1
        ∧ ∀ only ∈ recordsIn (tls.raw ++ data), only.length ≤ readBufSize - w.conn.readLen
  | _ => True

instance (w : World (recordEngine info)) :
    (event : Event (recordEngine info)) → Decidable (FewRecords w event)
  | .completion _ op _ data _ =>
      decidable_of_iff (∀ tls ∈ (w.conn.tls : Option RecordEngine.State),
        if w.conn.state = .tlsHandshaking then recordsIn (tls.raw ++ handshakeBytes op data) = []
        else recordsIn tls.raw = [] ∧ (recordsIn (tls.raw ++ data)).length ≤ 1
          ∧ ∀ only ∈ recordsIn (tls.raw ++ data), only.length ≤ readBufSize - w.conn.readLen)
        Iff.rfl
  | .timeout _ => .isTrue trivial
  | .others _ => .isTrue trivial

theorem FewRecords.oneRecordAtATime {w : World (recordEngine info)}
    {event : Event (recordEngine info)} (h : FewRecords w event) :
    OneRecordAtATime (recordLayer info) w event := by
  have hrecords (raw : Bytes) : recordsIn raw = RecordEngine.dataRecords raw :=
    RecordEngine.recordsWithin_eq (Nat.le_refl _)
  cases event with
  | timeout | others => trivial
  | completion env op result data nowMs =>
      intro tls htls
      have hfew := h tls htls
      have harrives (input : Bytes) :
          (recordLayer info).held tls ++ (recordLayer info).arriving tls input
            = RecordEngine.dataRecords (RecordEngine.State.raw tls ++ input) :=
        RecordEngine.held_append_arriving tls input
      constructor
      · intro hstate _ _ _
        rw [if_pos hstate, hrecords] at hfew
        rw [harrives, hfew]
      · intro text hshown _
        obtain ⟨hawaits, -⟩ := awaitsReply_of_shown hshown
        have hstate : w.conn.state ≠ .tlsHandshaking := by
          intro hstate
          rw [hstate] at hawaits
          exact absurd hawaits (by decide)
        rw [if_neg hstate, hrecords, hrecords] at hfew
        obtain ⟨hheld, hone, hfits⟩ := hfew
        have harriving : (recordLayer info).arriving tls data
            = RecordEngine.dataRecords (RecordEngine.State.raw tls ++ data) := by
          rw [← harrives, show (recordLayer info).held tls = [] from hheld, List.nil_append]
        rw [harriving]
        cases hall : RecordEngine.dataRecords (RecordEngine.State.raw tls ++ data) with
        | nil => exact .inl rfl
        | cons only rest =>
            rw [hall] at hone hfits
            obtain rfl :=
              List.eq_nil_of_length_eq_zero (Nat.le_zero.1 (Nat.le_of_succ_le_succ hone))
            exact .inr ⟨only, rfl, hfits only List.mem_cons_self⟩

/-- A greeting of two lines in as many records, of which the second is only half a line: one by one
they are handed out, and the connection reads on. -/
theorem no_record_stranded_greeting :
    ∃ w tls, playSampleWhen sampleInfo FewRecords .implicit [.connected, .sentAll,
        .received (RecordEngine.record RecordEngine.handshakeType []),
        .received (RecordEngine.record RecordEngine.dataType (bytes "220-mx\r\n")),
        .received (RecordEngine.record RecordEngine.dataType (bytes "220 "))] = some w
      ∧ w.conn.state = .waitBanner ∧ w.conn.tls = some tls
      ∧ ⟨.read, .cipherBuf, readBufSize⟩ ∈ w.inFlight
      ∧ (recordLayer sampleInfo).held tls = [] ∧ received w.trace = bytes "220-mx\r\n220 " := by
  have hplay : (playSampleWhen sampleInfo FewRecords .implicit [.connected, .sentAll,
      .received (RecordEngine.record RecordEngine.handshakeType []),
      .received (RecordEngine.record RecordEngine.dataType (bytes "220-mx\r\n")),
      .received (RecordEngine.record RecordEngine.dataType (bytes "220 "))]).map (fun w =>
        (w.conn.state, w.conn.tls.isSome, w.inFlight, heard w.conn))
      = some (.waitBanner, true, [⟨.read, .cipherBuf, readBufSize⟩], bytes "220-mx\r\n220 ") := by
    decide +kernel
  obtain ⟨w, hw, heq⟩ := Option.map_eq_some_iff.mp hplay
  simp only [Prod.mk.injEq, Option.isSome_iff_exists] at heq
  obtain ⟨hstate, ⟨tls, htls⟩, hone, htext⟩ := heq
  have hop : (⟨.read, .cipherBuf, readBufSize⟩ : IoOp) ∈ w.inFlight := by simp [hone]
  have hreach := (reachableWhen_of_playSampleWhen hw).mono fun _ _ h => h.oneRecordAtATime
  obtain ⟨hheld, hreceived⟩ :=
    no_record_stranded hreach (by rw [hstate]; rfl) htls hop rfl
  exact ⟨w, tls, hw, hstate, htls, hop, hheld, hreceived.trans htext⟩

end Sample

/-- A greeting cut into two records that arrive in one read: the second is left in the engine, and
the connection reads on. -/
theorem record_stranded :
    ∃ w tls, playSample sampleInfo .implicit [.connected, .sentAll,
        .received (RecordEngine.record RecordEngine.handshakeType []),
        .received (RecordEngine.record RecordEngine.dataType (bytes "220 m")
          ++ RecordEngine.record RecordEngine.dataType (bytes "x\r\n"))] = some w
      ∧ Reachable (bytes "me") w ∧ w.conn.state = .waitBanner ∧ w.conn.tls = some tls
      ∧ ⟨.read, .cipherBuf, readBufSize⟩ ∈ w.inFlight
      ∧ (recordLayer sampleInfo).held tls = [bytes "x\r\n"] := by
  have hplay : (playSample sampleInfo .implicit [.connected, .sentAll,
      .received (RecordEngine.record RecordEngine.handshakeType []),
      .received (RecordEngine.record RecordEngine.dataType (bytes "220 m")
        ++ RecordEngine.record RecordEngine.dataType (bytes "x\r\n"))]).map (fun w =>
        (w.conn.state, w.conn.tls.map RecordEngine.State.raw, w.inFlight))
      = some (.waitBanner, some (RecordEngine.record RecordEngine.dataType (bytes "x\r\n")),
          [⟨.read, .cipherBuf, readBufSize⟩]) := by decide +kernel
  obtain ⟨w, hw, heq⟩ := Option.map_eq_some_iff.mp hplay
  simp only [Prod.mk.injEq] at heq
  obtain ⟨hstate, hraw, hone⟩ := heq
  obtain ⟨tls, htls, hraw⟩ := Option.map_eq_some_iff.mp hraw
  refine ⟨w, tls, hw, reachable_of_playSample hw, hstate, htls, by simp [hone], ?_⟩
  have htake := @RecordEngine.takeRecord_record (bytes "x\r\n") [] RecordEngine.dataType (by decide)
  rw [List.append_nil] at htake
  change RecordEngine.dataRecords (RecordEngine.State.raw tls) = _
  rw [hraw, RecordEngine.dataRecords_of_some htake, RecordEngine.dataRecords_of_none rfl]
  rfl

end Conn

end SmtpClient
