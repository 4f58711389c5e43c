import SmtpClient.Proof.InFlight

/-!
# What the wire carries

Submitted and accepted bytes are compared along a run. They agree whenever nothing is being written,
provided no write of handshake output was cut short: the handshake handler takes a write completion
of any length for a complete one, while the other two write handlers give the connection up.
-/

namespace SmtpClient

variable {E : TlsEngine}

namespace Conn

open World

/-- What an operation in flight has left to carry. -/
def outstanding (w : World E) : Bytes :=
  w.inFlight.flatMap fun op => if op.kind = .write then w.conn.contents op.buf op.bufLen else []

def Settled (trace : List Effect) : Prop := submittedBytes trace = acceptedBytes trace

def Carried (w : World E) : Prop :=
  w.conn.state ≠ .error → w.conn.state ≠ .timedOut →
    submittedBytes w.trace = acceptedBytes w.trace ++ outstanding w

/-- During the handshake a write completion reports all of what was submitted. -/
def FullHandshakeWrites (w : World E) : Event E → Prop
  | .completion _ op result data _ =>
      w.conn.state = .tlsHandshaking → op.kind = .write → result = 0 →
        data.length = w.conn.wireWriteLen
  | _ => True

instance (w : World E) : (event : Event E) → Decidable (FullHandshakeWrites w event)
  | .completion _ op result data _ =>
      inferInstanceAs (Decidable (w.conn.state = .tlsHandshaking → op.kind = .write → result = 0 →
        data.length = w.conn.wireWriteLen))
  | .timeout _ | .others _ => inferInstanceAs (Decidable True)

theorem Settled.append {trace : List Effect} (h : Settled trace) (effects : List Effect)
    (heffects : Settled effects) : Settled (trace ++ effects) := by
  unfold Settled at *
  rw [submittedBytes_append, acceptedBytes_append, h, heffects]

theorem Carried.of_error {w : World E} (hstate : w.conn.state = .error) : Carried w :=
  fun herror => absurd hstate herror

section Exits

variable {env : Env E} {identity plaintext input : Bytes} {nowMs : Nat} {w w' : World E}
  {tls : E.State} {result : IoResult}

theorem carried_reads (hidle : w.inFlight = []) (hsettled : Settled w.trace) :
    Carried (reads env w) := by
  intro _ _
  have hkind : (readOp w.conn).kind = .read := by
    unfold readOp
    cases w.conn.tls <;> rfl
  have hnothing : outstanding (reads env w) = [] := by
    by_cases hrc : env.submitRc = 0 <;> simp [outstanding, reads, hidle, hrc, hkind]
  have hsettled' : Settled (reads env w).trace := by
    simpa [reads] using hsettled.append [.submitRead env.submitRc] rfl
  rw [hnothing, List.append_nil]
  exact hsettled'

theorem carried_submitWrite {buf : BufRef} {len : Nat} {payload : Payload} {wire : Bytes}
    (hidle : w.inFlight = []) (hsettled : Settled w.trace)
    (hwire : w.conn.contents buf len = wire) :
    Carried (orFail (w.submit env ⟨.write, buf, len⟩ (.submitWrite payload wire env.submitRc))) := by
  intro herror _
  have hrc : env.submitRc = 0 := by
    by_contra hrc
    exact herror (by simp [hrc])
  have hwire' : { w.conn with op := ⟨.write, buf, len⟩ }.contents buf len = wire := by
    rw [← hwire]
    rfl
  have houtstanding : outstanding
      (orFail (w.submit env ⟨.write, buf, len⟩ (.submitWrite payload wire env.submitRc))) = wire := by
    simp [outstanding, hidle, hrc, hwire']
  rw [houtstanding, orFail_submit_trace, submittedBytes_append, acceptedBytes_append, hsettled]
  simp [submittedBytes, acceptedBytes]

theorem SubmitsCommand.carried (h : SubmitsCommand env w plaintext w') (hidle : w.inFlight = [])
    (hsettled : Settled w.trace) : Carried w' := by
  cases h with
  | plain htls len hlen => exact carried_submitWrite hidle hsettled hlen
  | encrypted tls htls hdone out hout hstatus =>
      refine carried_submitWrite hidle ?_ ?_
      · exact hsettled.append _ rfl
      · subst hout
        exact w.conn.cipherBuf.slice_blit_zero (E.encrypt_out_le tls plaintext readBufSize)
  | encryptFailed => exact .of_error rfl

theorem SendsEhlo.carried (h : SendsEhlo env identity nowMs w w') (hidle : w.inFlight = [])
    (hsettled : Settled w.trace) : Carried w' := by
  cases h with
  | tooLong _ hquits => exact .of_error hquits.state
  | submits _ _ hsubmits => exact hsubmits.carried hidle (hsettled.append _ rfl)

theorem Drives.carried (h : Drives env w tls input w') (hidle : w.inFlight = [])
    (hsettled : Settled w.trace) : Carried w' := by
  have hdriven : Settled (driveHandshake w tls input).1.trace := hsettled.append _ rfl
  cases h with
  | wantWrite out hout hstatus =>
      refine carried_submitWrite hidle hdriven ?_
      subst hout
      exact w.conn.cipherBuf.slice_blit_zero (E.handshake_out_le tls input readBufSize)
  | wantRead hstatus =>
      intro _ _
      have hnothing : outstanding (orFail ((driveHandshake w tls input).1.submit env
          ⟨.read, .cipherBuf, readBufSize⟩ (.submitRead env.submitRc))) = [] := by
        by_cases hrc : env.submitRc = 0 <;> simp [outstanding, driveHandshake, hidle, hrc]
      rw [hnothing, List.append_nil, orFail_submit_trace]
      exact hdriven.append _ rfl
  | refused _ hquits => exact .of_error hquits.state

theorem Begins.carried (h : Begins env nowMs w w') (hidle : w.inFlight = [])
    (hsettled : Settled w.trace) : Carried w' := by
  cases h with
  | createFailed _ _ _ hquits => exact .of_error hquits.state
  | drives _ _ _ _ _ hdrives =>
      refine hdrives.carried hidle ?_
      have hcreated := hsettled.append
        [.tlsCreate w.conn.actor w.conn.tlsTrustWithoutValidation true] rfl
      exact hcreated.append [.log _ _] rfl

theorem Handled.carried (h : Handled env identity nowMs w result w') (hidle : w.inFlight = [])
    (hhandshake : w.conn.state = .tlsHandshaking → result.kind = .write → result.result = 0 →
      result.bytesTransferred = w.conn.wireWriteLen)
    (hsettled : (result.kind = .write → result.bytesTransferred = w.conn.wireWriteLen) →
      Settled w.trace)
    (hexpects : expects w.conn.state result.kind = true) : Carried w' := by
  have hquiet (hnever : expects w.conn.state .write = false) : Settled w.trace := by
    apply hsettled
    intro hwrite
    rw [hwrite, hnever] at hexpects
    exact absurd hexpects (by decide)
  cases h with
  | refuses _ hquits => exact .of_error hquits.state
  | proceeds hresult hproceeds =>
      cases hproceeds with
      | connected hstate =>
          exact carried_reads hidle ((hquiet (by rw [hstate]; rfl)).append _ rfl)
      | connectedImplicit hstate _ hbegins =>
          exact hbegins.carried hidle ((hquiet (by rw [hstate]; rfl)).append _ rfl)
      | waits hstate =>
          refine carried_reads hidle (hquiet ?_)
          cases hs : w.conn.state <;> simp_all [awaitsReply, expects]
      | greeted hstate _ reply _ _ _ hsends =>
          exact hsends.carried hidle ((hquiet (by rw [hstate]; rfl)).append _ rfl)
      | ehloSent _ hfull | starttlsSent _ hfull =>
          exact carried_reads hidle (hsettled fun _ => hfull)
      | ready hstate _ reply caps =>
          intro _ _
          have hnothing : outstanding (readied w result.bytesTransferred caps) = [] := by
            simp [outstanding, readied, capabilitiesOf, grown, hidle]
          rw [hnothing, List.append_nil]
          exact (hquiet (by rw [hstate]; rfl)).append _ rfl
      | starttlsWanted hstate _ reply caps _ _ _ _ hsubmits =>
          refine hsubmits.carried hidle ?_
          have hlogged := (hquiet (by rw [hstate]; rfl)).append
            [.log .capabilities (Cap.formatSummary caps 256)] rfl
          exact hlogged.append _ rfl
      | starttlsAccepted hstate _ reply _ _ hbegins =>
          exact hbegins.carried hidle (hquiet (by rw [hstate]; rfl))
      | drives hstate _ _ _ _ hdrives =>
          exact hdrives.carried hidle (hsettled fun hwrite => hhandshake hstate hwrite hresult)
      | securedFirst hstate =>
          refine carried_reads hidle ?_
          have hwritten := hsettled fun hwrite => hhandshake hstate hwrite hresult
          exact (hwritten.append [.tlsHandshake _ _ _] rfl).append _ rfl
      | securedAgain hstate _ _ _ _ _ _ hsends =>
          refine hsends.carried hidle ?_
          have hwritten := hsettled fun hwrite => hhandshake hstate hwrite hresult
          exact (hwritten.append [.tlsHandshake _ _ _] rfl).append _ rfl

theorem OnIo.carried (h : OnIo env identity nowMs w result w') (hidle : w.inFlight = [])
    (hhandshake : w.conn.state = .tlsHandshaking → result.kind = .write → result.result = 0 →
      result.bytesTransferred = w.conn.wireWriteLen)
    (hsettled : (result.kind = .write → result.bytesTransferred = w.conn.wireWriteLen) →
      Settled w.trace)
    (hexpects : expects w.conn.state result.kind = true) : Carried w' := by
  have hread {tls : E.State} (hdecrypts : Decrypts w result tls) :
      Settled (decrypted w tls result.bytesTransferred).trace := by
    refine (hsettled fun hwrite => ?_).append _ rfl
    exact absurd (hdecrypts.kind.symm.trans hwrite) (by decide)
  cases h with
  | direct _ hhandled => exact hhandled.carried hidle hhandshake hsettled hexpects
  | full _ _ _ hquits => exact .of_error hquits.state
  | undecided tls hdecrypts => exact carried_reads hidle (hread hdecrypts)
  | broken _ _ _ _ _ hquits => exact .of_error hquits.state
  | delivered tls hdecrypts _ _ _ hhandled =>
      refine hhandled.carried hidle (fun hstate => ?_) (fun _ => hread hdecrypts) hexpects
      exact absurd hstate hdecrypts.state

theorem Handled.error_of_short (h : Handled env identity nowMs w result w')
    (hkind : result.kind = .write) (hexpects : expects w.conn.state result.kind = true)
    (hshort : result.bytesTransferred ≠ w.conn.wireWriteLen)
    (hhandshake : w.conn.state = .tlsHandshaking → result.result ≠ 0) :
    w'.conn.state = .error := by
  rw [hkind] at hexpects
  cases h with
  | refuses _ hquits => exact hquits.state
  | proceeds hresult hproceeds =>
      have hnot : w.conn.state ≠ .tlsHandshaking := fun hstate => hhandshake hstate hresult
      cases hproceeds with
      | ehloSent _ hfull | starttlsSent _ hfull => exact absurd hfull hshort
      | waits hstate => cases hs : w.conn.state <;> simp_all [awaitsReply, expects]
      | drives hstate | securedFirst hstate | securedAgain hstate => exact absurd hstate hnot
      | connected hstate | connectedImplicit hstate | greeted hstate | ready hstate
      | starttlsWanted hstate | starttlsAccepted hstate =>
          rw [hstate] at hexpects
          exact absurd hexpects (by decide)

end Exits

theorem settled_deliver {w : World E} {op : IoOp} {result : Int} {data : Bytes}
    (hcarried : submittedBytes w.trace = acceptedBytes w.trace ++ outstanding w)
    (hflight : Flight w) (hlive : w.conn.state.terminal = false)
    (hdelivers : Delivers w op result data)
    (hfull : op.kind = .write → data.length = w.conn.wireWriteLen) :
    Settled (w.deliver op result data).trace := by
  obtain ⟨hop, -, -⟩ := hflight.deliver hlive hdelivers
  obtain ⟨hone, hfits⟩ := hflight.live hlive
  unfold Settled
  rw [deliver_trace, submittedBytes_append, acceptedBytes_append, hcarried, hop]
  cases hkind : w.conn.op.kind with
  | connect | read => simp [outstanding, hone, hkind, submittedBytes, acceptedBytes]
  | write =>
      rw [← hop] at hkind
      have hlen : op.bufLen = data.length := by
        rw [hfull hkind, hop]
        rw [hop] at hkind
        unfold OpFits at hfits
        cases hs : w.conn.state <;> simp only [hs] at hfits
        case sendingEhlo | sendingStarttls => rw [hfits]
        case tlsHandshaking =>
          rcases hfits with hfits | hfits
          · exact absurd hkind (by simp [hfits])
          · rw [hfits]
        case connecting => exact absurd hkind (by simp [hfits])
        case waitBanner | waitEhlo | waitStarttlsReply =>
          rw [hfits, readOp] at hkind
          cases htls : w.conn.tls <;> exact absurd hkind (by simp [htls])
        all_goals
          rw [hs] at hlive
          exact absurd hlive (by decide)
      have hdata : w.conn.contents op.buf op.bufLen = data := by
        rw [hlen]
        exact (hdelivers.sent hkind).symm
      rw [hop] at hkind hdata
      simp [outstanding, hone, hkind, hdata, submittedBytes, acceptedBytes]

theorem carried_of_reachableWhen {identity : Bytes} {w : World E}
    (h : ReachableWhen FullHandshakeWrites identity w) : Carried w := by
  refine h.invariant (fun w hstart => ?_) fun w event w' hreach hcarried hmeets hstep => ?_
  · obtain ⟨_, _, _, _, _, _, _, _, -, -, rfl⟩ := hstart.shape
    exact fun _ _ => rfl
  · have hflight := flight_of_reachable hreach
    cases took_of_steps hstep with
    | completes env op result data nowMs hlive hdelivers honIo =>
        obtain ⟨herror, htimedOut⟩ := ne_of_live hlive
        obtain ⟨-, hidle, hexpects⟩ := hflight.deliver hlive hdelivers
        refine honIo.carried hidle ?_ ?_ (by simpa using hexpects)
        · simpa only [FullHandshakeWrites, deliver_state, deliver_wireWriteLen] using hmeets
        · simpa using settled_deliver (hcarried herror htimedOut) hflight hlive hdelivers
    | inTime => exact hcarried
    | expires => exact fun _ htimedOut => absurd rfl htimedOut
    | others => exact hcarried

/-- **The wire carries what was submitted.** In a run without short writes of handshake output, a
connection that has not failed and is writing nothing has put on the wire the buffers it submitted,
in order and in full, and a write completion that is not complete ends it. -/
theorem wire_carries_submitted {identity : Bytes} {w : World E}
    (h : ReachableWhen FullHandshakeWrites identity w) :
    (w.conn.state ≠ .error → w.conn.state ≠ .timedOut →
        (∀ op ∈ w.inFlight, op.kind ≠ .write) → acceptedBytes w.trace = submittedBytes w.trace)
      ∧ ∀ env op result data nowMs w',
          FullHandshakeWrites w (.completion env op result data nowMs) →
          (machine E identity).Steps w (.completion env op result data nowMs) w' →
          op.kind = .write → data.length ≠ w.conn.wireWriteLen → w'.conn.state = .error := by
  constructor
  · intro herror htimedOut hnone
    have hnothing : outstanding w = [] := by
      apply List.flatMap_eq_nil_iff.mpr
      intro op hop
      rw [if_neg (hnone op hop)]
    rw [carried_of_reachableWhen h herror htimedOut, hnothing, List.append_nil]
  · intro env op result data nowMs w' hmeets hstep hkind hshort
    have hflight := flight_of_reachable h.reachable
    cases took_of_steps hstep with
    | completes _ _ _ _ _ hlive hdelivers honIo =>
        obtain ⟨-, -, hexpects⟩ := hflight.deliver hlive hdelivers
        cases honIo with
        | direct _ hhandled =>
            refine hhandled.error_of_short hkind (by simpa using hexpects) (by simpa using hshort) ?_
            intro hstate hzero
            exact hshort (hmeets (by simpa using hstate) hkind hzero)
        | full _ hdecrypts | undecided _ hdecrypts | broken _ hdecrypts
        | delivered _ hdecrypts => exact absurd (hdecrypts.kind.symm.trans hkind) (by decide)

/-- An upgraded session over the record engine, whose handshake output goes out in one piece. -/
theorem wire_carries_submitted_upgraded :
    ∃ w, playSampleWhen sampleInfo FullHandshakeWrites .explicit upgradeScript = some w
      ∧ w.conn.state = .ready ∧ acceptedBytes w.trace = submittedBytes w.trace := by
  have hplay : (playSampleWhen sampleInfo FullHandshakeWrites .explicit upgradeScript).map
      (fun w => (w.conn.state, w.inFlight)) = some (.ready, []) := by decide +kernel
  obtain ⟨w, hw, heq⟩ := Option.map_eq_some_iff.mp hplay
  obtain ⟨hready, hidle⟩ := Prod.mk.inj heq
  obtain ⟨hcarries, -⟩ := wire_carries_submitted (reachableWhen_of_playSampleWhen hw)
  refine ⟨w, hw, hready, hcarries ?_ ?_ ?_⟩ <;> simp [hready, hidle]

/-- The first byte of the client's handshake flight goes out, the rest never does, and the session
goes on to wait for the greeting. -/
theorem short_handshake_write :
    ∃ w, playSample sampleInfo .implicit
        [.connected, .sent 1, .received (RecordEngine.record RecordEngine.handshakeType [])] = some w
      ∧ Reachable (bytes "me") w ∧ w.conn.state = .waitBanner
      ∧ (∀ op ∈ w.inFlight, op.kind ≠ .write)
      ∧ acceptedBytes w.trace ≠ submittedBytes w.trace := by
  have hplay : (playSample sampleInfo .implicit
      [.connected, .sent 1, .received (RecordEngine.record RecordEngine.handshakeType [])]).map
      (fun w => (w.conn.state, w.inFlight.map IoOp.kind,
        acceptedBytes w.trace == submittedBytes w.trace)) = some (.waitBanner, [.read], false) := by
    decide +kernel
  obtain ⟨w, hw, heq⟩ := Option.map_eq_some_iff.mp hplay
  simp only [Prod.mk.injEq, beq_eq_false_iff_ne] at heq
  obtain ⟨hstate, hkinds, hne⟩ := heq
  refine ⟨w, hw, reachable_of_playSample hw, hstate, ?_, hne⟩
  intro op hop
  have hread := List.mem_map_of_mem (f := IoOp.kind) hop
  rw [hkinds, List.mem_singleton] at hread
  simp [hread]

end Conn

end SmtpClient
