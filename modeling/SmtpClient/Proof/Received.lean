import SmtpClient.Proof.InFlight

/-!
# The reply buffer holds what was received

Between two writes the connection accumulates one reply. What the parser is offered is exactly the
plaintext received since the last write, however it was cut into reads and records, and nothing else
in the buffer is ever looked at.
-/

namespace SmtpClient

variable {E : TlsEngine}

namespace Conn

open World Protocol

/-- The states in which `read_buf` holds a reply, in part or in whole. -/
def hears : ConnState → Bool
  | .waitBanner | .waitEhlo | .waitStarttlsReply | .ready => true
  | _ => false

/-- The part of the reply a connection has. -/
def heard (conn : Connection E) : Bytes :=
  if hears conn.state then conn.readBuf.slice 0 conn.readLen else []

/-- The trace accounts for the reply buffer, and the buffer is not full. -/
structure Hears (w : World E) : Prop where
  engine : (reception w.trace).1 = w.conn.tls.isSome
  text : w.conn.state ≠ .error → w.conn.state ≠ .timedOut → received w.trace = heard w.conn
  room : awaitsReply w.conn.state = true → w.conn.readLen < readBufSize

/-- A handler is called with `n` new bytes behind those it has. -/
structure Offers (w : World E) (n : Nat) : Prop where
  engine : (reception w.trace).1 = w.conn.tls.isSome
  reply : awaitsReply w.conn.state = true → received w.trace = offered w n
  silence : hears w.conn.state = false → received w.trace = []

section Exits

variable {env : Env E} {identity plaintext input : Bytes} {nowMs : Nat} {w w' : World E}
  {tls : E.State} {result : IoResult}

theorem reception_logs (trace : List Effect) (logs : List (LogEvent × Bytes)) :
    reception (trace ++ logs.map fun l => .log l.1 l.2) = reception trace := by
  rw [reception_append]
  induction logs with
  | nil => rfl
  | cons l logs ih => simpa [Effect.receive] using ih

theorem Quits.reception_eq (h : Quits w w') : reception w'.trace = reception w.trace := by
  obtain ⟨logs, htrace⟩ := h.trace
  rw [htrace, reception_logs]

theorem Hears.of_error (hstate : w.conn.state = .error)
    (hengine : (reception w.trace).1 = w.conn.tls.isSome) : Hears w where
  engine := hengine
  text herror := absurd hstate herror
  room hawaits := by
    rw [hstate] at hawaits
    exact absurd hawaits (by decide)

theorem Quits.hears_of (h : Quits w w') (hengine : (reception w.trace).1 = w.conn.tls.isSome) :
    Hears w' :=
  .of_error h.state (by rw [h.reception_eq, h.tls, hengine])

theorem hears_of_awaitsReply {state : ConnState} (h : awaitsReply state = true) :
    hears state = true := by
  cases state <;> simp_all [awaitsReply, hears]

theorem not_awaitsReply_of_not_hears {state : ConnState} (h : hears state = false) :
    awaitsReply state = false := by
  cases state <;> simp_all [awaitsReply, hears]

theorem readBufSize_pos : 0 < readBufSize := by decide

theorem awaitsReply_orFail_submit {op : IoOp} {effect : Effect} (h : hears w.conn.state = false) :
    awaitsReply (orFail (w.submit env op effect)).conn.state = false := by
  by_cases hrc : env.submitRc = 0
  · simpa [hrc] using not_awaitsReply_of_not_hears h
  · simp only [orFail_submit_conn, if_neg hrc]
    rfl

@[simp] theorem reception_reads : reception (reads env w).trace = reception w.trace := by
  simp [reads, Effect.receive]

theorem hears_reads (hengine : (reception w.trace).1 = w.conn.tls.isSome)
    (hstate : awaitsReply w.conn.state = true)
    (htext : received w.trace = w.conn.readBuf.slice 0 w.conn.readLen)
    (hroom : w.conn.readLen < readBufSize) : Hears (reads env w) := by
  refine ⟨?_, ?_, fun _ => by simpa [reads] using hroom⟩
  · rw [reception_reads, hengine]
    simp [reads]
  · intro herror _
    have hrc : env.submitRc = 0 := by
      by_contra hrc
      exact herror (by simp [reads, hrc])
    rw [received, reception_reads, ← received, htext]
    simp [heard, reads, hrc, hears_of_awaitsReply hstate]

theorem hears_submitWrite {op : IoOp} {payload : Payload} {wire : Bytes}
    (hengine : (reception w.trace).1 = w.conn.tls.isSome) (hstate : hears w.conn.state = false) :
    Hears (orFail (w.submit env op (.submitWrite payload wire env.submitRc))) := by
  refine ⟨by simpa [Effect.receive] using hengine, ?_, ?_⟩
  · intro herror _
    have hrc : env.submitRc = 0 := by
      by_contra hrc
      exact herror (by simp [hrc])
    simp [received, Effect.receive, heard, hrc, hstate]
  · intro hawaits
    rw [awaitsReply_orFail_submit hstate] at hawaits
    exact absurd hawaits (by decide)

theorem SubmitsCommand.hears_of (h : SubmitsCommand env w plaintext w')
    (hengine : (reception w.trace).1 = w.conn.tls.isSome)
    (hstate : sendsCommand w.conn.state = true) : Hears w' := by
  have hsilent : hears w.conn.state = false := by
    cases hs : w.conn.state <;> simp_all [sendsCommand, hears]
  cases h with
  | plain htls len hlen => exact hears_submitWrite hengine hsilent
  | encrypted tls htls hdone out hout hstatus =>
      refine hears_submitWrite ?_ hsilent
      simpa [encrypting, Effect.receive, htls] using hengine
  | encryptFailed tls htls =>
      refine .of_error rfl ?_
      simpa [encrypting, Effect.receive, htls] using hengine

theorem SendsEhlo.hears_of (h : SendsEhlo env identity nowMs w w')
    (hengine : (reception w.trace).1 = w.conn.tls.isSome) : Hears w' := by
  cases h with
  | tooLong _ hquits => exact hquits.hears_of hengine
  | submits _ _ hsubmits =>
      refine hsubmits.hears_of ?_ rfl
      simpa [ehloBuilt, Effect.receive] using hengine

theorem Drives.hears_of (h : Drives env w tls input w')
    (hengine : (reception w.trace).1 = true) (hstate : w.conn.state = .tlsHandshaking)
    (hsilent : received w.trace = []) : Hears w' := by
  have hengine' : (reception (driveHandshake w tls input).1.trace).1
      = (driveHandshake w tls input).1.conn.tls.isSome := by
    simpa [driveHandshake, Effect.receive] using hengine
  have hnot : hears (driveHandshake w tls input).1.conn.state = false := by
    simp [driveHandshake, hstate, hears]
  cases h with
  | wantWrite out hout hstatus => exact hears_submitWrite hengine' hnot
  | wantRead hstatus =>
      refine ⟨by simpa [Effect.receive] using hengine', ?_, ?_⟩
      · intro herror _
        have hrc : env.submitRc = 0 := by
          by_contra hrc
          exact herror (by simp [hrc])
        have hheard : heard (orFail ((driveHandshake w tls input).1.submit env
            ⟨.read, .cipherBuf, readBufSize⟩ (.submitRead env.submitRc))).conn = [] := by
          simp [heard, hrc, hnot]
        rw [hheard]
        simpa [received, Effect.receive, driveHandshake] using hsilent
      · intro hawaits
        rw [awaitsReply_orFail_submit hnot] at hawaits
        exact absurd hawaits (by decide)
  | refused _ hquits => exact hquits.hears_of hengine'

theorem Begins.hears_of (h : Begins env nowMs w w')
    (hengine : (reception w.trace).1 = w.conn.tls.isSome) : Hears w' := by
  cases h with
  | createFailed _ _ _ hquits =>
      refine hquits.hears_of ?_
      simpa [Effect.receive] using hengine
  | drives _ _ _ _ _ hdrives =>
      refine hdrives.hears_of ?_ rfl ?_ <;> simp [handshaking, Effect.receive, received]

theorem Handled.hears_of (h : Handled env identity nowMs w result w')
    (hoffers : Offers w result.bytesTransferred) : Hears w' := by
  have hengine := hoffers.engine
  cases h with
  | refuses _ hquits => exact hquits.hears_of hengine
  | proceeds _ hproceeds =>
      cases hproceeds with
      | connected hstate =>
          refine hears_reads (by simpa [Effect.receive] using hengine) rfl ?_ readBufSize_pos
          have hsilent := hoffers.silence (by rw [hstate]; rfl)
          simpa [received, Effect.receive] using hsilent
      | connectedImplicit _ _ hbegins =>
          exact hbegins.hears_of (by simpa [Effect.receive] using hengine)
      | waits hstate _ _ hroom =>
          exact hears_reads (by simpa [grown] using hengine) hstate (hoffers.reply hstate) hroom
      | greeted _ _ _ _ _ _ hsends =>
          exact hsends.hears_of (by simpa [greetedBy, grown, Effect.receive] using hengine)
      | ehloSent hstate | starttlsSent hstate =>
          refine hears_reads hengine rfl ?_ readBufSize_pos
          simpa using hoffers.silence (by rw [hstate]; rfl)
      | ready hstate =>
          refine ⟨by simpa [readied, capabilitiesOf, grown, Effect.receive] using hengine,
            fun _ _ => ?_, fun hawaits => absurd hawaits Bool.false_ne_true⟩
          have hreply := hoffers.reply (by rw [hstate]; rfl)
          simpa [readied, capabilitiesOf, grown, Effect.receive, received, heard, hears, offered]
            using hreply
      | starttlsWanted _ _ _ _ _ _ _ _ hsubmits =>
          refine hsubmits.hears_of ?_ rfl
          simpa [starttlsBuilt, capabilitiesOf, grown, Effect.receive] using hengine
      | starttlsAccepted _ _ _ _ _ hbegins =>
          exact hbegins.hears_of (by simpa [grown] using hengine)
      | drives hstate tls htls _ _ hdrives =>
          refine hdrives.hears_of (by simpa [htls] using hengine) hstate ?_
          exact hoffers.silence (by rw [hstate]; rfl)
      | securedFirst hstate tls htls =>
          refine hears_reads ?_ rfl ?_ readBufSize_pos
          · simpa [secured, driveHandshake, Effect.receive, htls] using hengine
          · have hsilent := hoffers.silence (by rw [hstate]; rfl)
            simpa [secured, driveHandshake, received, Effect.receive] using hsilent
      | securedAgain _ tls htls _ _ _ _ hsends =>
          refine hsends.hears_of ?_
          simpa [secured, driveHandshake, Effect.receive, htls] using hengine

end Exits

/-! ### What a completion brings -/

section Deliver

variable {w : World E} {op : IoOp} {result : Int} {data : Bytes}

theorem deliver_plain_read (h : Hears w) (hop : op = readOp w.conn) (htls : w.conn.tls = none)
    (hstate : awaitsReply w.conn.state = true) (hfits : data.length ≤ op.bufLen)
    (hheard : received w.trace = heard w.conn) :
    received (w.deliver op result data).trace = offered (w.deliver op result data) data.length := by
  have hroom := h.room hstate
  have hengine : (reception w.trace).1 = false := by rw [h.engine, htls]; rfl
  have hop' : op = ⟨.read, .readBuf w.conn.readLen, readBufSize - w.conn.readLen⟩ := by
    rw [hop, readOp, htls]
  subst hop'
  have hslice : (w.conn.readBuf.blit w.conn.readLen data).slice 0 (w.conn.readLen + data.length)
      = w.conn.readBuf.slice 0 w.conn.readLen ++ data :=
    w.conn.readBuf.slice_blit (by simp only at hfits; omega)
  rw [heard, hears_of_awaitsReply hstate, if_pos rfl, received] at hheard
  simp [received, Effect.receive, hengine, offered, World.deliver, hslice, hheard]

theorem received_deliver (hkeep : op.kind ≠ .read ∨ (reception w.trace).1 = true ∨ data = []) :
    received (w.deliver op result data).trace = received w.trace := by
  unfold received
  simp only [deliver_trace, reception_append, List.foldl_cons, List.foldl_nil]
  cases hkind : op.kind <;> simp_all [Effect.receive]
  rcases hkeep with htrue | hnil
  · simp [htrue]
  · split <;> simp [hnil]

theorem engine_deliver (h : Hears w) : (reception (w.deliver op result data).trace).1
    = (w.deliver op result data).conn.tls.isSome := by
  have hengine := h.engine
  simp only [deliver_trace, reception_append, List.foldl_cons, List.foldl_nil, deliver_tls]
  cases hkind : op.kind with
  | read =>
      simp only [Effect.receive]
      split <;> simp_all
  | connect | write => exact hengine

theorem readBuf_deliver (h : op = ⟨.read, .cipherBuf, readBufSize⟩ ∨ op.kind ≠ .read) :
    (w.deliver op result data).conn.readBuf = w.conn.readBuf := by
  rcases h with rfl | hkind
  · rfl
  · unfold World.deliver
    cases hop : op.kind <;> simp_all

theorem readOp_of_tls {conn : Connection E} (h : conn.tls.isSome = true) :
    readOp conn = ⟨.read, .cipherBuf, readBufSize⟩ := by
  obtain ⟨tls, htls⟩ := Option.isSome_iff_exists.mp h
  rw [readOp, htls]

theorem reception_decrypted {tls : E.State} {n : Nat} (h : (decryption w tls n).status = .ok) :
    reception (decrypted w tls n).trace
      = ((reception w.trace).1, (reception w.trace).2 ++ (decryption w tls n).out) := by
  simp only [decrypted, World.record_trace, World.modify_trace, reception_append, List.foldl_cons,
    List.foldl_nil, Effect.receive, h]

theorem reception_decrypted_of_ne {tls : E.State} {n : Nat}
    (h : (decryption w tls n).status ≠ .ok) :
    reception (decrypted w tls n).trace = reception w.trace := by
  simp only [decrypted, World.record_trace, World.modify_trace, reception_append, List.foldl_cons,
    List.foldl_nil]
  cases hstatus : (decryption w tls n).status <;> first | exact absurd hstatus h | rfl

variable (hears : Hears w) (hflight : Flight w) (hlive : w.conn.state.terminal = false)
  (hdelivers : Delivers w op result data)
include hears hflight hlive hdelivers

theorem offers_direct (hsound : Sound w.conn.tlsMode (phase w.conn) (actions w.trace))
    (hraw : w.conn.state = .tlsHandshaking ∨ w.conn.tls = none
      ∨ ¬ (op.kind = .read ∧ result = 0)) :
    Offers (w.deliver op result data) data.length := by
  obtain ⟨hop, -, -⟩ := hflight.deliver hlive hdelivers
  obtain ⟨-, hfits⟩ := hflight.live hlive
  obtain ⟨herror, htimedOut⟩ := ne_of_live hlive
  have hheard := hears.text herror htimedOut
  have hconsistent := consistent_of_sound hsound hlive
  refine ⟨engine_deliver hears, ?_, ?_⟩
  · intro hawaits
    rw [deliver_state] at hawaits
    have hreadOp : op = readOp w.conn := by
      rw [hop]
      unfold OpFits at hfits
      cases hs : w.conn.state <;> simp_all [awaitsReply]
    cases htls : w.conn.tls with
    | none => exact deliver_plain_read hears hreadOp htls hawaits hdelivers.fits hheard
    | some tls =>
        -- Over TLS only a failed read gets here, and it comes with nothing.
        have hsome : w.conn.tls.isSome = true := by rw [htls]; rfl
        have hcipher := hreadOp.trans (readOp_of_tls hsome)
        have hfailed : result ≠ 0 := by
          rcases hraw with hstate | hnone | hnot
          · rw [hstate] at hawaits
            exact absurd hawaits (by decide)
          · exact absurd hnone (by simp [htls])
          · exact fun hzero => hnot ⟨by rw [hcipher], hzero⟩
        have hnil := hdelivers.nothing_of_failure hfailed
        rw [received_deliver (.inr (.inr hnil)), hheard, offered, deliver_readLen,
          readBuf_deliver (.inl hcipher), heard, hears_of_awaitsReply hawaits, hnil]
        rfl
  · intro hsilent
    rw [deliver_state] at hsilent
    have hnothing : received w.trace = [] := by
      rw [hheard, heard, hsilent]
      rfl
    rw [received_deliver ?_, hnothing]
    -- Only the handshake reads without waiting for a reply, and its engine exists.
    unfold OpFits at hfits
    rw [hop, hears.engine]
    cases hs : w.conn.state <;> simp only [phase, hs] at hfits hsilent hconsistent
    case connecting | sendingEhlo | sendingStarttls => exact .inl (by rw [hfits]; simp)
    case tlsHandshaking => exact .inr (.inl hconsistent)
    all_goals first
      | exact absurd hsilent (by decide)
      | (rw [hs] at hlive; exact absurd hlive (by decide))

theorem deliver_of_decrypts {tls : E.State}
    (hdecrypts : Decrypts (w.deliver op result data) ⟨op.kind, result, data.length⟩ tls) :
    awaitsReply w.conn.state = true
      ∧ received (w.deliver op result data).trace
        = (w.deliver op result data).conn.readBuf.slice 0 w.conn.readLen := by
  obtain ⟨hop, -, hexpects⟩ := hflight.deliver hlive hdelivers
  obtain ⟨-, hfits⟩ := hflight.live hlive
  obtain ⟨herror, htimedOut⟩ := ne_of_live hlive
  have hstate : w.conn.state ≠ .tlsHandshaking := by simpa using hdecrypts.state
  have htls : w.conn.tls = some tls := by simpa using hdecrypts.tls
  rw [show op.kind = .read from hdecrypts.kind] at hexpects
  have hawaits := awaitsReply_of_expects hexpects hstate
  have hcipher : op = ⟨.read, .cipherBuf, readBufSize⟩ := by
    rw [hop]
    unfold OpFits at hfits
    rw [← @readOp_of_tls _ w.conn (by rw [htls]; rfl)]
    cases hs : w.conn.state <;> simp_all [awaitsReply]
  refine ⟨hawaits, ?_⟩
  rw [received_deliver (.inr (.inl (by rw [hears.engine, htls]; rfl))), hears.text herror htimedOut,
    readBuf_deliver (.inl hcipher), heard, hears_of_awaitsReply hawaits, if_pos rfl]

theorem offers_decrypted {tls : E.State}
    (hdecrypts : Decrypts (w.deliver op result data) ⟨op.kind, result, data.length⟩ tls)
    (hstatus : (decryption (w.deliver op result data) tls data.length).status = .ok) :
    Offers (decrypted (w.deliver op result data) tls data.length)
      (decryption (w.deliver op result data) tls data.length).out.length := by
  obtain ⟨hawaits, hreceived⟩ := deliver_of_decrypts hears hflight hlive hdelivers hdecrypts
  have hengine : (reception (w.deliver op result data).trace).1 = true := by
    rw [engine_deliver hears, hdecrypts.tls]
    rfl
  have hroom := hears.room hawaits
  have hout : (decryption (w.deliver op result data) tls data.length).out.length
      ≤ readBufSize - w.conn.readLen := by
    simpa [decryption] using E.decrypt_out_le tls
      ((w.deliver op result data).conn.cipherBuf.slice 0 data.length)
      (readBufSize - (w.deliver op result data).conn.readLen)
  refine ⟨?_, ?_, ?_⟩
  · rw [reception_decrypted hstatus, hengine]
    rfl
  · intro _
    have hslice : ((w.deliver op result data).conn.readBuf.blit w.conn.readLen
          (decryption (w.deliver op result data) tls data.length).out).slice 0
          (w.conn.readLen + (decryption (w.deliver op result data) tls data.length).out.length)
        = _ := Buffer.slice_blit _ (by omega)
    rw [received, reception_decrypted hstatus, ← received, hreceived, offered]
    simp only [decrypted, World.record_conn, World.modify_conn, deliver_readLen, hslice]
  · intro hsilent
    rw [decrypted_state, deliver_state] at hsilent
    exact absurd (hears_of_awaitsReply hawaits) (by simp [hsilent])

end Deliver

/-- **A step keeps the reply buffer accounted for.** -/
theorem Took.hears_of {identity : Bytes} {w w' : World E} {event : Event E}
    (h : Took identity w event w') (hears : Hears w) (hflight : Flight w)
    (hsound : Sound w.conn.tlsMode (phase w.conn) (actions w.trace)) : Hears w' := by
  cases h with
  | completes env op result data nowMs hlive hdelivers honIo =>
      have hengine := @engine_deliver _ w op result data hears
      cases honIo with
      | direct hraw hhandled =>
          refine hhandled.hears_of (offers_direct hears hflight hlive hdelivers hsound ?_)
          simpa using hraw
      | full _ _ _ hquits => exact hquits.hears_of hengine
      | undecided tls hdecrypts hroom _ hstatus =>
          obtain ⟨hawaits, hreceived⟩ :=
            deliver_of_decrypts hears hflight hlive hdelivers hdecrypts
          have hnot : (decryption (w.deliver op result data) tls data.length).status ≠ .ok := by
            simp [hstatus]
          have hkept := reception_decrypted_of_ne hnot
          refine hears_reads ?_ (by simpa using hawaits) ?_ hroom
          · rw [hkept, hengine, hdecrypts.tls]
            rfl
          · rw [received, hkept, ← received, hreceived]
            simp only [decrypted, record_conn, modify_conn, deliver_readLen]
            exact (Buffer.slice_blit_before _ _ _ (by simpa using Nat.le_of_lt hroom)).symm
      | broken tls hdecrypts _ _ hstatus hquits =>
          refine hquits.hears_of ?_
          rw [reception_decrypted_of_ne (by simp [hstatus]), hengine, hdecrypts.tls]
          rfl
      | delivered tls hdecrypts _ _ hstatus hhandled =>
          exact hhandled.hears_of (offers_decrypted hears hflight hlive hdelivers hdecrypts hstatus)
  | inTime => exact hears
  | expires =>
      exact ⟨by simpa [expired, Effect.receive] using hears.engine, fun _ h => absurd rfl h,
        fun hawaits => absurd hawaits Bool.false_ne_true⟩
  | others => exact ⟨hears.engine, hears.text, hears.room⟩

theorem hears_of_reachable {identity : Bytes} {w : World E} (h : Reachable identity w) :
    Hears w := by
  obtain ⟨w₀, events, hstart, run⟩ := h
  refine run.relates (I := Reachable identity) ⟨w₀, [], hstart, .nil⟩
    (fun _ _ _ hreach hstep => hreach.step hstep) ?_ fun u event u' hreach hears hstep => ?_
  · obtain ⟨_, _, _, _, _, _, _, _, -, -, rfl⟩ := hstart.shape
    exact ⟨rfl, fun _ _ => rfl, fun hawaits => absurd hawaits Bool.false_ne_true⟩
  · exact (took_of_steps hstep).hears_of hears (flight_of_reachable hreach)
      (sound_of_reachable hreach)

/-! ### The transport in front of the handlers -/

/-- A world between the arrival of a completion and the handler it is for: what has changed is below
the protocol. -/
structure Arrives (w u : World E) : Prop where
  phase : phase u.conn = phase w.conn
  settings : u.conn.settings = w.conn.settings
  trace : ∃ effects, u.trace = w.trace ++ effects ∧ ∀ effect ∈ effects, effect.action = none

theorem Arrives.actions_eq {w u : World E} (h : Arrives w u) :
    actions u.trace = actions w.trace := by
  obtain ⟨effects, htrace, hquiet⟩ := h.trace
  rw [htrace, actions_append, show actions effects = [] from List.filterMap_eq_nil_iff.mpr hquiet,
    List.append_nil]

theorem Arrives.extends_trace {w u : World E} (h : Arrives w u) : w.trace <+: u.trace := by
  obtain ⟨effects, htrace, -⟩ := h.trace
  rw [htrace]
  exact List.prefix_append _ _

theorem Arrives.state_eq {w u : World E} (h : Arrives w u) : u.conn.state = w.conn.state :=
  congrArg Phase.state h.phase

theorem Arrives.tls_eq {w u : World E} (h : Arrives w u) :
    u.conn.tls.isSome = w.conn.tls.isSome :=
  congrArg Phase.secured h.phase

theorem Arrives.bannerSeen_eq {w u : World E} (h : Arrives w u) :
    u.conn.bannerSeen = w.conn.bannerSeen :=
  congrArg Phase.greeted h.phase

theorem arrives_deliver (w : World E) (op : IoOp) (result : Int) (data : Bytes) :
    Arrives w (w.deliver op result data) :=
  ⟨by simp [phase], by simp, _, rfl, by simp [Effect.action]⟩

theorem Arrives.decrypted {w u : World E} (h : Arrives w u) {tls : E.State}
    (htls : u.conn.tls = some tls) (n : Nat) : Arrives w (decrypted u tls n) := by
  obtain ⟨effects, htrace, hquiet⟩ := h.trace
  refine ⟨(phase_decrypted htls n).trans h.phase, h.settings, ?_⟩
  refine ⟨effects ++ [.tlsDecrypt (u.conn.cipherBuf.slice 0 n) (readBufSize - u.conn.readLen)
    (decryption u tls n).status (decryption u tls n).out], ?_, ?_⟩
  · simp [Conn.decrypted, htrace]
  · intro effect hmem
    rcases List.mem_append.mp hmem with hmem | hmem
    · exact hquiet effect hmem
    · rw [List.mem_singleton.mp hmem]
      rfl

/-- What a completion amounts to once the transport is done with it. -/
inductive Amounts (identity : Bytes) (w : World E) : World E → Prop where
  | quits {u w' : World E} (harrives : Arrives w u) (hquits : Quits u w') : Amounts identity w w'
  | rereads (env : Env E) {u : World E} (harrives : Arrives w u)
      (hstate : awaitsReply u.conn.state = true) : Amounts identity w (reads env u)
  | handled (env : Env E) (nowMs : Nat) (result : IoResult) {u w' : World E}
      (harrives : Arrives w u) (hoffers : Offers u result.bytesTransferred)
      (hhandled : Handled env identity nowMs u result w') : Amounts identity w w'

theorem OnIo.amounts {env : Env E} {identity data : Bytes} {nowMs : Nat} {w w' : World E} {op : IoOp}
    {result : Int} (h : OnIo env identity nowMs (w.deliver op result data)
      ⟨op.kind, result, data.length⟩ w')
    (hears : Hears w) (hflight : Flight w) (hlive : w.conn.state.terminal = false)
    (hdelivers : Delivers w op result data)
    (hsound : Sound w.conn.tlsMode (phase w.conn) (actions w.trace)) : Amounts identity w w' := by
  have harrives := arrives_deliver w op result data
  cases h with
  | direct hraw hhandled =>
      have hoffers := offers_direct hears hflight hlive hdelivers hsound (by simpa using hraw)
      exact .handled env nowMs ⟨op.kind, result, data.length⟩ harrives hoffers hhandled
  | full _ _ _ hquits => exact .quits harrives hquits
  | undecided tls hdecrypts =>
      obtain ⟨hawaits, -⟩ := deliver_of_decrypts hears hflight hlive hdelivers hdecrypts
      exact .rereads env (harrives.decrypted hdecrypts.tls _) (by simpa using hawaits)
  | broken tls hdecrypts _ _ _ hquits => exact .quits (harrives.decrypted hdecrypts.tls _) hquits
  | delivered tls hdecrypts _ _ hstatus hhandled =>
      have hoffers := offers_decrypted hears hflight hlive hdelivers hdecrypts hstatus
      exact .handled env nowMs _ (harrives.decrypted hdecrypts.tls _) hoffers hhandled

theorem Reachable.amounts {env : Env E} {identity data : Bytes} {nowMs : Nat} {w w' : World E}
    {op : IoOp} {result : Int} (h : Reachable identity w) (hlive : w.conn.state.terminal = false)
    (hdelivers : Delivers w op result data)
    (honIo : OnIo env identity nowMs (w.deliver op result data) ⟨op.kind, result, data.length⟩ w') :
    Amounts identity w w' :=
  honIo.amounts (hears_of_reachable h) (flight_of_reachable h) hlive hdelivers
    (sound_of_reachable h)

theorem history_of_arrives {w u : World E} (h : Arrives w u)
    (hsound : Sound w.conn.tlsMode (phase w.conn) (actions w.trace))
    (hlive : w.conn.state.terminal = false) :
    history u.conn.tlsMode (phase u.conn) = some (actions u.trace) := by
  obtain ⟨herror, htimedOut⟩ := ne_of_live hlive
  rw [show u.conn.tlsMode = w.conn.tlsMode from congrArg Settings.tlsMode h.settings, h.phase,
    h.actions_eq]
  exact hsound.history herror htimedOut

end Conn

end SmtpClient
