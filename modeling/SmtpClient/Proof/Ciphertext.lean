import Mathlib.Data.List.Induction
import SmtpClient.Proof.Conversation
import SmtpClient.Proof.Wire

/-!
# Between the socket and the engine

What the socket has delivered since there is an engine is what the engine has been given, in order
and each byte once; and what is submitted to the socket is what the engine has produced, behind the
commands that went out before there was one.
-/

namespace SmtpClient

variable {E : TlsEngine}

/-- Whether there is an engine, and the bytes read from the socket since it was created. -/
def Effect.arrive (past : Bool × Bytes) : Effect → Bool × Bytes
  | .tlsCreate _ _ true => (true, [])
  | .completion .read _ data => if past.1 then (true, past.2 ++ data) else past
  | _ => past

def arrival (trace : List Effect) : Bool × Bytes := trace.foldl Effect.arrive (false, [])

def arrived (trace : List Effect) : Bytes := (arrival trace).2

/-- The bytes the engine has been given. -/
def fed (trace : List Effect) : Bytes :=
  trace.flatMap fun
    | .tlsHandshake input _ _ | .tlsDecrypt input _ _ _ => input
    | _ => []

/-- What is there to be sent: commands while there is no engine, and what the engine hands out. -/
def produced (trace : List Effect) : Bytes :=
  trace.flatMap fun
    | .tlsHandshake _ .wantWrite out | .tlsEncrypt _ .wantWrite out => out
    | .submitWrite (.command plain false) _ _ => plain
    | _ => []

@[simp] theorem arrival_append (trace trace' : List Effect) :
    arrival (trace ++ trace') = trace'.foldl Effect.arrive (arrival trace) := by
  simp [arrival]

@[simp] theorem fed_append (trace trace' : List Effect) :
    fed (trace ++ trace') = fed trace ++ fed trace' := by simp [fed]

@[simp] theorem produced_append (trace trace' : List Effect) :
    produced (trace ++ trace') = produced trace ++ produced trace' := by simp [produced]

/-- Effects that neither bring bytes in nor have to do with the engine or what is sent. -/
def Effect.dry : Effect → Bool
  | .log _ _ | .submitConnect _ | .submitRead _ | .tlsCreate _ _ false => true
  | _ => false

theorem Effect.arrive_of_dry {effect : Effect} (h : effect.dry = true) (past : Bool × Bytes) :
    effect.arrive past = past := by
  cases effect with
  | tlsCreate _ _ created =>
      cases created with
      | true => cases h
      | false => rfl
  | log | submitConnect | submitRead => rfl
  | _ => cases h

/-- Without an engine nothing is counted. -/
theorem Effect.arrive_of_no_engine {effect : Effect} {past : Bool × Bytes}
    (hpast : past.1 = false → past.2 = []) (h : (effect.arrive past).1 = false) :
    (effect.arrive past).2 = [] := by
  cases effect with
  | tlsCreate _ _ created =>
      cases created with
      | true => rfl
      | false => exact hpast h
  | completion kind _ data =>
      cases kind with
      | connect | write => exact hpast h
      | read =>
          simp only [arrive] at h ⊢
          split at h
          · cases h
          · rename_i hno
            rw [if_neg hno]
            exact hpast h
  | _ => exact hpast h

theorem arrived_of_no_engine {trace : List Effect} (h : (arrival trace).1 = false) :
    arrived trace = [] := by
  induction trace using List.reverseRecOn with
  | nil => rfl
  | append_singleton trace effect ih =>
      rw [arrived, arrival_append]
      rw [arrival_append] at h
      exact Effect.arrive_of_no_engine ih h

theorem nothing_of_dry {effect : Effect} (h : effect.dry = true) :
    fed [effect] = [] ∧ produced [effect] = [] ∧ submittedBytes [effect] = [] := by
  cases effect with
  | log | submitConnect | submitRead | tlsCreate => exact ⟨rfl, rfl, rfl⟩
  | _ => cases h

theorem dry_append (trace : List Effect) {effects : List Effect}
    (h : ∀ effect ∈ effects, effect.dry = true) :
    arrival (trace ++ effects) = arrival trace ∧ fed (trace ++ effects) = fed trace
      ∧ produced (trace ++ effects) = produced trace
      ∧ submittedBytes (trace ++ effects) = submittedBytes trace := by
  induction effects using List.reverseRecOn with
  | nil => simp
  | append_singleton effects effect ih =>
      obtain ⟨harrival, hfed, hproduced, hsubmitted⟩ := ih fun e he => h e (by simp [he])
      have hdry := h effect (by simp)
      rw [← List.append_assoc, arrival_append, fed_append, produced_append, submittedBytes_append,
        harrival, hfed, hproduced, hsubmitted]
      obtain ⟨hfed', hproduced', hsubmitted'⟩ := nothing_of_dry hdry
      rw [hfed', hproduced', hsubmitted', List.append_nil, List.append_nil, List.append_nil]
      exact ⟨Effect.arrive_of_dry hdry _, rfl, rfl, rfl⟩

/-- What a call on the engine leaves to be sent. -/
def due (status : TlsStatus) (out : Bytes) : Bytes := if status = .wantWrite then out else []

theorem produced_tlsHandshake (input : Bytes) (status : TlsStatus) (out : Bytes) :
    produced [.tlsHandshake input status out] = due status out := by
  cases status <;> simp [produced, due]

theorem produced_tlsEncrypt (plain : Bytes) (status : TlsStatus) (out : Bytes) :
    produced [.tlsEncrypt plain status out] = due status out := by
  cases status <;> simp [produced, due]

namespace Conn

open World

/-- In the middle of a call: what has arrived and is still to be fed, and what is still to be sent.
-/
structure Pours (u : World E) (input rest : Bytes) : Prop where
  engine : (arrival u.trace).1 = u.conn.tls.isSome
  inward : arrived u.trace = fed u.trace ++ input
  outward : produced u.trace = submittedBytes u.trace ++ rest

/-- Nothing is lost on the way. What has arrived is left unfed only if the connection is given
up. -/
structure Piped (w : World E) : Prop where
  engine : (arrival w.trace).1 = w.conn.tls.isSome
  inward : fed w.trace <+: arrived w.trace
  all_fed : w.conn.state ≠ .error → fed w.trace = arrived w.trace
  outward : submittedBytes w.trace = produced w.trace

section Exits

variable {env : Env E} {identity plaintext input rest : Bytes} {nowMs : Nat} {w w' u : World E}
  {tls : E.State} {result : IoResult}

theorem Pours.after (h : Pours u input rest) (effects : List Effect)
    (htrace : w.trace = u.trace ++ effects) (htls : w.conn.tls = u.conn.tls)
    (hdry : ∀ effect ∈ effects, effect.dry = true) : Pours w input rest := by
  obtain ⟨harrival, hfed, hproduced, hsubmitted⟩ := dry_append u.trace hdry
  refine ⟨?_, ?_, ?_⟩
  · rw [htrace, harrival, htls]
    exact h.engine
  · rw [arrived, htrace, harrival, hfed]
    exact h.inward
  · rw [htrace, hproduced, hsubmitted]
    exact h.outward

theorem Pours.piped_of_error (h : Pours u input []) (hstate : u.conn.state = .error) : Piped u where
  engine := h.engine
  inward := by
    rw [h.inward]
    exact List.prefix_append _ _
  all_fed herror := absurd hstate herror
  outward := by rw [h.outward, List.append_nil]

theorem Pours.piped (h : Pours u [] []) : Piped u where
  engine := h.engine
  inward := by
    rw [h.inward]
    exact List.prefix_append _ _
  all_fed _ := by rw [h.inward, List.append_nil]
  outward := by rw [h.outward, List.append_nil]

theorem Pours.quits (h : Pours u input []) (hquits : Quits u w') : Piped w' := by
  obtain ⟨logs, htrace⟩ := hquits.trace
  refine Pours.piped_of_error (h.after _ htrace hquits.tls ?_) hquits.state
  intro effect hmem
  obtain ⟨log, -, rfl⟩ := List.mem_map.mp hmem
  rfl

theorem Pours.reads (h : Pours u [] []) : Piped (Conn.reads env u) := by
  apply Pours.piped
  refine h.after [.submitRead env.submitRc] ?_ ?_ (by simp [Effect.dry])
  · simp [Conn.reads]
  · simp [Conn.reads]

/-- What is to be sent is submitted. -/
theorem Pours.submits {op : IoOp} {payload : Payload} {wire : Bytes} (h : Pours u [] wire)
    (hplain : produced [.submitWrite payload wire env.submitRc] = []) :
    Piped (orFail (u.submit env op (.submitWrite payload wire env.submitRc))) := by
  apply Pours.piped
  refine ⟨?_, ?_, ?_⟩
  · simpa [Effect.arrive] using h.engine
  · simpa [arrived, Effect.arrive, fed] using h.inward
  · rw [orFail_submit_trace, produced_append, hplain, submittedBytes_append, h.outward]
    simp [submittedBytes]

theorem SubmitsCommand.piped (h : SubmitsCommand env w plaintext w') (hpours : Pours w [] []) :
    Piped w' := by
  cases h with
  | plain htls len hlen =>
      apply Pours.piped
      refine ⟨?_, ?_, ?_⟩
      · simpa [Effect.arrive] using hpours.engine
      · simpa [arrived, Effect.arrive, fed] using hpours.inward
      · have houtward := hpours.outward
        simp only [orFail_submit_trace, modify_trace, produced_append, submittedBytes_append,
          houtward]
        simp [produced, submittedBytes]
  | encrypted tls htls hdone out hout hstatus =>
      subst hout
      refine Pours.submits (u := (encrypting w tls plaintext).modify _) ⟨?_, ?_, ?_⟩ rfl
      · simpa [encrypting, Effect.arrive, htls] using hpours.engine
      · simpa [encrypting, arrived, Effect.arrive, fed] using hpours.inward
      · simp only [encrypting, modify_trace, record_trace, produced_append, produced_tlsEncrypt,
          submittedBytes_append, hpours.outward, due, hstatus]
        simp [submittedBytes]
  | encryptFailed tls htls hdone hstatus =>
      have hfailed : Pours (encrypting w tls plaintext).fail [] [] := by
        refine ⟨?_, ?_, ?_⟩
        · simpa [encrypting, Effect.arrive, htls] using hpours.engine
        · simpa [encrypting, arrived, Effect.arrive, fed] using hpours.inward
        · simp only [encrypting, fail_trace, modify_trace, record_trace, produced_append,
            produced_tlsEncrypt, submittedBytes_append, hpours.outward, due, hstatus]
          simp [submittedBytes]
      exact hfailed.piped_of_error rfl

theorem SendsEhlo.piped (h : SendsEhlo env identity nowMs w w') (hpours : Pours w [] []) :
    Piped w' := by
  cases h with
  | tooLong _ hquits => exact hpours.quits hquits
  | submits _ _ hsubmits =>
      exact hsubmits.piped (hpours.after [.log .ehlo identity] rfl rfl (by simp [Effect.dry]))

/-- A step of the handshake is given what has arrived. -/
theorem Pours.drives (h : Pours u input []) (tls : E.State) (htls : u.conn.tls.isSome = true) :
    Pours (driveHandshake u tls input).1 []
      (due (E.handshake tls input readBufSize).status (E.handshake tls input readBufSize).out) := by
  refine ⟨?_, ?_, ?_⟩
  · simpa [driveHandshake, Effect.arrive, htls] using h.engine
  · simpa [driveHandshake, arrived, Effect.arrive, fed] using h.inward
  · simp only [driveHandshake, record_trace, modify_trace, produced_append, produced_tlsHandshake,
      submittedBytes_append, h.outward]
    simp [submittedBytes]

theorem Drives.piped (h : Drives env w tls input w') (hpours : Pours w input [])
    (htls : w.conn.tls.isSome = true) : Piped w' := by
  have hdriven := hpours.drives tls htls
  cases h with
  | wantWrite out hout hstatus =>
      rw [due, if_pos hstatus, hout] at hdriven
      refine Pours.submits ?_ rfl
      exact ⟨hdriven.engine, hdriven.inward, hdriven.outward⟩
  | wantRead hstatus =>
      rw [due, if_neg (by simp [hstatus])] at hdriven
      apply Pours.piped
      exact hdriven.after [.submitRead env.submitRc] (by simp) (by simp) (by simp [Effect.dry])
  | refused hstatus hquits =>
      rw [due, if_neg hstatus.1] at hdriven
      exact hdriven.quits hquits

/-- Nothing that came before counts for a new engine. -/
theorem Begins.piped (h : Begins env nowMs w w') (hpours : Pours w [] [])
    (htls : w.conn.tls = none) : Piped w' := by
  have hnothing : fed w.trace = [] := by
    have hengine : (arrival w.trace).1 = false := by rw [hpours.engine, htls]; rfl
    have hinward := hpours.inward
    rw [arrived_of_no_engine hengine, List.append_nil] at hinward
    exact hinward.symm
  cases h with
  | createFailed _ _ _ hquits =>
      have hfailed := hpours.after
        (w := w.record (.tlsCreate w.conn.actor w.conn.tlsTrustWithoutValidation false))
        [.tlsCreate w.conn.actor w.conn.tlsTrustWithoutValidation false] rfl rfl
        (by simp [Effect.dry])
      exact hfailed.quits hquits
  | drives _ _ tls _ detail hdrives =>
      refine hdrives.piped ⟨?_, ?_, ?_⟩ rfl
      · simp [handshaking, Effect.arrive]
      · simp only [handshaking, modify_trace, record_trace, fed_append, hnothing, arrived,
          arrival_append]
        rfl
      · simp only [handshaking, modify_trace, record_trace, produced_append, submittedBytes_append,
          hpours.outward]
        simp [produced, submittedBytes]

/-- A handler is given the bytes that arrived for it: the handshake raw, the others what was
decrypted, so that nothing is left for them. -/
theorem Handled.piped (h : Handled env identity nowMs w result w') (hpours : Pours w input [])
    (hbare : Bare w.conn)
    (hshaking : w.conn.state = .tlsHandshaking → input = handshakeInput w result)
    (hother : w.conn.state ≠ .tlsHandshaking → input = []) : Piped w' := by
  cases h with
  | refuses _ hquits => exact hpours.quits hquits
  | proceeds _ hproceeds =>
      have hnone {state : ConnState} (hstate : w.conn.state = state)
          (hne : state ≠ .tlsHandshaking) : Pours w [] [] := by
        have hempty := hother (hstate ▸ hne)
        subst hempty
        exact hpours
      cases hproceeds with
      | connected hstate =>
          refine Pours.reads ((hnone hstate (by simp)).after [.log .connected (bytes "connected")]
            rfl rfl (by simp [Effect.dry]))
      | connectedImplicit hstate _ hbegins =>
          refine hbegins.piped ?_ (hbare (.inl hstate))
          exact (hnone hstate (by simp)).after [.log .connected (bytes "connected")] rfl rfl
            (by simp [Effect.dry])
      | waits hstate =>
          have hne : w.conn.state ≠ .tlsHandshaking := by
            intro heq
            rw [heq] at hstate
            cases hstate
          exact Pours.reads ((hnone rfl hne).after [] (by simp [grown]) rfl (by simp))
      | greeted hstate _ reply _ _ _ hsends =>
          refine hsends.piped ((hnone hstate (by simp)).after
            [.log .reply (greetingText w reply)] rfl rfl (by simp [Effect.dry]))
      | ehloSent hstate | starttlsSent hstate =>
          exact Pours.reads ((hnone hstate (by simp)).after [] (by simp) rfl (by simp))
      | ready hstate _ reply caps =>
          apply Pours.piped
          exact (hnone hstate (by simp)).after [.log .capabilities (Cap.formatSummary caps 256)]
            rfl rfl (by simp [Effect.dry])
      | starttlsWanted hstate _ reply caps _ _ _ _ hsubmits =>
          refine hsubmits.piped ((hnone hstate (by simp)).after
            [.log .capabilities (Cap.formatSummary caps 256),
              .log .starttls (bytes "sending STARTTLS")] ?_ rfl (by simp [Effect.dry]))
          simp [starttlsBuilt, capabilitiesOf, grown]
      | starttlsAccepted hstate _ _ _ _ hbegins =>
          refine hbegins.piped ?_ (hbare (.inr hstate))
          exact (hnone hstate (by simp)).after [] (by simp [grown]) rfl (by simp)
      | drives hstate tls htls _ _ hdrives =>
          rw [hshaking hstate] at hpours
          exact hdrives.piped hpours (by simp [htls])
      | securedFirst hstate tls htls hstatus =>
          rw [hshaking hstate] at hpours
          have hdriven := hpours.drives tls (by simp [htls])
          rw [due, if_neg (by simp [hstatus])] at hdriven
          exact Pours.reads (hdriven.after [.log (handshakeLine tls (handshakeInput w result)).1
            (handshakeLine tls (handshakeInput w result)).2] rfl rfl (by simp [Effect.dry]))
      | securedAgain hstate tls htls hstatus _ _ _ hsends =>
          rw [hshaking hstate] at hpours
          have hdriven := hpours.drives tls (by simp [htls])
          rw [due, if_neg (by simp [hstatus])] at hdriven
          refine hsends.piped (hdriven.after [.log (handshakeLine tls (handshakeInput w result)).1
            (handshakeLine tls (handshakeInput w result)).2] rfl rfl (by simp [Effect.dry]))

/-- What has arrived is decrypted. -/
theorem Pours.decrypted (h : Pours w input []) (htls : w.conn.tls = some tls) {n : Nat}
    (hinput : input = w.conn.cipherBuf.slice 0 n) : Pours (Conn.decrypted w tls n) [] [] := by
  subst hinput
  refine ⟨?_, ?_, ?_⟩
  · simpa [Conn.decrypted, Effect.arrive, htls] using h.engine
  · simpa [Conn.decrypted, arrived, Effect.arrive, fed] using h.inward
  · simpa [Conn.decrypted, produced, submittedBytes] using h.outward

/-- What a completion has brought for the engine. -/
def incoming (w : World E) (result : IoResult) : Bytes :=
  if w.conn.tls.isSome = true ∧ result.kind = .read then
    w.conn.cipherBuf.slice 0 result.bytesTransferred
  else []

theorem incoming_of_read (htls : w.conn.tls = some tls) (hkind : result.kind = .read) :
    incoming w result = w.conn.cipherBuf.slice 0 result.bytesTransferred :=
  if_pos ⟨by simp [htls], hkind⟩

theorem incoming_shaking (htls : w.conn.tls.isSome = true) :
    incoming w result = handshakeInput w result := by
  unfold incoming handshakeInput
  simp [htls]

theorem OnIo.piped (h : OnIo env identity nowMs w result w')
    (hpours : Pours w (incoming w result) []) (hbare : Bare w.conn)
    (hshaking : w.conn.state = .tlsHandshaking → w.conn.tls.isSome = true)
    (hfailed : result.result ≠ 0 → result.bytesTransferred = 0) : Piped w' := by
  cases h with
  | direct hraw hhandled =>
      refine hhandled.piped hpours hbare (fun hstate => incoming_shaking (hshaking hstate)) ?_
      intro hstate
      unfold incoming
      split
      · rename_i hread
        rcases hraw with hshakes | hnone | hnot
        · exact absurd hshakes hstate
        · exact absurd hread.1 (by simp [hnone])
        · rw [hfailed fun hzero => hnot ⟨hread.2, hzero⟩]
          rfl
      · rfl
  | full tls hdecrypts _ hquits => exact hpours.quits hquits
  | undecided tls hdecrypts =>
      apply Pours.reads
      exact hpours.decrypted hdecrypts.tls (incoming_of_read hdecrypts.tls hdecrypts.kind)
  | broken tls hdecrypts _ _ _ hquits =>
      have hdecrypted := hpours.decrypted hdecrypts.tls
        (incoming_of_read hdecrypts.tls hdecrypts.kind)
      exact hdecrypted.quits hquits
  | delivered tls hdecrypts _ _ _ hhandled =>
      have hdecrypted := hpours.decrypted hdecrypts.tls
        (incoming_of_read hdecrypts.tls hdecrypts.kind)
      refine hhandled.piped hdecrypted ?_ (fun hstate => absurd hstate hdecrypts.state) fun _ => rfl
      intro hearly
      exact absurd (hdecrypts.tls.symm.trans (hbare hearly)) (by simp)

end Exits

/-! ### Runs -/

variable {identity : Bytes} {w w' : World E} {event : Event E}

/-- With an engine every read goes to `cipher_buf`. -/
theorem op_eq_cipherRead {conn : Connection E} (hfits : OpFits conn)
    (hlive : conn.state.terminal = false) (htls : conn.tls.isSome = true)
    (hkind : conn.op.kind = .read) : conn.op = ⟨.read, .cipherBuf, readBufSize⟩ := by
  unfold OpFits at hfits
  cases hstate : conn.state <;> simp only [hstate] at hfits hlive
  case connecting | sendingEhlo | sendingStarttls =>
      rw [hfits] at hkind
      cases hkind
  case waitBanner | waitEhlo | waitStarttlsReply =>
      obtain ⟨tls, htls⟩ := Option.isSome_iff_exists.mp htls
      rw [hfits, readOp, htls]
  case tlsHandshaking =>
      rcases hfits with hread | hwrite
      · exact hread
      · rw [hwrite] at hkind
        cases hkind
  case ready | error | timedOut => cases hlive

/-- What a completion brings is what lies in `cipher_buf`, if there is an engine. -/
theorem Piped.deliver (h : Piped w) (hflight : Flight w) (hlive : w.conn.state.terminal = false)
    {op : IoOp} {result : Int} {data : Bytes} (hdelivers : Delivers w op result data) :
    Pours (w.deliver op result data)
      (incoming (w.deliver op result data) ⟨op.kind, result, data.length⟩) [] := by
  obtain ⟨herror, -⟩ := ne_of_live hlive
  obtain ⟨hop, -, -⟩ := hflight.deliver hlive hdelivers
  obtain ⟨-, hfits⟩ := hflight.live hlive
  have hengine := h.engine
  have hinward : (arrival w.trace).2 = fed w.trace := (h.all_fed herror).symm
  have houtward : produced (w.deliver op result data).trace
      = submittedBytes (w.deliver op result data).trace ++ [] := by
    rw [deliver_trace, produced_append, submittedBytes_append, h.outward]
    simp [produced, submittedBytes]
  have hfed : fed (w.deliver op result data).trace = fed w.trace := by
    rw [deliver_trace, fed_append]
    exact List.append_nil _
  by_cases hread : w.conn.tls.isSome = true ∧ op.kind = .read
  · obtain ⟨htls, hkind⟩ := hread
    have hcipher : op = ⟨.read, .cipherBuf, readBufSize⟩ := by
      rw [hop] at hkind ⊢
      exact op_eq_cipherRead hfits hlive htls hkind
    have hfitsBuf := hdelivers.fits
    subst hcipher
    have hbrought := w.conn.cipherBuf.slice_blit_zero hfitsBuf
    have harrival : arrival (w.deliver ⟨.read, .cipherBuf, readBufSize⟩ result data).trace
        = (true, fed w.trace ++ data) := by
      rw [deliver_trace, arrival_append, ← hinward]
      simp [Effect.arrive, hengine, htls]
    refine ⟨?_, ?_, houtward⟩
    · rw [harrival, deliver_tls, htls]
    · rw [arrived, harrival, hfed, incoming, deliver_tls, if_pos ⟨htls, rfl⟩]
      exact congrArg (fed w.trace ++ ·) hbrought.symm
  · have harrival : arrival (w.deliver op result data).trace = arrival w.trace := by
      rw [deliver_trace, arrival_append]
      cases hkind : op.kind with
      | connect | write => rfl
      | read =>
          have hno : (arrival w.trace).1 = false := by
            rw [hengine]
            simpa [hkind] using hread
          simp [Effect.arrive, hno]
    refine ⟨?_, ?_, houtward⟩
    · rw [harrival, deliver_tls, hengine]
    · rw [arrived, harrival, hfed, incoming, deliver_tls, if_neg hread, List.append_nil, hinward]

theorem Took.piped (h : Took identity w event w') (hreach : Reachable identity w)
    (hpiped : Piped w) : Piped w' := by
  cases h with
  | completes env op result data nowMs hlive hdelivers honIo =>
      have hconsistent := consistent_of_sound (sound_of_reachable hreach) hlive
      refine honIo.piped (hpiped.deliver (flight_of_reachable hreach) hlive hdelivers) ?_ ?_ ?_
      · unfold Bare
        rw [deliver_state, deliver_tls]
        exact bare_of_reachable hreach hlive
      · rw [deliver_state, deliver_tls]
        intro hstate
        simp only [Protocol.Consistent, phase, hstate] at hconsistent
        exact hconsistent
      · intro hfailed
        rw [hdelivers.nothing_of_failure hfailed]
        rfl
  | inTime => exact hpiped
  | expires nowMs hlive =>
      obtain ⟨herror, -⟩ := ne_of_live hlive
      have hpours : Pours w [] [] := by
        refine ⟨hpiped.engine, ?_, ?_⟩
        · rw [List.append_nil, hpiped.all_fed herror]
        · rw [List.append_nil, hpiped.outward]
      exact Pours.piped
        (hpours.after [.log .timeout (bytes "step deadline exceeded")] rfl rfl
          (by simp [Effect.dry]))
  | others => exact ⟨hpiped.engine, hpiped.inward, hpiped.all_fed, hpiped.outward⟩

theorem piped_of_reachable (h : Reachable identity w) : Piped w := by
  obtain ⟨w₀, events, hstart, run⟩ := h
  refine run.relates (I := Reachable identity) ⟨w₀, [], hstart, .nil⟩
    (fun _ _ _ hreach hstep => hreach.step hstep) ?_
    fun u event u' hreach hpiped hstep => (took_of_steps hstep).piped hreach hpiped
  obtain ⟨_, _, _, _, _, _, _, _, -, -, rfl⟩ := hstart.shape
  exact ⟨rfl, List.prefix_rfl, fun _ => rfl, rfl⟩

/-- **Nothing is lost between the socket and the engine.** In every run the engine has been given
what was read since it was created, in order and each byte once, up to the last read of a connection
that was given up; and what was submitted is what was produced. As long as no write of handshake
output is cut short and the connection is alive, what was produced is what the socket has taken,
followed by what is in flight. -/
theorem ciphertext_conserved (h : Reachable identity w) :
    fed w.trace <+: arrived w.trace
      ∧ (w.conn.state ≠ .error → fed w.trace = arrived w.trace)
      ∧ submittedBytes w.trace = produced w.trace
      ∧ (ReachableWhen FullHandshakeWrites identity w → w.conn.state ≠ .error →
        w.conn.state ≠ .timedOut →
          produced w.trace = acceptedBytes w.trace ++ outstanding w) := by
  have hpiped := piped_of_reachable h
  refine ⟨hpiped.inward, hpiped.all_fed, hpiped.outward, fun hwhen herror htimedOut => ?_⟩
  rw [← hpiped.outward]
  exact carried_of_reachableWhen hwhen herror htimedOut

/-- An upgraded session over the record engine. -/
theorem ciphertext_conserved_upgraded :
    ∃ w, playSample sampleInfo .explicit upgradeScript = some w
      ∧ fed w.trace ≠ [] ∧ fed w.trace = arrived w.trace := by
  have hplay : (playSample sampleInfo .explicit upgradeScript).map
      (fun w => (w.conn.state, fed w.trace == [])) = some (.ready, false) := by decide +kernel
  obtain ⟨w, hw, heq⟩ := Option.map_eq_some_iff.mp hplay
  obtain ⟨hready, hfed⟩ := Prod.mk.inj heq
  obtain ⟨-, hall, -⟩ := ciphertext_conserved (reachable_of_playSample hw)
  refine ⟨w, hw, by simpa using hfed, hall (by simp [hready])⟩

end Conn

end SmtpClient
