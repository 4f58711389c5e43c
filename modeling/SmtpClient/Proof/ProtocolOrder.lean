import SmtpClient.Proof.Received
import SmtpClient.Proof.Keywords
import SmtpClient.RecordEngine

/-!
# Protocol order, and no downgrade

The word a connection spells comes from the refinement of the session. What the letters mean comes
from the trace: no EHLO without an accepted greeting, no handshake behind STARTTLS without an
accepted reply to it, no command in the clear behind a handshake, and no end of an opportunistic
session in the clear unless the server had nothing to offer.
-/

namespace SmtpClient

variable {E : TlsEngine}

namespace Conn

open World Protocol

/-- What has been received is a complete positive reply. -/
def Answered (past : List Effect) : Prop :=
  ∃ reply, Reply.read (received past) maxReplyLines = .ok reply ∧ Reply.positive reply.code = true

/-- A greeting was accepted before there was any EHLO. -/
def Greeted (past : List Effect) : Prop :=
  ∃ before, before <+: past ∧ (∀ encrypted, .ehlo encrypted ∉ actions before) ∧ Answered before

/-- What must have happened before an action. -/
def Due (past : List Effect) : Action → Prop
  | .ehlo encrypted => Greeted past ∧ (encrypted = false → .handshake ∉ actions past)
  | .starttls encrypted => encrypted = false → .handshake ∉ actions past
  | .handshake => ∀ encrypted, .starttls encrypted ∈ actions past → Answered past

def Justified (past : List Effect) (effect : Effect) : Prop :=
  ∀ act, effect.action = some act → Due past act

/-- The engine has reported the handshake done. -/
def HandshakeReturnedOk (past : List Effect) : Prop :=
  ∃ input out, .tlsHandshake input .ok out ∈ past

theorem Greeted.mono {past past' : List Effect} (h : Greeted past) (hle : past <+: past') :
    Greeted past' := by
  obtain ⟨before, hbefore, hno, hanswered⟩ := h
  exact ⟨before, hbefore.trans hle, hno, hanswered⟩

theorem HandshakeReturnedOk.mono {past past' : List Effect} (h : HandshakeReturnedOk past)
    (hle : past <+: past') : HandshakeReturnedOk past' := by
  obtain ⟨input, out, hmem⟩ := h
  exact ⟨input, out, hle.subset hmem⟩

theorem justified_append_quiet {trace effects : List Effect} (h : AllJustified Justified trace)
    (hquiet : ∀ effect ∈ effects, effect.action = none) :
    AllJustified Justified (trace ++ effects) := by
  induction effects generalizing trace with
  | nil => simpa using h
  | cons effect effects ih =>
      rw [List.append_cons]
      refine ih (h.snoc fun act hact => ?_) fun e he => hquiet e (List.mem_cons_of_mem _ he)
      exact absurd hact (by simp [hquiet effect List.mem_cons_self])

section Exits

variable {env : Env E} {identity plaintext input : Bytes} {nowMs : Nat} {w w' : World E}
  {tls : E.State} {result : IoResult}

/-! ### Traces only grow -/

theorem Quits.extends_trace (h : Quits w w') : w.trace <+: w'.trace := by
  obtain ⟨logs, htrace⟩ := h.trace
  rw [htrace]
  exact List.prefix_append _ _

theorem reads_extends_trace : w.trace <+: (reads env w).trace := by
  simp [reads]

theorem SubmitsCommand.extends_trace (h : SubmitsCommand env w plaintext w') :
    w.trace <+: w'.trace := by
  cases h <;> simp [encrypting]

theorem SendsEhlo.extends_trace (h : SendsEhlo env identity nowMs w w') : w.trace <+: w'.trace := by
  cases h with
  | tooLong _ hquits => exact hquits.extends_trace
  | submits _ _ hsubmits =>
      exact (List.prefix_append _ _).trans hsubmits.extends_trace

theorem Drives.extends_trace (h : Drives env w tls input w') : w.trace <+: w'.trace := by
  cases h with
  | wantWrite | wantRead => simp [driveHandshake]
  | refused _ hquits => exact (List.prefix_append _ _).trans hquits.extends_trace

theorem Begins.extends_trace (h : Begins env nowMs w w') : w.trace <+: w'.trace := by
  cases h with
  | createFailed _ _ _ hquits => exact (List.prefix_append _ _).trans hquits.extends_trace
  | drives _ _ _ _ _ hdrives =>
      refine List.IsPrefix.trans ?_ hdrives.extends_trace
      simp [handshaking]

theorem Handled.extends_trace (h : Handled env identity nowMs w result w') :
    w.trace <+: w'.trace := by
  cases h with
  | refuses _ hquits => exact hquits.extends_trace
  | proceeds _ hproceeds =>
      cases hproceeds with
      | connected | securedFirst =>
          refine List.IsPrefix.trans ?_ reads_extends_trace
          simp [secured, driveHandshake]
      | waits | ehloSent | starttlsSent => simp [reads, grown]
      | connectedImplicit _ _ hbegins =>
          exact (List.prefix_append _ _).trans hbegins.extends_trace
      | greeted _ _ _ _ _ _ hsends | securedAgain _ _ _ _ _ _ _ hsends =>
          refine List.IsPrefix.trans ?_ hsends.extends_trace
          simp [greetedBy, grown, secured, driveHandshake]
      | ready => exact List.prefix_append _ _
      | starttlsWanted _ _ _ _ _ _ _ _ hsubmits =>
          refine List.IsPrefix.trans ?_ hsubmits.extends_trace
          simp [starttlsBuilt, capabilitiesOf, grown]
      | starttlsAccepted _ _ _ _ _ hbegins => exact hbegins.extends_trace
      | drives _ _ _ _ _ hdrives => exact hdrives.extends_trace

/-! ### Every action is justified -/

theorem Quits.justified (h : Quits w w') (hpast : AllJustified Justified w.trace) :
    AllJustified Justified w'.trace := by
  obtain ⟨logs, htrace⟩ := h.trace
  rw [htrace]
  apply justified_append_quiet hpast
  intro effect hmem
  obtain ⟨log, -, rfl⟩ := List.mem_map.mp hmem
  rfl

theorem justified_reads (hpast : AllJustified Justified w.trace) :
    AllJustified Justified (reads env w).trace := by
  simp only [reads, orFail_submit_trace]
  exact justified_append_quiet hpast (by simp [Effect.action])

theorem SubmitsCommand.justified (h : SubmitsCommand env w plaintext w')
    (hpast : AllJustified Justified w.trace) (hgreeted : Greeted w.trace)
    (hplain : w.conn.tls = none → .handshake ∉ actions w.trace) :
    AllJustified Justified w'.trace := by
  cases h with
  | plain htls len hlen =>
      rw [orFail_submit_trace]
      apply hpast.snoc
      intro act hact
      simp only [Effect.action] at hact
      split at hact <;> cases Option.some.inj hact
      · exact fun _ => hplain htls
      · exact ⟨hgreeted, fun _ => hplain htls⟩
  | encrypted tls htls hdone out hout hstatus =>
      rw [orFail_submit_trace]
      have hpast' : AllJustified Justified (encrypting w tls plaintext).trace :=
        justified_append_quiet hpast (by simp [Effect.action])
      apply hpast'.snoc
      intro act hact
      simp only [Effect.action] at hact
      split at hact <;> cases Option.some.inj hact
      · intro hfalse
        cases hfalse
      · exact ⟨hgreeted.mono (List.prefix_append _ _), by simp⟩
  | encryptFailed => exact justified_append_quiet hpast (by simp [Effect.action])

theorem SendsEhlo.justified (h : SendsEhlo env identity nowMs w w')
    (hpast : AllJustified Justified w.trace) (hgreeted : Greeted w.trace)
    (hplain : w.conn.tls = none → .handshake ∉ actions w.trace) :
    AllJustified Justified w'.trace := by
  cases h with
  | tooLong _ hquits => exact hquits.justified hpast
  | submits _ _ hsubmits =>
      refine hsubmits.justified ?_ (hgreeted.mono (List.prefix_append _ _)) fun htls => ?_
      · exact justified_append_quiet hpast (by simp [Effect.action])
      · simpa [ehloBuilt, Effect.action] using hplain htls

theorem Drives.justified (h : Drives env w tls input w')
    (hpast : AllJustified Justified w.trace) : AllJustified Justified w'.trace := by
  have hpast' : AllJustified Justified (driveHandshake w tls input).1.trace :=
    justified_append_quiet hpast (by simp [Effect.action])
  cases h with
  | wantWrite | wantRead =>
      rw [orFail_submit_trace]
      exact justified_append_quiet hpast' (by simp [Effect.action])
  | refused _ hquits => exact hquits.justified hpast'

theorem Begins.justified (h : Begins env nowMs w w') (hpast : AllJustified Justified w.trace)
    (hdue : Due w.trace .handshake) : AllJustified Justified w'.trace := by
  cases h with
  | createFailed _ _ _ hquits =>
      exact hquits.justified (justified_append_quiet hpast (by simp [Effect.action]))
  | drives _ _ tls _ detail hdrives =>
      refine hdrives.justified (justified_append_quiet ?_ (by simp [Effect.action]))
      apply hpast.snoc
      intro act hact
      cases Option.some.inj hact
      exact hdue

theorem not_handshake_of_plain {mode : TlsMode} {state : ConnState} {greeted : Bool}
    {acts : List Action} (h : history mode ⟨state, false, greeted⟩ = some acts) :
    .handshake ∉ acts := by
  cases mode <;> cases state <;> cases greeted <;> simp [history] at h <;> subst h <;> decide

theorem no_ehlo_of_waitBanner {mode : TlsMode} {secured greeted : Bool} {acts : List Action}
    (h : history mode ⟨.waitBanner, secured, greeted⟩ = some acts) (encrypted : Bool) :
    .ehlo encrypted ∉ acts := by
  cases mode <;> cases secured <;> cases greeted <;> simp [history] at h <;> subst h <;>
    cases encrypted <;> decide

theorem nothing_of_connecting {mode : TlsMode} {secured greeted : Bool} {acts : List Action}
    (h : history mode ⟨.connecting, secured, greeted⟩ = some acts) : acts = [] := by
  cases mode <;> cases secured <;> cases greeted <;> simp [history] at h <;> exact h

theorem greeted_of_read {reply : Reply} (hoffers : Offers w result.bytesTransferred)
    (hhistory : history w.conn.tlsMode (phase w.conn) = some (actions w.trace))
    (hstate : w.conn.state = .waitBanner)
    (hread : Reply.read (offered w result.bytesTransferred) maxReplyLines = .ok reply)
    (hpositive : Reply.positive reply.code = true) : Greeted w.trace := by
  refine ⟨w.trace, List.prefix_rfl, ?_, reply, ?_, hpositive⟩
  · rw [phase, hstate] at hhistory
    exact no_ehlo_of_waitBanner hhistory
  · rw [hoffers.reply (by rw [hstate]; rfl), hread]

theorem Handled.justified (h : Handled env identity nowMs w result w')
    (hoffers : Offers w result.bytesTransferred)
    (hhistory : history w.conn.tlsMode (phase w.conn) = some (actions w.trace))
    (hpast : AllJustified Justified w.trace)
    (hgreeted : w.conn.bannerSeen = true → Greeted w.trace) :
    AllJustified Justified w'.trace := by
  have hplain (htls : w.conn.tls = none) : .handshake ∉ actions w.trace := by
    rw [phase, htls] at hhistory
    exact not_handshake_of_plain hhistory
  cases h with
  | refuses _ hquits => exact hquits.justified hpast
  | proceeds _ hproceeds =>
      cases hproceeds with
      | connected =>
          exact justified_reads (justified_append_quiet hpast (by simp [Effect.action]))
      | connectedImplicit hstate _ hbegins =>
          refine hbegins.justified (justified_append_quiet hpast (by simp [Effect.action])) ?_
          rw [phase, hstate] at hhistory
          simp [Due, Effect.action, nothing_of_connecting hhistory]
      | waits | ehloSent | starttlsSent => exact justified_reads hpast
      | greeted hstate _ reply hread _ hpositive hsends =>
          refine hsends.justified ?_ ?_ fun htls => ?_
          · exact justified_append_quiet hpast (by simp [Effect.action])
          · exact (greeted_of_read hoffers hhistory hstate hread hpositive).mono
              (List.prefix_append _ _)
          · simpa [greetedBy, grown, Effect.action] using hplain htls
      | ready => exact justified_append_quiet hpast (by simp [Effect.action])
      | starttlsWanted hstate _ reply caps _ htls _ _ hsubmits =>
          have hbanner : w.conn.bannerSeen = true := by
            have hconsistent := consistent_of_history hhistory
            rw [phase, hstate] at hconsistent
            exact hconsistent
          refine hsubmits.justified ?_ ?_ fun _ => ?_
          · simp only [starttlsBuilt, capabilitiesOf, modify_trace, record_trace, grown,
              List.append_assoc]
            exact justified_append_quiet hpast (by simp [Effect.action])
          · refine (hgreeted hbanner).mono ?_
            simp [starttlsBuilt, capabilitiesOf, grown]
          · simpa [starttlsBuilt, capabilitiesOf, grown, Effect.action] using hplain htls
      | starttlsAccepted hstate _ reply hread hpositive hbegins =>
          refine hbegins.justified hpast fun _ _ => ⟨reply, ?_, hpositive⟩
          rw [show received (grown w result.bytesTransferred).trace = received w.trace from rfl,
            hoffers.reply (by rw [hstate]; rfl), hread]
      | drives _ _ _ _ _ hdrives => exact hdrives.justified hpast
      | securedFirst =>
          refine justified_reads ?_
          simp only [secured, driveHandshake, modify_trace, record_trace, List.append_assoc]
          exact justified_append_quiet hpast (by simp [Effect.action])
      | securedAgain _ tls _ _ _ _ hbanner hsends =>
          refine hsends.justified ?_ ?_ (by simp [secured, driveHandshake])
          · simp only [secured, driveHandshake, modify_trace, record_trace, List.append_assoc]
            exact justified_append_quiet hpast (by simp [Effect.action])
          · refine (hgreeted hbanner).mono ?_
            simp [secured, driveHandshake]

/-! ### What a session that has not failed has behind it -/

/-- A connection that has seen a greeting has accepted one. -/
def GreetedIfSeen (w : World E) : Prop :=
  w.conn.state ≠ .error → w.conn.state ≠ .timedOut → w.conn.bannerSeen = true → Greeted w.trace

/-- A connection with an engine is still in the handshake or behind a finished one. -/
def SecuredIfDone (w : World E) : Prop :=
  w.conn.state ≠ .error → w.conn.state ≠ .timedOut → w.conn.state ≠ .tlsHandshaking →
    w.conn.tls.isSome = true → HandshakeReturnedOk w.trace

/-- A ready connection has a complete EHLO reply, which offered no STARTTLS if the mode would have
taken it. -/
def ConcludedIfReady (w : World E) : Prop :=
  w.conn.state = .ready → ∃ reply caps,
    Cap.parseEhloResponse Cap.init (received w.trace) maxReplyLines = some (.ok reply, caps)
      ∧ (w.conn.tls.isSome = true ∨ w.conn.tls = none ∧ (w.conn.tlsMode = .none
        ∨ w.conn.tlsMode = .opportunistic ∧ caps.hasStarttls = false))

theorem flags_of_phase {conn : Connection E} {state : ConnState} {secured greeted : Bool}
    (h : phase conn = ⟨state, secured, greeted⟩ ∨ (phase conn).state = .error)
    (herror : conn.state ≠ .error) :
    conn.state = state ∧ conn.tls.isSome = secured ∧ conn.bannerSeen = greeted := by
  rcases h with h | h
  · exact ⟨congrArg Phase.state h, congrArg Phase.secured h, congrArg Phase.greeted h⟩
  · exact absurd h herror

theorem Handled.greetedIfSeen (h : Handled env identity nowMs w result w')
    (hoffers : Offers w result.bytesTransferred)
    (hhistory : history w.conn.tlsMode (phase w.conn) = some (actions w.trace))
    (hgreeted : w.conn.bannerSeen = true → Greeted w.trace) : GreetedIfSeen w' := by
  intro herror _ hseen
  have hle := h.extends_trace
  have hkeep (hbanner : w'.conn.bannerSeen = w.conn.bannerSeen) : Greeted w'.trace :=
    (hgreeted (hbanner ▸ hseen)).mono hle
  cases h with
  | refuses _ hquits => exact absurd hquits.state herror
  | proceeds _ hproceeds =>
      cases hproceeds with
      | connected | waits | ehloSent | starttlsSent | securedFirst =>
          exact hkeep (flags_of_phase phase_reads herror).2.2
      | connectedImplicit _ _ hbegins | starttlsAccepted _ _ _ _ _ hbegins =>
          exact hkeep (flags_of_phase hbegins.phase_eq herror).2.2
      | greeted hstate _ reply hread _ hpositive =>
          exact (greeted_of_read hoffers hhistory hstate hread hpositive).mono hle
      | ready => exact hkeep rfl
      | starttlsWanted _ _ _ _ _ _ _ _ hsubmits =>
          exact hkeep (flags_of_phase hsubmits.phase_eq herror).2.2
      | drives _ _ htls _ _ hdrives =>
          exact hkeep (flags_of_phase (hdrives.phase_eq (by simp [htls])) herror).2.2
      | securedAgain _ _ _ _ _ _ _ hsends =>
          exact hkeep (flags_of_phase hsends.phase_eq herror).2.2

theorem Handled.securedIfDone (h : Handled env identity nowMs w result w')
    (hsecured : w.conn.state ≠ .tlsHandshaking → w.conn.tls.isSome = true →
      HandshakeReturnedOk w.trace) : SecuredIfDone w' := by
  intro herror _ hnot hsome
  have hle := h.extends_trace
  have hkeep {state : ConnState} (hstate : w.conn.state = state) (hne : state ≠ .tlsHandshaking)
      (htls : w'.conn.tls.isSome = w.conn.tls.isSome) : HandshakeReturnedOk w'.trace :=
    (hsecured (hstate ▸ hne) (htls ▸ hsome)).mono hle
  have hdone (tls : E.State)
      (hstatus : (E.handshake tls (handshakeInput w result) readBufSize).status = .ok)
      (hsuffix : (secured w tls (handshakeInput w result)).trace <+: w'.trace) :
      HandshakeReturnedOk w'.trace := by
    refine ⟨handshakeInput w result,
      (E.handshake tls (handshakeInput w result) readBufSize).out, hsuffix.subset ?_⟩
    simp only [secured, driveHandshake, modify_trace, record_trace, hstatus]
    exact List.mem_append_left _ (List.mem_append_right _ List.mem_cons_self)
  cases h with
  | refuses _ hquits => exact absurd hquits.state herror
  | proceeds _ hproceeds =>
      cases hproceeds with
      | connected hstate | ehloSent hstate | starttlsSent hstate =>
          exact hkeep hstate (by decide) (flags_of_phase phase_reads herror).2.1
      | waits hstate =>
          refine hkeep rfl ?_ (flags_of_phase phase_reads herror).2.1
          intro heq
          rw [heq] at hstate
          exact absurd hstate (by decide)
      | connectedImplicit _ _ hbegins | starttlsAccepted _ _ _ _ _ hbegins =>
          exact absurd (flags_of_phase hbegins.phase_eq herror).1 hnot
      | greeted hstate _ _ _ _ _ hsends =>
          exact hkeep hstate (by decide) (flags_of_phase hsends.phase_eq herror).2.1
      | ready hstate => exact hkeep hstate (by decide) rfl
      | starttlsWanted hstate _ _ _ _ _ _ _ hsubmits =>
          exact hkeep hstate (by decide) (flags_of_phase hsubmits.phase_eq herror).2.1
      | drives hstate _ htls _ _ hdrives =>
          have hphase := flags_of_phase (hdrives.phase_eq (by simp [htls])) herror
          exact absurd (hphase.1.trans hstate) hnot
      | securedFirst _ tls _ hstatus => exact hdone tls hstatus (by simp [reads])
      | securedAgain _ tls _ hstatus _ _ _ hsends =>
          have hsuffix := hsends.extends_trace
          exact hdone tls hstatus hsuffix

theorem Handled.of_ready (h : Handled env identity nowMs w result w')
    (hready : w'.conn.state = .ready) :
    w.conn.state = .waitEhlo ∧ result.result = 0 ∧ result.bytesTransferred ≠ 0
      ∧ ∃ reply caps, Cap.parseEhloResponse w.caps (offered w result.bytesTransferred) maxReplyLines
            = some (.ok reply, caps)
          ∧ (w.conn.tls.isSome = true ∨ w.conn.tls = none ∧ (w.conn.tlsMode = .none
            ∨ w.conn.tlsMode = .opportunistic ∧ caps.hasStarttls = false))
          ∧ w' = readied w result.bytesTransferred caps := by
  have herror : w'.conn.state ≠ .error := by simp [hready]
  cases h with
  | refuses _ hquits => exact absurd hquits.state herror
  | proceeds hresult hproceeds =>
      cases hproceeds with
      | connected | ehloSent | starttlsSent | securedFirst =>
          exact nomatch hready.symm.trans (flags_of_phase phase_reads herror).1
      | waits hstate =>
          have hsame : w.conn.state = .ready :=
            (hready.symm.trans (flags_of_phase phase_reads herror).1).symm
          rw [hsame] at hstate
          exact absurd hstate (by decide)
      | connectedImplicit _ _ hbegins | starttlsAccepted _ _ _ _ _ hbegins =>
          exact nomatch hready.symm.trans (flags_of_phase hbegins.phase_eq herror).1
      | greeted _ _ _ _ _ _ hsends | securedAgain _ _ _ _ _ _ _ hsends =>
          exact nomatch hready.symm.trans (flags_of_phase hsends.phase_eq herror).1
      | ready hstate hbytes reply caps hparse hmode =>
          exact ⟨hstate, hresult, hbytes, reply, caps, hparse, hmode, rfl⟩
      | starttlsWanted _ _ _ _ _ _ _ _ hsubmits =>
          exact nomatch hready.symm.trans (flags_of_phase hsubmits.phase_eq herror).1
      | drives hstate _ htls _ _ hdrives =>
          have hphase := flags_of_phase (hdrives.phase_eq (by simp [htls])) herror
          exact nomatch hready.symm.trans (hphase.1.trans hstate)

@[simp] theorem received_readied {n : Nat} {caps : Capabilities} :
    received (readied w n caps).trace = received w.trace := by
  simp [received, readied, capabilitiesOf, grown, Effect.receive]

theorem Handled.concludedIfReady (h : Handled env identity nowMs w result w')
    (hoffers : Offers w result.bytesTransferred) : ConcludedIfReady w' := by
  intro hready
  obtain ⟨hstate, -, -, reply, caps, hparse, hmode, rfl⟩ := h.of_ready hready
  refine ⟨reply, caps, ?_, hmode⟩
  rw [received_readied, hoffers.reply (by rw [hstate]; rfl)]
  exact Cap.parseEhloResponse_congr Cap.init hparse

end Exits

/-- The meaning of what a connection has done. -/
structure Accounted (w : World E) : Prop where
  justified : AllJustified Justified w.trace
  greeted : GreetedIfSeen w
  secured : SecuredIfDone w
  concluded : ConcludedIfReady w

theorem Accounted.of_error {w : World E} (hstate : w.conn.state = .error)
    (hjustified : AllJustified Justified w.trace) : Accounted w where
  justified := hjustified
  greeted herror := absurd hstate herror
  secured herror := absurd hstate herror
  concluded hready := nomatch hstate.symm.trans hready

theorem Arrives.justified {w u : World E} (h : Arrives w u)
    (hpast : AllJustified Justified w.trace) : AllJustified Justified u.trace := by
  obtain ⟨effects, htrace, hquiet⟩ := h.trace
  rw [htrace]
  exact justified_append_quiet hpast hquiet

theorem accounted_of_amounts {identity : Bytes} {w w' : World E} (h : Amounts identity w w')
    (hsound : Sound w.conn.tlsMode (phase w.conn) (actions w.trace))
    (hlive : w.conn.state.terminal = false) (haccounted : Accounted w) : Accounted w' := by
  obtain ⟨herror, htimedOut⟩ := ne_of_live hlive
  have hgreeted {u : World E} (harrives : Arrives w u) (hseen : u.conn.bannerSeen = true) :
      Greeted u.trace :=
    (haccounted.greeted herror htimedOut (harrives.bannerSeen_eq ▸ hseen)).mono
      harrives.extends_trace
  have hsecured {u : World E} (harrives : Arrives w u) (hnot : u.conn.state ≠ .tlsHandshaking)
      (hsome : u.conn.tls.isSome = true) : HandshakeReturnedOk u.trace :=
    (haccounted.secured herror htimedOut (harrives.state_eq ▸ hnot) (harrives.tls_eq ▸ hsome)).mono
      harrives.extends_trace
  cases h with
  | quits harrives hquits =>
      exact .of_error hquits.state (hquits.justified (harrives.justified haccounted.justified))
  | rereads env harrives hstate =>
      rename_i u
      by_cases hfailed : (reads env u).conn.state = .error
      · exact .of_error hfailed (justified_reads (harrives.justified haccounted.justified))
      obtain ⟨hsame, htls, hbanner⟩ := flags_of_phase phase_reads hfailed
      refine ⟨justified_reads (harrives.justified haccounted.justified), fun _ _ hseen => ?_,
        fun _ _ hnot hsome => ?_, fun hready => ?_⟩
      · exact (hgreeted harrives (hbanner.symm.trans hseen)).mono reads_extends_trace
      · exact (hsecured harrives (hsame ▸ hnot) (htls.symm.trans hsome)).mono reads_extends_trace
      · rw [show u.conn.state = .ready from hsame.symm.trans hready] at hstate
        exact absurd hstate (by decide)
  | handled env nowMs result harrives hoffers hhandled =>
      have hhistory := history_of_arrives harrives hsound hlive
      exact ⟨hhandled.justified hoffers hhistory (harrives.justified haccounted.justified)
          (hgreeted harrives),
        hhandled.greetedIfSeen hoffers hhistory (hgreeted harrives),
        hhandled.securedIfDone (hsecured harrives), hhandled.concludedIfReady hoffers⟩

theorem accounted_of_reachable {identity : Bytes} {w : World E} (h : Reachable identity w) :
    Accounted w := by
  obtain ⟨w₀, events, hstart, run⟩ := h
  refine run.relates (I := Reachable identity) ⟨w₀, [], hstart, .nil⟩
    (fun _ _ _ hreach hstep => hreach.step hstep) ?_ fun u event u' hreach haccounted hstep => ?_
  · obtain ⟨_, _, _, _, _, _, _, _, -, -, rfl⟩ := hstart.shape
    refine ⟨?_, fun _ _ hseen => ?_, fun _ _ _ hsome => ?_, fun hready => ?_⟩
    · exact justified_append_quiet (allJustified_nil _) (by simp [Effect.action])
    · cases hseen
    · cases hsome
    · cases hready
  · cases took_of_steps hstep with
    | completes env op result data nowMs hlive hdelivers honIo =>
        exact accounted_of_amounts (hreach.amounts hlive hdelivers honIo)
          (sound_of_reachable hreach) hlive haccounted
    | inTime => exact haccounted
    | expires =>
        refine ⟨?_, fun _ htimedOut => absurd rfl htimedOut,
          fun _ htimedOut => absurd rfl htimedOut, fun hready => ?_⟩
        · exact justified_append_quiet haccounted.justified (by simp [Effect.action])
        · cases hready
    | others =>
        exact ⟨haccounted.justified, haccounted.greeted, haccounted.secured, haccounted.concluded⟩

/-- **Protocol order.** In every mode and whatever the server, the engine and the reactor do, the
actions of a connection are a prefix of a word of its mode, and each is justified by what came
before it. A ready connection has performed a whole word; if there is a handshake in it the engine
returned `SMTP_TLS_OK`; and if an opportunistic one stopped in the clear, the complete EHLO reply it
had received offered no STARTTLS. -/
theorem protocol_order {identity : Bytes} {w : World E} (h : Reachable identity w) :
    Lawful w.conn.tlsMode (actions w.trace) ∧ AllJustified Justified w.trace
      ∧ (w.conn.state = .ready →
        actions w.trace ∈ words w.conn.tlsMode
          ∧ (.handshake ∈ actions w.trace → HandshakeReturnedOk w.trace)
          ∧ (w.conn.tlsMode = .opportunistic → actions w.trace = plainWord →
            ∃ reply lines, Reply.read (received w.trace) maxReplyLines = .ok reply
              ∧ Reply.Lines (received w.trace) 0 lines
              ∧ Cap.offersStarttls (received w.trace) lines = false)) := by
  have hsound := sound_of_reachable h
  have haccounted := accounted_of_reachable h
  refine ⟨hsound.lawful, haccounted.justified, ?_⟩
  intro hready
  have hhistory := hsound.history (by simp [phase, hready]) (by simp [phase, hready])
  rw [phase, hready] at hhistory
  obtain ⟨hword, hhandshake⟩ := mem_words_of_ready hhistory
  refine ⟨hword, ?_, ?_⟩
  · intro hmem
    exact haccounted.secured (by simp [hready]) (by simp [hready]) (by simp [hready])
      (hhandshake.mp hmem)
  · intro hmode hplain
    obtain ⟨reply, caps, hparse, hstop⟩ := haccounted.concluded hready
    have hnone : ¬ w.conn.tls.isSome = true := by
      rw [← hhandshake, hplain]
      decide
    have hoffered : caps.hasStarttls = false := by
      rcases hstop with hsome | ⟨-, hnot | ⟨-, hoffered⟩⟩
      · exact absurd hsome hnone
      · exact absurd hnot (by simp [hmode])
      · exact hoffered
    obtain ⟨lines, hlines, hstarttls⟩ := Cap.hasStarttls_of_parse hparse
    exact ⟨reply, lines, Cap.read_of_parseEhloResponse hparse, hlines, hstarttls ▸ hoffered⟩

/-- An upgraded session over the record engine is ready behind its word. -/
theorem protocol_order_upgraded :
    ∃ w, playSample sampleInfo .explicit upgradeScript = some w ∧ w.conn.state = .ready
      ∧ actions w.trace ∈ words w.conn.tlsMode ∧ AllJustified Justified w.trace := by
  have hplay : (playSample sampleInfo .explicit upgradeScript).map (fun w => w.conn.state)
      = some .ready := by decide +kernel
  obtain ⟨w, hw, hready⟩ := Option.map_eq_some_iff.mp hplay
  obtain ⟨-, hjustified, hword⟩ := protocol_order (reachable_of_playSample hw)
  exact ⟨w, hw, hready, (hword hready).1, hjustified⟩

end Conn

end SmtpClient
