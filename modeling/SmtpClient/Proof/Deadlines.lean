import SmtpClient.Proof.InFlight

/-!
# Deadlines

A step that leaves a connection in its state leaves its deadline alone, and a session has its
deadline renewed five times at most. So as long as every completion is handled in time, the deadline
stays within five step timeouts of that of the connect, whatever the server sends.
-/

namespace SmtpClient

namespace Protocol

/-- The number of deadlines a session has been given when it gets to a phase, at most. -/
def renewals : Phase → Nat
  | ⟨.connecting, _, _⟩ => 0
  | ⟨.waitBanner, secured, _⟩ => if secured then 2 else 1
  | ⟨.sendingEhlo, secured, _⟩ | ⟨.waitEhlo, secured, _⟩ => if secured then 5 else 2
  | ⟨.sendingStarttls, _, _⟩ | ⟨.waitStarttlsReply, _, _⟩ => 3
  | ⟨.tlsHandshaking, _, greeted⟩ => if greeted then 4 else 1
  | _ => 5

theorem renewals_le (p : Phase) : renewals p ≤ 5 := by
  obtain ⟨state, secured, greeted⟩ := p
  cases state <;> cases secured <;> cases greeted <;> decide

theorem renewals_of_over {p : Phase} (h : p.state = .error ∨ p.state = .timedOut) :
    renewals p = 5 := by
  obtain ⟨state, secured, greeted⟩ := p
  rcases h with rfl | rfl <;> rfl

/-- A session never takes a renewal back. -/
theorem Step.renewals_le {mode : TlsMode} {p q : Phase} {acts : List Action}
    (h : Step mode p acts q) : renewals p ≤ renewals q := by
  cases h with
  | stays => exact Nat.le_refl _
  | moves hmove =>
      cases hmove with
      | greet secured | ehloSent secured | finish secured => cases secured <;> decide
      | connect | connectImplicit | starttls | starttlsSent | upgrade | secureFirst
      | secureAgain => decide
  | ends q hover | endsMoving _ q hover =>
      rw [renewals_of_over hover]
      exact Protocol.renewals_le p

end Protocol

variable {E : TlsEngine}

namespace Conn

open World Protocol

def stepTimeoutMs : Nat := 300000

/-- What a step does to the deadline. -/
inductive Deadline (nowMs : Nat) (w w' : World E) : Prop where
  | keeps (hdeadline : w'.conn.deadlineMs = w.conn.deadlineMs)
  | renews (hdeadline : w'.conn.deadlineMs = addMs nowMs stepTimeoutMs)
      (hrenewals : renewals (phase w.conn) < renewals (phase w'.conn))
      (hstate : w'.conn.state ≠ w.conn.state)

section Exits

variable {env : Env E} {identity plaintext input : Bytes} {nowMs : Nat} {w w' : World E}
  {tls : E.State} {result : IoResult}

@[simp] theorem reads_deadlineMs : (reads env w).conn.deadlineMs = w.conn.deadlineMs := by
  simp [reads]

theorem SubmitsCommand.deadlineMs_eq (h : SubmitsCommand env w plaintext w') :
    w'.conn.deadlineMs = w.conn.deadlineMs := by
  cases h <;> simp [encrypting]

theorem Drives.deadlineMs_eq (h : Drives env w tls input w') :
    w'.conn.deadlineMs = w.conn.deadlineMs := by
  cases h with
  | wantWrite | wantRead => simp [driveHandshake]
  | refused _ hquits => simpa [driveHandshake] using hquits.deadlineMs

/-- A step that gives the connection the deadline of the state it goes on to, or fails there. -/
theorem Deadline.of_landing {p : Phase} (hdeadline : w'.conn.deadlineMs = addMs nowMs stepTimeoutMs)
    (hland : phase w'.conn = p ∨ (phase w'.conn).state = .error)
    (hrenewals : renewals (phase w.conn) < renewals p) (hstate : p.state ≠ w.conn.state) :
    Deadline nowMs w w' := by
  rcases hland with hland | herror
  · refine .renews hdeadline (hland ▸ hrenewals) ?_
    rwa [show w'.conn.state = p.state from congrArg Phase.state hland]
  · have hlast : renewals (phase w'.conn) = 5 := renewals_of_over (.inl herror)
    have hle := Protocol.renewals_le p
    refine .renews hdeadline (by omega) ?_
    intro hsame
    have hover : renewals (phase w.conn) = 5 := renewals_of_over (.inl (hsame.symm.trans herror))
    omega

theorem Deadline.of_reads {v : World E} (hdeadline : v.conn.deadlineMs = addMs nowMs stepTimeoutMs)
    (hrenewals : renewals (phase w.conn) < renewals (phase v.conn))
    (hstate : v.conn.state ≠ w.conn.state) : Deadline nowMs w (reads env v) :=
  .of_landing (reads_deadlineMs.trans hdeadline) phase_reads hrenewals hstate

theorem SendsEhlo.deadline {v : World E} (h : SendsEhlo env identity nowMs v w')
    (hsame : v.conn.deadlineMs = w.conn.deadlineMs)
    (hrenewals : renewals (phase w.conn)
      < renewals ⟨.sendingEhlo, v.conn.tls.isSome, v.conn.bannerSeen⟩)
    (hstate : w.conn.state ≠ .sendingEhlo) : Deadline nowMs w w' := by
  have hland := h.phase_eq
  cases h with
  | tooLong _ hquits => exact .keeps (hquits.deadlineMs.trans hsame)
  | submits _ _ hsubmits =>
      exact .of_landing hsubmits.deadlineMs_eq hland hrenewals hstate.symm

theorem Begins.deadline {v : World E} (h : Begins env nowMs v w')
    (hsame : v.conn.deadlineMs = w.conn.deadlineMs)
    (hrenewals : renewals (phase w.conn) < renewals ⟨.tlsHandshaking, true, v.conn.bannerSeen⟩)
    (hstate : w.conn.state ≠ .tlsHandshaking) : Deadline nowMs w w' := by
  have hland := h.phase_eq
  cases h with
  | createFailed _ _ _ hquits => exact .keeps (hquits.deadlineMs.trans hsame)
  | drives _ _ _ _ _ hdrives =>
      exact .of_landing hdrives.deadlineMs_eq hland hrenewals hstate.symm

theorem Handled.deadline (h : Handled env identity nowMs w result w')
    (hconsistent : Consistent (phase w.conn)) : Deadline nowMs w w' := by
  unfold phase at hconsistent
  cases h with
  | refuses _ hquits => exact .keeps hquits.deadlineMs
  | proceeds _ hproceeds =>
      cases hproceeds with
      | connected hstate =>
          rw [hstate] at hconsistent
          obtain ⟨htls, -⟩ := hconsistent
          exact .of_reads rfl (by simp [phase, hstate, htls, renewals]) (by simp [hstate])
      | connectedImplicit hstate _ hbegins =>
          refine hbegins.deadline rfl ?_ (by simp [hstate])
          rw [phase, hstate]
          cases hbanner : w.conn.bannerSeen <;> simp [renewals, hbanner]
      | waits | ehloSent | starttlsSent => exact .keeps (by simp [grown])
      | ready => exact .keeps rfl
      | greeted hstate _ _ _ _ _ hsends =>
          refine hsends.deadline rfl ?_ (by simp [hstate])
          rw [phase, hstate]
          cases htls : w.conn.tls <;> simp [renewals, greetedBy, grown, htls]
      | starttlsWanted hstate _ _ _ _ htls _ _ hsubmits =>
          refine .of_landing hsubmits.deadlineMs_eq hsubmits.phase_eq ?_ ?_
          · simp [phase, hstate, htls, starttlsBuilt, renewals]
          · simp [phase, starttlsBuilt, hstate]
      | starttlsAccepted hstate _ _ _ _ hbegins =>
          rw [hstate] at hconsistent
          obtain ⟨-, hbanner⟩ := hconsistent
          refine hbegins.deadline rfl ?_ (by simp [hstate])
          simp [phase, hstate, grown, hbanner, renewals]
      | drives _ _ _ _ _ hdrives => exact .keeps hdrives.deadlineMs_eq
      | securedFirst hstate _ _ _ _ _ hbanner =>
          refine .of_reads rfl ?_ (by simp [hstate])
          simp [phase, hstate, hbanner, secured, driveHandshake, renewals]
      | securedAgain hstate _ _ _ _ _ hbanner hsends =>
          refine hsends.deadline rfl ?_ (by simp [hstate])
          simp [phase, hstate, secured, driveHandshake, hbanner, renewals]

theorem Deadline.congr {v : World E} (h : Deadline nowMs v w')
    (hphase : phase v.conn = phase w.conn) (hsame : v.conn.deadlineMs = w.conn.deadlineMs) :
    Deadline nowMs w w' := by
  cases h with
  | keeps hdeadline => exact .keeps (hdeadline.trans hsame)
  | renews hdeadline hrenewals hstate =>
      have hstate' : v.conn.state = w.conn.state := congrArg Phase.state hphase
      exact .renews hdeadline (hphase ▸ hrenewals) (hstate' ▸ hstate)

theorem OnIo.deadline (h : OnIo env identity nowMs w result w')
    (hconsistent : Consistent (phase w.conn)) : Deadline nowMs w w' := by
  cases h with
  | direct _ hhandled => exact hhandled.deadline hconsistent
  | full _ _ _ hquits => exact .keeps hquits.deadlineMs
  | undecided => exact .keeps reads_deadlineMs
  | broken _ _ _ _ _ hquits => exact .keeps hquits.deadlineMs
  | delivered tls hdecrypts _ _ _ hhandled =>
      have hphase := phase_decrypted hdecrypts.tls result.bytesTransferred
      exact (hhandled.deadline (hphase ▸ hconsistent)).congr hphase rfl

end Exits

theorem Reachable.deadline {identity : Bytes} {w w' : World E} {env : Env E} {op : IoOp}
    {result : Int} {data : Bytes} {nowMs : Nat} (h : Reachable identity w)
    (hstep : (machine E identity).Steps w (.completion env op result data nowMs) w') :
    Deadline nowMs w w' := by
  cases took_of_steps hstep with
  | completes _ _ _ _ _ hlive _ honIo =>
      have hconsistent := consistent_of_sound (sound_of_reachable h) hlive
      have hphase : phase (w.deliver op result data).conn = phase w.conn := by simp [phase]
      exact (honIo.deadline (hphase ▸ hconsistent)).congr hphase (by simp)

/-! ### Runs -/

/-- A completion is handled before the deadline. -/
def OnTime (w : World E) : Event E → Prop
  | .completion _ _ _ _ nowMs => nowMs < w.conn.deadlineMs
  | _ => True

instance (w : World E) : (event : Event E) → Decidable (OnTime w event)
  | .completion _ _ _ _ nowMs => inferInstanceAs (Decidable (nowMs < w.conn.deadlineMs))
  | .timeout _ | .others _ => inferInstanceAs (Decidable True)

/-- A successful `smtp_connection_start` at a time and with a timeout. -/
def StartedAt (nowMs connectTimeoutMs : Nat) (w : World E) : Prop :=
  ∃ logId actor tlsMode tlsCtx trust caps, (tlsMode = .none ∨ tlsCtx.isSome)
    ∧ start (fresh logId actor tlsMode tlsCtx trust caps) nowMs connectTimeoutMs 0 = .ok (w, 0)

/-- The deadline is that of the connect, at most, and one step timeout more for each renewal. -/
def Budgeted (limit : Nat) (w : World E) : Prop :=
  w.conn.deadlineMs ≤ limit + renewals (phase w.conn) * stepTimeoutMs

theorem StartedAt.started {nowMs connectTimeoutMs : Nat} {w : World E}
    (h : StartedAt nowMs connectTimeoutMs w) : Started w := by
  obtain ⟨logId, actor, tlsMode, tlsCtx, trust, caps, hctx, h⟩ := h
  exact ⟨logId, actor, tlsMode, tlsCtx, trust, caps, nowMs, connectTimeoutMs, hctx, h⟩

theorem addMs_le (nowMs timeoutMs : Nat) : addMs nowMs timeoutMs ≤ nowMs + timeoutMs :=
  Nat.mod_le _ _

theorem StartedAt.budgeted {nowMs connectTimeoutMs : Nat} {w : World E}
    (h : StartedAt nowMs connectTimeoutMs w) : Budgeted (nowMs + connectTimeoutMs) w := by
  obtain ⟨logId, actor, tlsMode, tlsCtx, trust, caps, -, h⟩ := h
  obtain ⟨-, -, rfl⟩ := start_fresh_ok h
  exact Nat.le_add_right_of_le (addMs_le nowMs connectTimeoutMs)

theorem Budgeted.step {identity : Bytes} {limit : Nat} {w w' : World E} {event : Event E}
    (hreachable : Reachable identity w) (hbudget : Budgeted limit w) (hontime : OnTime w event)
    (hstep : (machine E identity).Steps w event w') : Budgeted limit w' := by
  obtain ⟨acts, -, hsession⟩ := (took_of_steps hstep).step (sound_of_reachable hreachable)
  have hrenewals := hsession.renewals_le
  have hlimits := Nat.mul_le_mul_right stepTimeoutMs hrenewals
  unfold Budgeted at hbudget ⊢
  cases event with
  | completion env op result data nowMs =>
      have hnow : nowMs < w.conn.deadlineMs := hontime
      cases hreachable.deadline hstep with
      | keeps hdeadline => omega
      | renews hdeadline hlater =>
          have hnew := addMs_le nowMs stepTimeoutMs
          have hone := Nat.mul_le_mul_right stepTimeoutMs hlater
          rw [Nat.succ_mul] at hone
          omega
  | timeout nowMs =>
      have hsame : w'.conn.deadlineMs = w.conn.deadlineMs := by
        cases took_of_steps hstep <;> rfl
      omega
  | others caps =>
      have hsame : w'.conn.deadlineMs = w.conn.deadlineMs := by
        cases took_of_steps hstep
        rfl
      omega

theorem budgeted_of_run {identity : Bytes} {nowMs connectTimeoutMs : Nat} {w₀ w : World E}
    {events : List (Event E)} (hstart : StartedAt nowMs connectTimeoutMs w₀)
    (hrun : ((machine E identity).restrict OnTime).Run w₀ events w) :
    Budgeted (nowMs + connectTimeoutMs) w := by
  have hkept := hrun.invariant
    (I := fun u => Reachable identity u ∧ Budgeted (nowMs + connectTimeoutMs) u)
    ⟨⟨w₀, [], hstart.started, .nil⟩, hstart.budgeted⟩ fun u event u' hu hstep => by
      have hbare : (machine E identity).Steps u event u' := ⟨hstep.1.1, hstep.2⟩
      exact ⟨hu.1.step hbare, Budgeted.step hu.1 hu.2 hstep.1.2 hbare⟩
  exact hkept.2

theorem checkTimeout_of_terminal {w : World E} (hover : w.conn.state.terminal = true)
    (nowMs : Nat) : checkTimeout w nowMs = .ok w := by
  unfold checkTimeout
  rw [if_pos hover]

theorem terminal_of_expired {w w' : World E} {nowMs : Nat} (h : checkTimeout w nowMs = .ok w')
    (hdeadline : w.conn.deadlineMs ≤ nowMs) : w'.conn.state.terminal = true := by
  cases hover : w.conn.state.terminal with
  | true =>
      rw [checkTimeout_of_terminal hover] at h
      cases Except.ok.inj h
      exact hover
  | false =>
      rw [checkTimeout, if_neg (by simp [hover]), if_pos hdeadline] at h
      obtain ⟨-, -, h⟩ := logEmit_bind_ok.mp h
      cases Except.ok.inj h
      rfl

/-- **No server holds a connection forever.** A call that leaves the state as it is leaves the
deadline as it is, the deadline never gets beyond five step timeouts after that of the connect, and
from then on a timeout check ends the connection, if it is not over already. -/
theorem deadline_bounded {identity : Bytes} {nowMs connectTimeoutMs : Nat} {w₀ w : World E}
    {events : List (Event E)} (hstart : StartedAt nowMs connectTimeoutMs w₀)
    (hrun : ((machine E identity).restrict OnTime).Run w₀ events w) :
    (∀ env op result data laterMs w',
        (machine E identity).Steps w (.completion env op result data laterMs) w' →
        w'.conn.state = w.conn.state → w'.conn.deadlineMs = w.conn.deadlineMs)
      ∧ w.conn.deadlineMs ≤ nowMs + connectTimeoutMs + 5 * 300000
      ∧ (∀ laterMs, nowMs + connectTimeoutMs + 5 * 300000 ≤ laterMs →
          ∃ w', checkTimeout w laterMs = .ok w' ∧ w'.conn.state.terminal = true)
      ∧ ∀ laterMs, w.conn.state.terminal = true → checkTimeout w laterMs = .ok w := by
  have hreachable : Reachable identity w := ⟨w₀, events, hstart.started, hrun.of_restrict⟩
  have hbound : w.conn.deadlineMs ≤ nowMs + connectTimeoutMs + 5 * 300000 :=
    Nat.le_trans (budgeted_of_run hstart hrun)
      (Nat.add_le_add_left (Nat.mul_le_mul_right _ (Protocol.renewals_le _)) _)
  refine ⟨?_, hbound, ?_, fun laterMs hover => checkTimeout_of_terminal hover laterMs⟩
  · intro env op result data laterMs w' hstep hsame
    cases hreachable.deadline hstep with
    | keeps hdeadline => exact hdeadline
    | renews _ _ hstate => exact absurd hsame hstate
  · intro laterMs hlate
    obtain ⟨w', hcheck⟩ := hreachable.checkTimeout_ok laterMs
    exact ⟨w', hcheck, terminal_of_expired hcheck (Nat.le_trans hbound hlate)⟩

/-- An upgraded session that waits for the second reply to its EHLO is over by then. -/
theorem deadline_bounded_upgraded :
    ∃ w, playSampleWhen sampleInfo OnTime .explicit upgradeScript.dropLast = some w
      ∧ w.conn.state = .waitEhlo ∧ w.conn.deadlineMs ≤ 0 + 1000 + 5 * 300000
      ∧ ∃ w', checkTimeout w 1501000 = .ok w' ∧ w'.conn.state.terminal = true := by
  have hplay : (playSampleWhen sampleInfo OnTime .explicit upgradeScript.dropLast).map
      (fun w => w.conn.state) = some .waitEhlo := by decide +kernel
  obtain ⟨w, hw, hstate⟩ := Option.map_eq_some_iff.mp hplay
  obtain ⟨events, hrun⟩ := run_of_play hw
  obtain ⟨-, hbound, hexpires, -⟩ := deadline_bounded
    (⟨⟨1, 1⟩, bytes "mx", .explicit, some (), false, Cap.init, .inr rfl, rfl⟩ :
      StartedAt 0 1000 (sample sampleInfo .explicit)) hrun
  exact ⟨w, hw, hstate, hbound, hexpires 1501000 (by omega)⟩

end Conn

end SmtpClient
