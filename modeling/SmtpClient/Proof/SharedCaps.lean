import SmtpClient.Proof.EhloReply
import Mathlib.Data.List.Induction

/-!
# One capabilities buffer for many connections

The connections of a thread write the same `smtp_capabilities`. A connection that becomes ready has
just written it itself, from its own reply, and `on_terminal` is called before any other connection
takes a step; so what the callback reads there is a function of the bytes that connection has
received since its last EHLO.
-/

namespace SmtpClient

variable {E : TlsEngine}

/-- Whether a TLS engine exists, and the plaintext received since the last EHLO was submitted. -/
def Effect.hear (past : Bool × Bytes) : Effect → Bool × Bytes
  | .completion .read _ data => if past.1 then past else (false, past.2 ++ data)
  | .tlsDecrypt _ _ .ok chunk => (past.1, past.2 ++ chunk)
  | .tlsCreate _ _ true => (true, past.2)
  | .submitWrite (.command plain _) _ _ =>
      if plain = bytes "STARTTLS\r\n" then past else (past.1, [])
  | _ => past

/-- The plaintext a connection has received since it last submitted an EHLO. -/
def sinceEhlo (trace : List Effect) : Bytes := (trace.foldl Effect.hear (false, [])).2

/-- What empties the account of received bytes, and whether it is an EHLO. -/
def Effect.resets : Effect → Option Bool
  | .submitWrite (.command plain _) _ _ => some (plain ≠ bytes "STARTTLS\r\n")
  | .submitWrite .handshakeOutput _ _ => some false
  | .tlsCreate _ _ true => some false
  | _ => none

def resets (trace : List Effect) : List Bool := trace.filterMap Effect.resets

theorem hear_receive {past past' : Bool × Bytes} (h : past.1 = past'.1) (effect : Effect) :
    (effect.hear past).1 = (effect.receive past').1
      ∧ (effect.resets = none → effect.hear past = effect.receive past)
      ∧ (effect.resets = some true → (effect.hear past).2 = [] ∧ (effect.receive past').2 = []) := by
  cases effect with
  | completion kind result data =>
      cases kind with
      | read =>
          simp only [Effect.hear, Effect.receive, Effect.resets, h]
          split <;> simp_all
      | connect | write => exact ⟨h, fun _ => rfl, by simp [Effect.resets]⟩
  | submitWrite payload wire rc =>
      cases payload with
      | command plain encrypted =>
          simp only [Effect.hear, Effect.receive, Effect.resets]
          split <;> simp_all
      | handshakeOutput => exact ⟨h, by simp [Effect.resets], by simp [Effect.resets]⟩
  | tlsCreate hostname trust created =>
      cases created with
      | true => exact ⟨rfl, by simp [Effect.resets], by simp [Effect.resets]⟩
      | false => exact ⟨h, fun _ => rfl, by simp [Effect.resets]⟩
  | tlsDecrypt input room status chunk =>
      cases status <;> exact ⟨h, fun _ => rfl, by simp [Effect.resets]⟩
  | log | submitConnect | submitRead | tlsHandshake | tlsEncrypt =>
      exact ⟨h, fun _ => rfl, by simp [Effect.resets]⟩

/-- Where the last reset was an EHLO, the two accounts of received bytes agree. -/
theorem hear_eq_reception (trace : List Effect) :
    (trace.foldl Effect.hear (false, [])).1 = (reception trace).1
      ∧ ((resets trace).getLast? = some true →
        trace.foldl Effect.hear (false, []) = reception trace) := by
  induction trace using List.reverseRecOn with
  | nil => exact ⟨rfl, fun _ => rfl⟩
  | append_singleton trace effect ih =>
      obtain ⟨hengine, hsame⟩ := ih
      obtain ⟨hfirst, hquiet, hreset⟩ := hear_receive hengine effect
      simp only [reception_append, List.foldl_append, List.foldl_cons, List.foldl_nil]
      refine ⟨hfirst, fun hlast => ?_⟩
      cases hresets : effect.resets with
      | none =>
          have hlast' : (resets trace).getLast? = some true := by
            simpa [resets, hresets] using hlast
          rw [hquiet hresets, hsame hlast']
      | some ehlo =>
          obtain rfl : ehlo = true := by simpa [resets, hresets] using hlast
          obtain ⟨hnil, hnil'⟩ := hreset hresets
          exact Prod.ext hfirst (hnil.trans hnil'.symm)

namespace Conn

open World Protocol

/-- The states behind the submission of an EHLO and in front of the next command. -/
def ehloOut : ConnState → Bool
  | .sendingEhlo | .waitEhlo | .ready => true
  | _ => false

/-- In these states nothing has been written since the EHLO. -/
def EhloLast (w : World E) : Prop :=
  ehloOut w.conn.state = true → (resets w.trace).getLast? = some true

section Exits

variable {env : Env E} {identity plaintext input : Bytes} {nowMs : Nat} {w w' : World E}
  {tls : E.State} {result : IoResult}

theorem EhloLast.of_state (h : ehloOut w.conn.state = false) : EhloLast w := by
  intro hout
  rw [h] at hout
  exact absurd hout (by decide)

theorem Quits.ehloLast (h : Quits w w') : EhloLast w' := .of_state (by rw [h.state]; rfl)

@[simp] theorem resets_reads : resets (reads env w).trace = resets w.trace := by
  simp [reads, resets, Effect.resets]

theorem ehloLast_reads (h : EhloLast w) : EhloLast (reads env w) := by
  intro hout
  rw [resets_reads]
  apply h
  rcases @phase_reads _ env w with hphase | herror
  · rwa [← show _ = w.conn.state from congrArg Phase.state hphase]
  · rw [show (reads env w).conn.state = .error from herror] at hout
    exact absurd hout (by decide)

theorem ehloLine_ne (identity : Bytes) : ehloLine identity ≠ bytes "STARTTLS\r\n" := by
  intro heq
  have hhead := congrArg List.head? heq
  simp [ehloLine, bytes] at hhead

theorem SendsEhlo.ehloLast (h : SendsEhlo env identity nowMs w w') : EhloLast w' := by
  cases h with
  | tooLong _ hquits => exact hquits.ehloLast
  | submits _ _ hsubmits =>
      intro hout
      cases hsubmits with
      | plain | encrypted => simp [resets, Effect.resets, ehloLine_ne]
      | encryptFailed => exact nomatch hout

/-- A phase that is not the one an EHLO is sent in, or the end. -/
theorem EhloLast.of_phase {p : Phase} (h : phase w.conn = p ∨ (phase w.conn).state = .error)
    (hp : ehloOut p.state = false) : EhloLast w := by
  apply EhloLast.of_state
  rcases h with hphase | herror
  · rw [show w.conn.state = p.state from congrArg Phase.state hphase, hp]
  · rw [show w.conn.state = .error from herror]
    rfl

theorem Handled.ehloLast (h : Handled env identity nowMs w result w') (hw : EhloLast w) :
    EhloLast w' := by
  cases h with
  | refuses _ hquits => exact hquits.ehloLast
  | proceeds _ hproceeds =>
      cases hproceeds with
      | connected | starttlsSent | securedFirst => exact .of_phase phase_reads rfl
      | connectedImplicit _ _ hbegins | starttlsAccepted _ _ _ _ _ hbegins =>
          exact .of_phase hbegins.phase_eq rfl
      | waits => exact ehloLast_reads hw
      | greeted _ _ _ _ _ _ hsends | securedAgain _ _ _ _ _ _ _ hsends => exact hsends.ehloLast
      | ehloSent hstate =>
          refine ehloLast_reads fun _ => ?_
          simpa using hw (by rw [hstate]; rfl)
      | ready hstate =>
          intro _
          have hlast := hw (by rw [hstate]; rfl)
          simpa [readied, capabilitiesOf, grown, resets, Effect.resets] using hlast
      | starttlsWanted _ _ _ _ _ _ _ _ hsubmits => exact .of_phase hsubmits.phase_eq rfl
      | drives hstate tls htls _ _ hdrives =>
          refine .of_phase (hdrives.phase_eq (by simp [htls])) ?_
          rw [show (phase w.conn).state = .tlsHandshaking from hstate]
          rfl

end Exits

theorem ehloLast_deliver {w : World E} (h : EhloLast w) (op : IoOp) (result : Int)
    (data : Bytes) : EhloLast (w.deliver op result data) := by
  intro hout
  rw [deliver_state] at hout
  simpa [resets, Effect.resets] using h hout

theorem ehloLast_decrypted {w : World E} (h : EhloLast w) (tls : E.State) (n : Nat) :
    EhloLast (decrypted w tls n) := by
  intro hout
  rw [decrypted_state] at hout
  simpa [decrypted, resets, Effect.resets] using h hout

theorem Took.ehloLast {identity : Bytes} {w w' : World E} {event : Event E}
    (h : Took identity w event w') (hw : EhloLast w) : EhloLast w' := by
  cases h with
  | completes env op result data nowMs hlive hdelivers honIo =>
      have hdeliver := ehloLast_deliver hw op result data
      cases honIo with
      | direct _ hhandled => exact hhandled.ehloLast hdeliver
      | full _ _ _ hquits | broken _ _ _ _ _ hquits => exact hquits.ehloLast
      | undecided tls => exact ehloLast_reads (ehloLast_decrypted hdeliver tls _)
      | delivered tls _ _ _ _ hhandled => exact hhandled.ehloLast (ehloLast_decrypted hdeliver tls _)
  | inTime => exact hw
  | expires => exact .of_state rfl
  | others => exact hw

theorem ehloLast_of_reachable {identity : Bytes} {w : World E} (h : Reachable identity w) :
    EhloLast w := by
  refine h.invariant (fun w hstart => ?_) fun w event w' hw hstep =>
    (took_of_steps hstep).ehloLast hw
  obtain ⟨_, _, _, _, _, _, _, _, -, -, rfl⟩ := hstart.shape
  exact .of_state rfl

theorem sinceEhlo_of_reachable {identity : Bytes} {w : World E} (h : Reachable identity w)
    (hready : w.conn.state = .ready) : sinceEhlo w.trace = received w.trace := by
  have hlast := ehloLast_of_reachable h (by rw [hready]; rfl)
  rw [sinceEhlo, (hear_eq_reception w.trace).2 hlast, received]

/-- What the callback of a ready connection finds in the capabilities buffer. -/
def OwnCaps (w : World E) : Prop :=
  w.conn.state = .ready →
    ∃ reply, Cap.parseEhloResponse Cap.init (sinceEhlo w.trace) maxReplyLines
      = some (.ok reply, w.caps)

/-- A step on the borrowed buffer that makes a connection ready has filled it from its own reply. -/
theorem ownCaps_of_step {identity : Bytes} {w w' : World E} {event : Event E}
    (h : Reachable identity w) (hlive : w.conn.state.terminal = false)
    (hstep : (machine E identity).Steps w event w') : OwnCaps w' := by
  intro hready
  have hnot {state : ConnState} (hlive : state.terminal = false) (hstate : state = .ready) :
      False := by
    rw [hstate] at hlive
    exact absurd hlive (by decide)
  rw [sinceEhlo_of_reachable (h.step hstep) hready]
  cases took_of_steps hstep with
  | completes env op result data nowMs hlive hdelivers honIo =>
      exact (ready_of_completion h hlive hdelivers honIo hready).2.2
  | inTime => exact (hnot hlive hready).elim
  | expires => exact nomatch hready
  | others => exact (hnot hlive hready).elim

end Conn

namespace Loop

open Orchestrator

variable {C : World E → Event E → Prop} {orch : Orchestrator E} {totalTarget : UInt64}
  {l l' : Loop E}

/-- The call of `on_terminal` a turn makes: for the connection it has just stepped, whose buffer is
still the shared one. -/
structure Reports (l l' : Loop E) (r : Nat × ConnState × World E) : Prop where
  reports : reports l'.orch.history = reports l.orch.history ++ [r]
  caps : l'.orch.caps = r.2.2.caps
  stepped : ∃ slot event, slot ∈ l.orch.slots ∧ slot.inUse = true
    ∧ (Conn.machine E l.orch.config.ehloIdentity).Steps { slot.world with caps := l.orch.caps } event
      r.2.2

theorem reports_of_starts {orch' : Orchestrator E} {i : Nat} {slot : Slot E} {inFlight : Bool}
    (h : Starts orch i slot orch' inFlight) : reports orch'.history = reports orch.history := by
  cases h <;> simp [refuse, accept]

theorem reports_of_tends {orch' : Orchestrator E} {i : Nat} {slot : Slot E} {event : Event E}
    (h : Tends orch i slot event orch') : reports orch'.history = reports orch.history
      ∨ ∃ w, Conn.step orch.config.ehloIdentity { slot.world with caps := orch.caps } event = .ok w
        ∧ reports orch'.history = reports orch.history ++ [(slot.serial, w.conn.state, w)]
        ∧ orch'.caps = w.caps := by
  cases h with
  | goesOn => exact .inl rfl
  | finishes w hstep => exact .inr ⟨w, hstep, by simp [finished], rfl⟩

theorem Turned.reports (h : Turned C l l') (hkept : Kept C l) :
    reports l'.orch.history = reports l.orch.history ∨ ∃ r, Reports l l' r := by
  cases h with
  | stops | returns | moves | polled | nowhere => exact .inl rfl
  | leaves nowMs => exact .inl (by simp)
  | starts _ _ _ _ _ _ hstarts => exact .inl (reports_of_starts hstarts)
  | refused _ _ _ _ _ _ hstarts => exact .inl (by simpa using reports_of_starts hstarts)
  | handled env c rest nowMs slot hpc hslot hmeets htends =>
      rcases reports_of_tends htends with hsame | ⟨w, hstep, hreports, hcaps⟩
      · exact .inl hsame
      obtain ⟨hused, hadmissible⟩ := hkept.head hpc hslot env
      exact .inr ⟨_, hreports, hcaps, slot, .completion env c.op c.result c.data nowMs,
        List.mem_of_getElem? hslot, hused, hadmissible, hstep⟩
  | swept i nowMs slot hslot hinUse hmeets htends =>
      rcases reports_of_tends htends with hsame | ⟨w, hstep, hreports, hcaps⟩
      · exact .inl hsame
      · exact .inr ⟨_, hreports, hcaps, slot, .timeout nowMs, List.mem_of_getElem? hslot, hinUse,
          trivial, hstep⟩

theorem Reports.ownCaps {r : Nat × ConnState × World E} (h : Reports l l' r)
    (hkept : Kept C l) (hothers : ∀ w caps, C w (.others caps)) : Conn.OwnCaps r.2.2 := by
  obtain ⟨slot, event, hmem, hinUse, hstep⟩ := h.stepped
  obtain ⟨⟨hreach, -⟩, hlive⟩ := hkept.tended.inUse slot hmem hinUse
  have hlent : Conn.ReachableWhen C l.orch.config.ehloIdentity
      { slot.world with caps := l.orch.caps } :=
    hreach.step (hothers slot.world l.orch.caps) ⟨trivial, rfl⟩
  exact Conn.ownCaps_of_step hlent.reachable hlive hstep

theorem ReachableWhen.ownCaps (h : ReachableWhen C orch totalTarget l) (hcreated : orch.Created)
    (hothers : ∀ w caps, C w (.others caps)) :
    ∀ r ∈ SmtpClient.reports l.orch.history, Conn.OwnCaps r.2.2 := by
  refine (h.invariant (I := fun l => ∀ r ∈ SmtpClient.reports l.orch.history, Conn.OwnCaps r.2.2)
    hcreated hothers ?_ ?_).1
  · obtain ⟨_, _, _, _, _, _, _, _, _, hcreate⟩ := hcreated
    obtain ⟨tlsCtx, -, rfl⟩ := create_ok hcreate
    simp [begin, SmtpClient.reports]
  · intro l l' hkept hown hturned r hmem
    rcases hturned.reports hkept with hsame | ⟨r', hreports⟩
    · rw [hsame] at hmem
      exact hown r hmem
    · rw [hreports.reports, List.mem_append, List.mem_singleton] at hmem
      rcases hmem with hmem | rfl
      · exact hown r hmem
      · exact hreports.ownCaps hkept hothers

theorem Reachable.ready_report (h : Reachable orch totalTarget l) (hcreated : orch.Created)
    {r : Nat × ConnState × World E} (hmem : r ∈ SmtpClient.reports l.orch.history)
    (hready : r.2.1 = .ready) : Conn.Reachable orch.config.ehloIdentity r.2.2
      ∧ ∃ reply, Cap.parseEhloResponse Cap.init (sinceEhlo r.2.2.trace) maxReplyLines
        = some (.ok reply, r.2.2.caps) := by
  have hwhen : ReachableWhen (fun _ _ => True) orch totalTarget l :=
    h.reachableWhen fun _ _ => trivial
  obtain ⟨⟨hreach, -⟩, hstate, -⟩ := (h.kept hcreated).tended.reported r hmem
  rw [hwhen.config_eq hcreated fun _ _ => trivial] at hreach
  exact ⟨hreach.reachable,
    hwhen.ownCaps hcreated (fun _ _ => trivial) r hmem (hstate.trans hready)⟩

/-- **The shared capabilities do not mix.** A connection reported ready is one a run of its own can
reach, and the buffer holds what its reply since the last EHLO yields on an empty set; the buffer is
the shared one, as the call finds it. So it is a function of those bytes: two connections of any two
orchestrators that have received the same find the same there. -/
theorem shared_caps (hcreated : orch.Created) (h : Reachable orch totalTarget l) :
    (∀ r ∈ SmtpClient.reports l.orch.history, r.2.1 = .ready →
      Conn.Reachable orch.config.ehloIdentity r.2.2
        ∧ ∃ reply, Cap.parseEhloResponse Cap.init (sinceEhlo r.2.2.trace) maxReplyLines
          = some (.ok reply, r.2.2.caps))
    ∧ (∀ turn l' r, (machine E).Steps l turn l' →
      SmtpClient.reports l'.orch.history = SmtpClient.reports l.orch.history ++ [r] →
      l'.orch.caps = r.2.2.caps)
    ∧ ∀ (orch' : Orchestrator E) (totalTarget' : UInt64) (l' : Loop E), orch'.Created →
      Reachable orch' totalTarget' l' →
      ∀ r ∈ SmtpClient.reports l.orch.history, ∀ r' ∈ SmtpClient.reports l'.orch.history,
      r.2.1 = .ready → r'.2.1 = .ready → sinceEhlo r.2.2.trace = sinceEhlo r'.2.2.trace →
      r.2.2.caps = r'.2.2.caps := by
  refine ⟨fun r hmem hready => h.ready_report hcreated hmem hready, ?_, ?_⟩
  · intro turn l' r hsteps hreports
    have hkept := h.kept hcreated
    have hturned : Turned (fun _ _ => True) l l' :=
      turned_of_steps hkept.tended.context ⟨⟨hsteps.1, fun _ _ _ _ => trivial⟩, hsteps.2⟩
    rcases hturned.reports hkept with hsame | ⟨r', hnew⟩
    · rw [hsame, List.self_eq_append_right] at hreports
      exact absurd hreports (by simp)
    · have heq := List.append_cancel_left (hreports.symm.trans hnew.reports)
      rw [hnew.caps, (List.cons.inj heq).1]
  · intro orch' totalTarget' l' hcreated' h' r hmem r' hmem' hready hready' hsame
    obtain ⟨-, reply, hparse⟩ := h.ready_report hcreated hmem hready
    obtain ⟨-, reply', hparse'⟩ := h'.ready_report hcreated' hmem' hready'
    rw [hsame, hparse'] at hparse
    exact (Prod.mk.inj (Option.some.inj hparse)).2.symm

/-- An orchestrator of two slots. -/
def createTwo : Except Abort (Option (Orchestrator (recordEngine Conn.sampleInfo))) :=
  create ⟨true, true, some (), true⟩ 2 (.inet 192 0 2 1 25) (some (bytes "mx")) (bytes "me") .none
    false 1000 1

/-- An iteration of it whose poll reports these. -/
def roundTurns (completions : List Completion) : List SampleTurn :=
  [.iterate 0, .fill true ⟨true, true⟩, .fill true ⟨true, true⟩, .fill true ⟨true, true⟩,
      .polled completions 0]
    ++ completions.map (fun _ => .handle (Conn.accepts _))
    ++ [.handle (Conn.accepts _), .sweep, .sweep, .sweep]

/-- Two connections at once. The first is told of STARTTLS, but its reply comes in two pieces, with
that of the other between them. -/
def crossedTurns : List SampleTurn :=
  let ehlo := bytes "EHLO me\r\n"
  let first := bytes "250-mx\r\n250-STARTTLS\r\n"
  roundTurns [⟨0, ⟨.connect, .null, 0⟩, 0, []⟩, ⟨1, ⟨.connect, .null, 0⟩, 0, []⟩]
    ++ roundTurns [⟨1, ⟨.read, .readBuf 0, readBufSize⟩, 0, bytes "220 mx\r\n"⟩,
      ⟨0, ⟨.read, .readBuf 0, readBufSize⟩, 0, bytes "220 mx\r\n"⟩]
    ++ roundTurns [⟨0, ⟨.write, .writeBuf, ehlo.length⟩, 0, ehlo⟩,
      ⟨1, ⟨.write, .writeBuf, ehlo.length⟩, 0, ehlo⟩]
    ++ roundTurns [⟨0, ⟨.read, .readBuf 0, readBufSize⟩, 0, first⟩]
    ++ roundTurns [⟨1, ⟨.read, .readBuf 0, readBufSize⟩, 0, bytes "250-mx\r\n250 PIPELINING\r\n"⟩,
      ⟨0, ⟨.read, .readBuf first.length, readBufSize - first.length⟩, 0, bytes "250 SIZE 9\r\n"⟩]

def playTwo (turns : List SampleTurn) : Option SampleLoop :=
  match createTwo with
  | .ok (some orch) => (machine _).exec (begin orch 2) turns
  | _ => none

/-- Each is reported with what it was told itself. -/
theorem shared_caps_crossed :
    ∃ l, playTwo crossedTurns = some l
      ∧ (SmtpClient.reports l.orch.history).map (fun r => (r.1, r.2.1, r.2.2.caps.hasStarttls))
        = [(1, .ready, false), (0, .ready, true)]
      ∧ ∀ r ∈ SmtpClient.reports l.orch.history, r.2.1 = .ready →
        ∃ reply, Cap.parseEhloResponse Cap.init (sinceEhlo r.2.2.trace) maxReplyLines
          = some (.ok reply, r.2.2.caps) := by
  have hplay : (playTwo crossedTurns).map (fun l =>
      (SmtpClient.reports l.orch.history).map fun r => (r.1, r.2.1, r.2.2.caps.hasStarttls))
      = some [(1, .ready, false), (0, .ready, true)] := by
    decide +kernel
  obtain ⟨l, hl, heq⟩ := Option.map_eq_some_iff.mp hplay
  refine ⟨l, hl, heq, fun r hmem hready => ?_⟩
  unfold playTwo at hl
  split at hl
  · rename_i orch hcreate
    exact ((shared_caps ⟨_, _, _, _, _, _, _, _, _, hcreate⟩
      ⟨_, Machine.run_of_exec hl⟩).1 r hmem hready).2
  · cases hl

end Loop

end SmtpClient
