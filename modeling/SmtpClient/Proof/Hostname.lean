import SmtpClient.Proof.Slots
import SmtpClient.RecordEngine

/-!
# The name a certificate is checked against

The name handed to the TLS engine is the actor of the connection, and the actor of a connection is
the label the orchestrator has made for its log: address and port, and behind them the host with the
port again, cut to the room there is. It is longer than any host that fits a domain name, and so
never the host.
-/

namespace SmtpClient

variable {E : TlsEngine}

namespace Conn

open World

def Effect.hostname : Effect → Option Bytes
  | .tlsCreate hostname _ _ => some hostname
  | _ => none

/-- The names engines have been created with. -/
def hostnames (trace : List Effect) : List Bytes := trace.filterMap Effect.hostname

@[simp] theorem hostnames_append (trace trace' : List Effect) :
    hostnames (trace ++ trace') = hostnames trace ++ hostnames trace' := by simp [hostnames]

@[simp] theorem hostnames_nil : hostnames [] = [] := rfl

@[simp] theorem hostnames_cons (effect : Effect) (trace : List Effect) :
    hostnames (effect :: trace) = (Effect.hostname effect).toList ++ hostnames trace := by
  cases h : Effect.hostname effect <;> simp [hostnames, h]

section Exits

variable {env : Env E} {identity plaintext input : Bytes} {nowMs : Nat} {w w' : World E}
  {tls : E.State} {result : IoResult}

/-- A call creates no engine, or one under the actor's name. -/
def Names (w w' : World E) : Prop :=
  hostnames w'.trace = hostnames w.trace ∨ hostnames w'.trace = hostnames w.trace ++ [w.conn.actor]

theorem Quits.hostnames_eq (h : Quits w w') : hostnames w'.trace = hostnames w.trace :=
  h.filterMap_eq fun _ _ => rfl

@[simp] theorem hostnames_reads : hostnames (reads env w).trace = hostnames w.trace := by
  simp [reads, Effect.hostname]

theorem SubmitsCommand.hostnames_eq (h : SubmitsCommand env w plaintext w') :
    hostnames w'.trace = hostnames w.trace := by
  cases h <;> simp [encrypting, Effect.hostname]

theorem SendsEhlo.hostnames_eq (h : SendsEhlo env identity nowMs w w') :
    hostnames w'.trace = hostnames w.trace := by
  cases h with
  | tooLong _ hquits => exact hquits.hostnames_eq
  | submits _ _ hsubmits => simp [hsubmits.hostnames_eq, ehloBuilt, Effect.hostname]

theorem Drives.hostnames_eq (h : Drives env w tls input w') :
    hostnames w'.trace = hostnames w.trace := by
  cases h with
  | wantWrite | wantRead => simp [driveHandshake, Effect.hostname]
  | refused _ hquits => simp [hquits.hostnames_eq, driveHandshake, Effect.hostname]

theorem Begins.hostnames_eq (h : Begins env nowMs w w') :
    hostnames w'.trace = hostnames w.trace ++ [w.conn.actor] := by
  cases h with
  | createFailed _ _ _ hquits => simp [hquits.hostnames_eq, Effect.hostname]
  | drives _ _ _ _ _ hdrives => simp [hdrives.hostnames_eq, handshaking, Effect.hostname]

theorem Handled.names (h : Handled env identity nowMs w result w') : Names w w' := by
  cases h with
  | refuses _ hquits => exact .inl hquits.hostnames_eq
  | proceeds _ hproceeds =>
      cases hproceeds with
      | connected | waits | ehloSent | starttlsSent =>
          exact .inl (by simp [grown, Effect.hostname])
      | connectedImplicit _ _ hbegins => exact .inr (by simp [hbegins.hostnames_eq, Effect.hostname])
      | starttlsAccepted _ _ _ _ _ hbegins => exact .inr hbegins.hostnames_eq
      | greeted _ _ _ _ _ _ hsends =>
          exact .inl (by simp [hsends.hostnames_eq, greetedBy, grown, Effect.hostname])
      | ready => exact .inl (by simp [readied, capabilitiesOf, grown, Effect.hostname])
      | starttlsWanted _ _ _ _ _ _ _ _ hsubmits =>
          exact .inl (by
            simp [hsubmits.hostnames_eq, starttlsBuilt, capabilitiesOf, grown, Effect.hostname])
      | drives _ _ _ _ _ hdrives => exact .inl hdrives.hostnames_eq
      | securedFirst => exact .inl (by simp [secured, driveHandshake, Effect.hostname])
      | securedAgain _ _ _ _ _ _ _ hsends =>
          exact .inl (by simp [hsends.hostnames_eq, secured, driveHandshake, Effect.hostname])

theorem OnIo.names (h : OnIo env identity nowMs w result w') : Names w w' := by
  have hdecrypted (tls : E.State) :
      hostnames (decrypted w tls result.bytesTransferred).trace = hostnames w.trace := by
    simp [decrypted, Effect.hostname]
  cases h with
  | direct _ hhandled => exact hhandled.names
  | full _ _ _ hquits => exact .inl hquits.hostnames_eq
  | undecided tls => exact .inl (by rw [hostnames_reads, hdecrypted])
  | broken tls _ _ _ _ hquits => exact .inl (by rw [hquits.hostnames_eq, hdecrypted])
  | delivered tls _ _ _ _ hhandled =>
      have hactor : (decrypted w tls result.bytesTransferred).conn.actor = w.conn.actor := rfl
      simpa [Names, hdecrypted, hactor] using hhandled.names

end Exits

theorem Took.names {identity : Bytes} {w w' : World E} {event : Event E}
    (h : Took identity w event w') : Names w w' := by
  cases h with
  | completes env op result data nowMs _ _ honIo =>
      have hactor : (w.deliver op result data).conn.actor = w.conn.actor :=
        congrArg Settings.actor (deliver_settings w op result data)
      simpa [Names, hactor, Effect.hostname] using honIo.names
  | inTime => exact .inl rfl
  | expires => exact .inl (by simp [expired, Effect.hostname])
  | others => exact .inl rfl

theorem Reachable.hostname_eq {identity hostname : Bytes} {w : World E} (h : Reachable identity w)
    (hmem : hostname ∈ hostnames w.trace) : hostname = w.conn.actor := by
  have hnamed := h.invariant (I := fun w => ∀ hostname ∈ hostnames w.trace,
    hostname = w.conn.actor) (fun w hstart => ?_) fun w event w' hnamed hstep => ?_
  · exact hnamed hostname hmem
  · obtain ⟨_, _, _, _, _, _, _, _, -, -, rfl⟩ := hstart.shape
    simp [Effect.hostname]
  · have htook := took_of_steps hstep
    have hactor : w'.conn.actor = w.conn.actor := congrArg Settings.actor htook.settings_eq
    rw [hactor]
    intro hostname hmem
    rcases htook.names with heq | heq <;> rw [heq] at hmem
    · exact hnamed hostname hmem
    · rcases List.mem_append.mp hmem with hmem | hmem
      · exact hnamed hostname hmem
      · exact List.mem_singleton.mp hmem

end Conn

/-! ### The label -/

theorem clip_clip {size size' : Nat} (text : Bytes) (h : size ≤ size') :
    clip size (clip size' text) = clip size text := by
  rw [clip, clip, clip, List.take_take, Nat.min_eq_left (by omega)]

theorem clip_formatActor (addr : SockAddr) (host : Bytes) :
    clip maxActorSize (formatActor addr (some host) actorSize)
      = formatActor addr (some host) maxActorSize := by
  have hle : maxActorSize ≤ actorSize := by decide
  simp only [formatActor]
  split <;> exact clip_clip _ hle

theorem length_lt_formatActor (addr : SockAddr) {host : Bytes} (hlength : host.length < 256) :
    host.length < (formatActor addr (some host) maxActorSize).length := by
  have hsize : maxActorSize - 1 = 319 := rfl
  have hsep : (bytes " - ").length = 3 := rfl
  simp only [formatActor]
  split
  · simp only [length_clip, List.length_append, hsize, hsep]
    omega
  · rename_i hsame
    have hle : host.length ≤ addr.numeric.1.length := by
      by_cases hnil : host = []
      · simp [hnil]
      · have heq : host = addr.numeric.1 := by
          by_contra hne
          exact hsame ⟨hnil, hne⟩
        exact Nat.le_of_eq (congrArg List.length heq)
    simp only [length_clip, List.length_append, hsize, hsep]
    omega

namespace Loop

open Orchestrator Conn

/-- **The host is never the name.** Whatever the address, the mode and the host, no connection of an
orchestrator begins a handshake under the host it was created for: the name is the label of the
log. -/
theorem hostname_never_target {alloc : Allocations E} {maxConnections connectTimeoutMs : Nat}
    {targetAddr : SockAddr} {targetHost ehloIdentity hostname : Bytes} {tlsMode : TlsMode}
    {trust : Bool} {threadId : UInt32} {orch : Orchestrator E} {totalTarget : UInt64} {l : Loop E}
    {w : World E}
    (hcreate : create alloc maxConnections targetAddr (some targetHost) ehloIdentity tlsMode trust
      connectTimeoutMs threadId = .ok (some orch))
    (hlength : targetHost.length < 256) (h : Reachable orch totalTarget l)
    (hw : w ∈ l.orch.connections) (hname : hostname ∈ hostnames w.trace) :
    hostname = formatActor targetAddr (some targetHost) maxActorSize ∧ hostname ≠ targetHost := by
  have hwhen := h.reachableWhen (C := fun _ _ => True) fun _ _ => trivial
  obtain ⟨hreach, hsettings⟩ :=
    hwhen.held ⟨_, _, _, _, _, _, _, _, _, hcreate⟩ (fun _ _ => trivial) hw
  have hactor : w.conn.actor = clip maxActorSize orch.config.actor :=
    congrArg Settings.actor hsettings
  obtain ⟨tlsCtx, -, horch⟩ := create_ok hcreate
  have hlabel : hostname = formatActor targetAddr (some targetHost) maxActorSize := by
    rw [hreach.reachable.hostname_eq hname, hactor, horch, ← clip_formatActor]
  refine ⟨hlabel, ?_⟩
  intro heq
  have hlonger := length_lt_formatActor targetAddr hlength
  rw [← hlabel, heq] at hlonger
  exact absurd hlonger (Nat.lt_irrefl _)

theorem implicit_handshake : ∃ orch l w, createSample .implicit = .ok (some orch)
    ∧ Reachable orch 1 l ∧ w ∈ l.orch.connections
    ∧ hostnames w.trace = [bytes "192.0.2.1:25 - mx:25"] := by
  have hplay : (playLoop (machine _) .implicit
      (fillTurns ++ pollTurns ⟨.connect, .null, 0⟩ [])).map
      (fun l => l.orch.connections.map fun w => hostnames w.trace)
      = some [[bytes "192.0.2.1:25 - mx:25"]] := by decide +kernel
  obtain ⟨l, hl, heq⟩ := Option.map_eq_some_iff.mp hplay
  obtain ⟨orch, hcreate, run⟩ := run_of_playLoop hl
  obtain ⟨w, hw, hnames⟩ := List.mem_map.mp
    (show [bytes "192.0.2.1:25 - mx:25"] ∈ l.orch.connections.map fun w => hostnames w.trace by
      simp [heq])
  exact ⟨orch, l, w, hcreate, ⟨_, run⟩, hw, hnames⟩

/-- The name that connection gives is not the host. -/
theorem hostname_never_target_implicit : ∃ orch l w hostname,
    createSample .implicit = .ok (some orch) ∧ Reachable orch 1 l ∧ w ∈ l.orch.connections
      ∧ hostname ∈ hostnames w.trace ∧ hostname ≠ bytes "mx" := by
  obtain ⟨orch, l, w, hcreate, hreach, hw, hnames⟩ := implicit_handshake
  have hname : bytes "192.0.2.1:25 - mx:25" ∈ hostnames w.trace := by simp [hnames]
  exact ⟨orch, l, w, _, hcreate, hreach, hw, hname,
    (hostname_never_target hcreate (by decide) hreach hw hname).2⟩

/-- An orchestrator created for the host `mx` has the certificate checked against its log label. -/
theorem wrong_hostname : ¬ ∀ (orch : Orchestrator (recordEngine sampleInfo)) (l : SampleLoop)
    (w : World (recordEngine sampleInfo)), createSample .implicit = .ok (some orch) →
      Reachable orch 1 l → w ∈ l.orch.connections →
        ∀ hostname ∈ hostnames w.trace, hostname = bytes "mx" := by
  intro hclaim
  obtain ⟨orch, l, w, hcreate, hreach, hw, hnames⟩ := implicit_handshake
  have heq := hclaim orch l w hcreate hreach hw (bytes "192.0.2.1:25 - mx:25") (by simp [hnames])
  exact absurd heq (by decide)

end Loop

end SmtpClient
