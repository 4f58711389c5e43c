import SmtpClient.Proof.LogText
import SmtpClient.Proof.ProtocolOrder
import SmtpClient.Proof.Accounting

/-!
# What the reply to an EHLO decides

The handler of the EHLO reply parses the lines and looks at what they offer, not at the code in
front of them. A refusal therefore ends a connection only where the lack of an offer does, or where
the next submission fails; everywhere else the session goes on as if it had been accepted.
-/

namespace SmtpClient

variable {E : TlsEngine}

namespace Conn

open World Protocol

/-- A complete reply with a code that is not 2xx. -/
def refusal (text : Bytes) : Bool :=
  match Reply.read text maxReplyLines with
  | .ok reply => !Reply.positive reply.code
  | _ => false

/-- A complete reply with a code that is. -/
def accepts2xx (text : Bytes) : Bool :=
  match Reply.read text maxReplyLines with
  | .ok reply => Reply.positive reply.code
  | _ => false

/-- Whether a text is a complete EHLO reply that offers STARTTLS. -/
def offersStarttls (text : Bytes) : Bool :=
  match Cap.parseEhloResponse Cap.init text maxReplyLines with
  | some (.ok _, caps) => caps.hasStarttls
  | _ => false

/-- An EHLO reply ends the connection whatever its code: in the clear, STARTTLS is required and not
offered, or it is wanted and its submission fails. -/
def EndsAnyway (w : World E) (env : Env E) (text : Bytes) : Prop :=
  w.conn.tls.isNone = true
    ∧ (w.conn.tlsMode = .explicit ∧ (offersStarttls text = false ∨ env.submitRc ≠ 0)
      ∨ w.conn.tlsMode = .opportunistic ∧ offersStarttls text = true ∧ env.submitRc ≠ 0)

/-- A refused EHLO meets one of the other reasons to end. -/
def RefusalsEnd (w : World E) : Event E → Prop
  | .completion env _ result data _ => w.conn.state = .waitEhlo →
      ∀ text ∈ shown w result data, refusal text = true → EndsAnyway w env text
  | _ => True

instance (w : World E) (env : Env E) (text : Bytes) : Decidable (EndsAnyway w env text) :=
  inferInstanceAs (Decidable (_ ∧ (_ ∧ (_ ∨ ¬ _) ∨ _ ∧ _ ∧ ¬ _)))

instance (w : World E) : (event : Event E) → Decidable (RefusalsEnd w event)
  | .completion env _ result data _ =>
      inferInstanceAs (Decidable (w.conn.state = .waitEhlo →
        ∀ text ∈ shown w result data, refusal text = true → EndsAnyway w env text))
  | .timeout _ => inferInstanceAs (Decidable True)
  | .others _ => inferInstanceAs (Decidable True)

theorem refusal_iff {text : Bytes} : refusal text = true
    ↔ ∃ reply, Reply.read text maxReplyLines = .ok reply ∧ Reply.positive reply.code = false := by
  unfold refusal
  split
  · rename_i reply hread
    simp [hread]
  · rename_i hnot
    simp only [Bool.false_eq_true, false_iff, not_exists, not_and]
    exact fun reply hread => absurd hread (hnot reply)

theorem offersStarttls_of_parse {caps parsed : Capabilities} {text : Bytes} {reply : Reply}
    (h : Cap.parseEhloResponse caps text maxReplyLines = some (.ok reply, parsed)) :
    offersStarttls text = parsed.hasStarttls := by
  unfold offersStarttls
  rw [Cap.parseEhloResponse_congr Cap.init h]

section Exits

variable {env : Env E} {identity : Bytes} {nowMs : Nat} {w w' : World E} {result : IoResult}

theorem Handled.refused_iff (h : Handled env identity nowMs w result w')
    (hstate : w.conn.state = .waitEhlo) (hresult : result.result = 0)
    (hbytes : result.bytesTransferred ≠ 0)
    (hrefuses : refusal (offered w result.bytesTransferred) = true) :
    w'.conn.state = .error ↔ EndsAnyway w env (offered w result.bytesTransferred) := by
  obtain ⟨reply, hread, hnegative⟩ := refusal_iff.mp hrefuses
  have hother {state : ConnState} (h : w.conn.state = state) (hne : state ≠ .waitEhlo) : False :=
    hne (h.symm.trans hstate)
  unfold EndsAnyway
  cases h with
  | refuses hwhy hquits =>
      refine iff_of_true hquits.state ?_
      cases hwhy with
      | failed hfailed => exact absurd hresult hfailed
      | closed _ hclosed => exact absurd hclosed hbytes
      | short hsends =>
          rw [hstate] at hsends
          exact absurd hsends (by decide)
      | unfinished _ _ hincomplete => exact absurd (hread.symm.trans hincomplete) (by simp)
      | malformed _ _ _ hok => exact absurd hread (hok reply)
      | negative _ _ _ _ hwhere =>
          rcases hwhere with ⟨hbanner, -⟩ | hwhere
          · exact (hother hbanner (by decide)).elim
          · exact (hother hwhere (by decide)).elim
      | unoffered _ _ reply caps hparse htls hmode hoffered =>
          refine ⟨by simp [htls], .inl ⟨hmode, .inl ?_⟩⟩
          rw [offersStarttls_of_parse hparse, hoffered]
  | proceeds _ hproceeds =>
      cases hproceeds with
      | waits _ _ hincomplete => exact absurd (hread.symm.trans hincomplete) (by simp)
      | ready _ _ _ caps hparse hmode =>
          refine iff_of_false (by simp [readied]) ?_
          rw [offersStarttls_of_parse hparse]
          rintro ⟨hnone, hends⟩
          rcases hmode with hsome | ⟨-, hmode | ⟨hmode, hoffered⟩⟩
          · simp_all
          · simp [hmode] at hends
          · simp [hmode, hoffered] at hends
      | starttlsWanted _ _ _ caps hparse htls hmode hoffered hsubmits =>
          rw [offersStarttls_of_parse hparse]
          cases hsubmits with
          | plain _ len hlen =>
              have hmodes : w.conn.tlsMode = .explicit ∨ w.conn.tlsMode = .opportunistic :=
                hmode.symm
              by_cases hrc : env.submitRc = 0
              · simp [hrc, starttlsBuilt, hoffered]
              · rcases hmodes with hmode | hmode <;> simp [hrc, htls, hmode, hoffered]
          | encrypted tls hsome | encryptFailed tls hsome =>
              exact absurd hsome (by simp [starttlsBuilt, capabilitiesOf, grown, htls])
      | connected h | connectedImplicit h | ehloSent h | starttlsSent h | starttlsAccepted h
      | drives h | securedFirst h | securedAgain h | greeted h => exact (hother h (by decide)).elim

end Exits

section Completion

variable {identity : Bytes} {w : World E} {env : Env E} {op : IoOp} {result : Int} {data : Bytes}
  {nowMs : Nat} {w' : World E} (h : Reachable identity w)
  (hlive : w.conn.state.terminal = false) (hdelivers : Delivers w op result data)
include h hlive hdelivers

theorem handled_of_shown {text : Bytes} (hshown : shown w result data = some text)
    (honIo : OnIo env identity nowMs (w.deliver op result data) ⟨op.kind, result, data.length⟩ w') :
    ∃ u n, Handled env identity nowMs u ⟨op.kind, 0, n⟩ w' ∧ n ≠ 0 ∧ offered u n = text
      ∧ u.conn.state = w.conn.state ∧ u.conn.tls.isNone = w.conn.tls.isNone
      ∧ u.conn.tlsMode = w.conn.tlsMode := by
  obtain ⟨hawaits, rfl, -, -⟩ := awaitsReply_of_shown hshown
  cases honIo with
  | direct hraw hhandled =>
      rw [shown_raw h hlive hdelivers (by simpa using hraw)] at hshown
      split at hshown
      · rename_i hif
        exact ⟨_, _, hhandled, hif.2.2, Option.some.inj hshown, by simp, by simp, by simp⟩
      · exact absurd hshown (by simp)
  | full tls hdecrypts hroom =>
      have hspace := (hears_of_reachable h).room hawaits
      rw [deliver_readLen] at hroom
      omega
  | undecided tls hdecrypts _ _ hstatus | broken tls hdecrypts _ _ hstatus =>
      rw [decryption_deliver h hlive hdelivers hdecrypts] at hstatus
      rw [shown_decrypted h hlive hdelivers hdecrypts, hstatus] at hshown
      exact absurd hshown (by simp)
  | delivered tls hdecrypts _ _ hstatus hhandled =>
      have htls : w.conn.tls = some tls := by simpa using hdecrypts.tls
      rw [shown_decrypted h hlive hdelivers hdecrypts] at hshown
      split at hshown
      · rename_i hif
        rw [decryptedResult, decryption_deliver h hlive hdelivers hdecrypts] at hhandled
        exact ⟨_, _, hhandled, hif.2, Option.some.inj hshown, by simp, by simp [htls, decrypted],
          by simp⟩
      · exact absurd hshown (by simp)

theorem ehlo_reply_ok (env : Env E) (nowMs : Nat) {text : Bytes} (hstate : w.conn.state = .waitEhlo)
    (hshown : shown w result data = some text) :
    ∃ w', step identity w (.completion env op result data nowMs) = .ok w' := by
  cases hstep : step identity w (.completion env op result data nowMs) with
  | ok w' => exact ⟨w', rfl⟩
  | error e =>
      have hnot (u : World E) (plain : IoResult) (hsame : u.conn.state = .waitEhlo) :
          ¬ Aborts identity u plain .logDetail := by
        intro haborts
        cases haborts with
        | summary reply caps hparse hdirty =>
            have hclean := Cap.clean_formatSummary (Cap.printable_of_parse hparse) 256
            exact absurd hdirty (by simp [clean_iff.mpr hclean])
        | greeting hother | identity hother | identityAgain hother | certificate hother =>
            exact nomatch hsame.symm.trans hother
      cases h.completion_aborts hlive hdelivers hstep with
      | raw haborts => exact absurd haborts (hnot _ _ (by simpa using hstate))
      | decrypted tls _ _ haborts => exact absurd haborts (hnot _ _ (by simpa using hstate))
      | status tls hdecrypts hstatus =>
          rw [decryption_deliver h hlive hdelivers hdecrypts] at hstatus
          rw [shown_decrypted h hlive hdelivers hdecrypts, hstatus] at hshown
          exact absurd hshown (by simp)

theorem refused_iff (env : Env E) (nowMs : Nat) {text : Bytes} (hstate : w.conn.state = .waitEhlo)
    (hshown : shown w result data = some text) (hrefuses : refusal text = true) :
    ∃ w', step identity w (.completion env op result data nowMs) = .ok w'
      ∧ (w'.conn.state = .error ↔ EndsAnyway w env text) := by
  obtain ⟨w', hstep⟩ := ehlo_reply_ok h hlive hdelivers env nowMs hstate hshown
  obtain ⟨u, n, hhandled, hbytes, rfl, hsame, htls, hmode⟩ :=
    handled_of_shown h hlive hdelivers hshown (onIo_ok hstep)
  refine ⟨w', hstep, ?_⟩
  rw [hhandled.refused_iff (hsame.trans hstate) rfl hbytes hrefuses]
  simp only [EndsAnyway, htls, hmode]

/-- A completion that makes a connection ready shows it a complete reply, whose lines are the
capabilities. -/
theorem ready_of_completion
    (honIo : OnIo env identity nowMs (w.deliver op result data) ⟨op.kind, result, data.length⟩ w')
    (hready : w'.conn.state = .ready) :
    w.conn.state = .waitEhlo ∧ shown w result data = some (received w'.trace)
      ∧ ∃ reply, Cap.parseEhloResponse Cap.init (received w'.trace) maxReplyLines
        = some (.ok reply, w'.caps) := by
  have hflight := flight_of_reachable h
  have hears := hears_of_reachable h
  have hover {u : World E} (hquits : Quits u w') : False :=
    nomatch hquits.state.symm.trans hready
  cases honIo with
  | direct hraw hhandled =>
      have hraw' : w.conn.state = .tlsHandshaking ∨ w.conn.tls = none
          ∨ ¬ (op.kind = .read ∧ result = 0) := by simpa using hraw
      have hoffers := offers_direct hears hflight hlive hdelivers (sound_of_reachable h) hraw'
      obtain ⟨hstate, hresult, hbytes, reply, caps, hparse, -, rfl⟩ := hhandled.of_ready hready
      have htext := hoffers.reply (by rw [hstate]; rfl)
      rw [deliver_state] at hstate
      rw [received_readied, htext]
      refine ⟨hstate, ?_, reply, Cap.parseEhloResponse_congr Cap.init hparse⟩
      rw [shown_raw h hlive hdelivers hraw', if_pos ⟨by rw [hstate]; rfl, hresult, hbytes⟩]
  | full _ _ _ hquits | broken _ _ _ _ _ hquits => exact (hover hquits).elim
  | undecided tls hdecrypts =>
      obtain ⟨hawaits, -⟩ := deliver_of_decrypts hears hflight hlive hdelivers hdecrypts
      obtain ⟨hstate, -⟩ := flags_of_phase phase_reads
        (ne_of_eq_of_ne hready (by decide : ConnState.ready ≠ .error))
      have hsame : w.conn.state = .ready := by simpa using hstate.symm.trans hready
      rw [hsame] at hawaits
      exact absurd hawaits (by decide)
  | delivered tls hdecrypts _ _ hstatus hhandled =>
      have hoffers := offers_decrypted hears hflight hlive hdelivers hdecrypts hstatus
      obtain ⟨hstate, -, hbytes, reply, caps, hparse, -, rfl⟩ := hhandled.of_ready hready
      have htext := hoffers.reply (by rw [hstate]; rfl)
      rw [decrypted_state, deliver_state] at hstate
      rw [received_readied, htext]
      have hanswer := decryption_deliver h hlive hdelivers hdecrypts
      refine ⟨hstate, ?_, reply, Cap.parseEhloResponse_congr Cap.init hparse⟩
      simp only [decryptedResult, hanswer] at hbytes hstatus ⊢
      rw [shown_decrypted h hlive hdelivers hdecrypts, if_pos ⟨hstatus, hbytes⟩]

end Completion

theorem accepts2xx_of_parse {caps parsed : Capabilities} {text : Bytes} {reply : Reply}
    (hparse : Cap.parseEhloResponse caps text maxReplyLines = some (.ok reply, parsed))
    (hnot : refusal text = false) : accepts2xx text = true := by
  unfold refusal at hnot
  unfold accepts2xx
  rw [Cap.read_of_parseEhloResponse hparse] at hnot ⊢
  simpa using hnot

theorem accepted_of_ready {identity : Bytes} {w : World E}
    (h : ReachableWhen RefusalsEnd identity w) (hready : w.conn.state = .ready) :
    accepts2xx (received w.trace) = true := by
  refine h.invariant (I := fun w => w.conn.state = .ready → accepts2xx (received w.trace) = true)
    (fun w hstart => ?_) (fun w event w' hreach haccepted hmeets hstep => ?_) hready
  · obtain ⟨_, _, _, _, _, _, _, _, -, -, rfl⟩ := hstart.shape
    exact fun hready => nomatch hready
  · cases took_of_steps hstep with
    | completes env op result data nowMs hlive hdelivers honIo =>
        intro hready
        obtain ⟨hstate, hshown, reply, hparse⟩ :=
          ready_of_completion hreach hlive hdelivers honIo hready
        refine accepts2xx_of_parse hparse (Bool.eq_false_iff.mpr fun hrefusal => ?_)
        obtain ⟨w'', hstep', hiff⟩ := refused_iff hreach hlive hdelivers env nowMs hstate
          hshown hrefusal
        cases Except.ok.inj (hstep.2.symm.trans hstep')
        have herror := hiff.mpr (hmeets hstate _ hshown hrefusal)
        exact nomatch hready.symm.trans herror
    | inTime => exact haccepted
    | expires => exact fun hready => nomatch hready
    | others => exact haccepted

theorem succeeded_eq {orch : Orchestrator E} {totalTarget : UInt64} {l : Loop E}
    (hcreated : orch.Created) (h : Loop.ReachableWhen RefusalsEnd orch totalTarget l) :
    l.orch.stats.totalSucceeded = .ofNat ((reports l.orch.history).countP fun r =>
      r.2.1 = .ready ∧ accepts2xx (received r.2.2.trace) = true) := by
  obtain ⟨hledger, hkept⟩ := h.ledger hcreated fun _ _ => trivial
  rw [hledger.counted.succeeded]
  congr 1
  apply List.countP_congr
  intro r hmem
  obtain ⟨⟨hreach, -⟩, hstate, -⟩ := hkept.tended.reported r hmem
  simp only [decide_eq_true_eq, iff_self_and]
  exact fun hready => accepted_of_ready hreach (hstate.trans hready)

/-- **What READY means.** In runs in which a refused EHLO meets another reason to end, a ready
connection has been accepted, and only such connections count as successes. A refused EHLO ends the
connection exactly if there is such a reason. -/
theorem ready_means_accepted {identity : Bytes} {w : World E} {orch : Orchestrator E}
    {totalTarget : UInt64} {l : Loop E} (h : ReachableWhen RefusalsEnd identity w)
    (hcreated : orch.Created) (hl : Loop.ReachableWhen RefusalsEnd orch totalTarget l) :
    (w.conn.state = .ready → accepts2xx (received w.trace) = true)
      ∧ (∀ env op result data nowMs text, Delivers w op result data → w.conn.state = .waitEhlo →
        shown w result data = some text → refusal text = true →
          ∃ w', step identity w (.completion env op result data nowMs) = .ok w'
            ∧ (w'.conn.state = .error ↔ EndsAnyway w env text))
      ∧ l.orch.stats.totalSucceeded = .ofNat ((reports l.orch.history).countP fun r =>
        r.2.1 = .ready ∧ accepts2xx (received r.2.2.trace) = true) := by
  refine ⟨accepted_of_ready h, ?_, succeeded_eq hcreated hl⟩
  intro env op result data nowMs text hdelivers hstate hshown hrefusal
  exact refused_iff h.reachable (by rw [hstate]; rfl) hdelivers env nowMs hstate hshown hrefusal

/-- An accepted session in the clear, alone and in an orchestrator. -/
theorem ready_means_accepted_plain :
    ∃ w l, playSampleWhen sampleInfo RefusalsEnd .none plainScript = some w
      ∧ w.conn.state = .ready ∧ accepts2xx (received w.trace) = true
      ∧ Loop.playLoop ((Loop.machine _).restrict (Loop.Meets RefusalsEnd)) .none
          (Loop.plainTurns (bytes "250 mx\r\n")) = some l
      ∧ l.orch.stats.totalSucceeded = .ofNat ((reports l.orch.history).countP fun r =>
        r.2.1 = .ready ∧ accepts2xx (received r.2.2.trace) = true) := by
  have hplay : (playSampleWhen sampleInfo RefusalsEnd .none plainScript).map
      (fun w => w.conn.state) = some .ready := by decide +kernel
  have hloop : (Loop.playLoop ((Loop.machine _).restrict (Loop.Meets RefusalsEnd)) .none
      (Loop.plainTurns (bytes "250 mx\r\n"))).isSome = true := by decide +kernel
  obtain ⟨w, hw, hready⟩ := Option.map_eq_some_iff.mp hplay
  obtain ⟨l, hl⟩ := Option.isSome_iff_exists.mp hloop
  obtain ⟨orch, hcreate, run⟩ := Loop.run_of_playLoop hl
  obtain ⟨haccepted, -, hsucceeded⟩ := ready_means_accepted
    (reachableWhen_of_playSampleWhen hw) ⟨_, _, _, _, _, _, _, _, _, hcreate⟩ ⟨_, run⟩
  exact ⟨w, l, hw, hready, haccepted hready, hl, hsucceeded⟩

/-- A refused EHLO makes a connection ready, and counts as a success. -/
theorem refused_ehlo_ready :
    ∃ w l, playSample sampleInfo .none [.connected, .received (bytes "220 mx\r\n"), .sentAll,
        .received (bytes "550 no\r\n")] = some w
      ∧ Reachable (bytes "me") w ∧ w.conn.state = .ready
      ∧ received w.trace = bytes "550 no\r\n" ∧ refusal (bytes "550 no\r\n") = true
      ∧ Loop.playLoop (Loop.machine _) .none (Loop.plainTurns (bytes "550 no\r\n")) = some l
      ∧ l.orch.stats.totalSucceeded = 1 := by
  have hplay : (playSample sampleInfo .none [.connected, .received (bytes "220 mx\r\n"), .sentAll,
      .received (bytes "550 no\r\n")]).map (fun w => (w.conn.state, received w.trace))
      = some (.ready, bytes "550 no\r\n") := by decide +kernel
  have hloop : (Loop.playLoop (Loop.machine _) .none (Loop.plainTurns (bytes "550 no\r\n"))).map
      (fun l => l.orch.stats.totalSucceeded) = some 1 := by decide +kernel
  obtain ⟨w, hw, heq⟩ := Option.map_eq_some_iff.mp hplay
  obtain ⟨hready, htext⟩ := Prod.mk.inj heq
  obtain ⟨l, hl, hsucceeded⟩ := Option.map_eq_some_iff.mp hloop
  exact ⟨w, l, hw, reachable_of_playSample hw, hready, htext, by decide, hl, hsucceeded⟩

end Conn

end SmtpClient
