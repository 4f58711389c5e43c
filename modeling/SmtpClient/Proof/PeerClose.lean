import SmtpClient.Proof.LogText

/-!
# A peer that closes

The end of the stream is a read completion of zero bytes. In the clear and during the handshake the
connection gives up over it. Over an established channel the zero bytes go to the TLS engine first,
and what becomes of the connection depends on what the engine answers: as long as it asks for more,
the connection reads again.
-/

namespace SmtpClient

variable {E : TlsEngine}

namespace Conn

open World Protocol

/-- The end of the stream, reported for the read in flight, ends the connection, and nothing is
submitted any more. -/
def NoticesClose (identity : Bytes) (w : World E) (env : Env E) (op : IoOp) (nowMs : Nat) : Prop :=
  ∃ w', step identity w (.completion env op 0 [] nowMs) = .ok w' ∧ w'.conn.state = .error
    ∧ submissions w'.trace = submissions w.trace

/-- With this text, over an engine in this state, a connection gives up. -/
def GivesUpOn (identity : Bytes) (state : ConnState) (tls : E.State) (text : Bytes) : Prop :=
  match Reply.read text maxReplyLines with
  | .incomplete => readBufSize ≤ text.length
  | .ok reply =>
      state = .waitBanner ∧ (reply.lineCount = 1 ∨ 255 ≤ (Reply.firstLine text).length)
        ∧ (Reply.positive reply.code = false ∨ writeBufSize ≤ (ehloLine identity).length
          ∨ containsCrOrLf identity = false
            ∧ (E.encrypt tls (ehloLine identity) readBufSize).status ≠ .wantWrite)
  | _ => True

/-- There is no established channel, or the engine answers the end of the stream with an error, with
a close, or with a last plaintext that ends the connection as well. -/
def HeedsClose (identity : Bytes) (w : World E) : Prop :=
  w.conn.state = .tlsHandshaking ∨ ∀ tls, w.conn.tls = some tls →
    (answer w tls []).status = .error
      ∨ (answer w tls []).status = .ok
        ∧ ((answer w tls []).out = []
          ∨ GivesUpOn identity w.conn.state (answer w tls []).next
              (heard w.conn ++ (answer w tls []).out))

section Exits

variable {env : Env E} {identity plaintext : Bytes} {nowMs : Nat} {w w' : World E}
  {result : IoResult}

theorem Quits.submissions_eq (h : Quits w w') : submissions w'.trace = submissions w.trace := by
  obtain ⟨logs, htrace⟩ := h.trace
  have hnone : submissions (logs.map fun l => Effect.log l.1 l.2) = [] := by
    apply List.filter_eq_nil_iff.mpr
    intro effect heffect
    obtain ⟨log, -, rfl⟩ := List.mem_map.mp heffect
    simp [Effect.submits]
  rw [htrace, submissions_append, hnone, List.append_nil]

theorem submissions_reads : submissions (reads env w).trace ≠ submissions w.trace := by
  simp [reads, submissions, Effect.submits]

theorem Handled.quits_of_closed (h : Handled env identity nowMs w result w')
    (hkind : result.kind = .read) (hbytes : result.bytesTransferred = 0)
    (hexpects : expects w.conn.state result.kind = true) : Quits w w' := by
  rw [hkind] at hexpects
  cases h with
  | refuses _ hquits => exact hquits
  | proceeds _ hproceeds =>
      cases hproceeds with
      | waits _ hnot | greeted _ hnot | ready _ hnot | starttlsWanted _ hnot
      | starttlsAccepted _ hnot => exact absurd hbytes hnot
      | drives _ _ _ _ hnot | securedFirst _ _ _ _ hnot | securedAgain _ _ _ _ hnot =>
          exact absurd hbytes (hnot hkind)
      | connected hstate | connectedImplicit hstate | ehloSent hstate | starttlsSent hstate =>
          rw [hstate] at hexpects
          exact absurd hexpects (by decide)

theorem SendsEhlo.gives_up_iff (tls : E.State) (h : SendsEhlo env identity nowMs w w')
    (htls : w.conn.tls = some tls) :
    (w'.conn.state = .error ∧ submissions w'.trace = submissions w.trace)
      ↔ writeBufSize ≤ (ehloLine identity).length
        ∨ containsCrOrLf identity = false
          ∧ (E.encrypt tls (ehloLine identity) readBufSize).status ≠ .wantWrite := by
  cases h with
  | tooLong hlen hquits =>
      simp only [hquits.state, hquits.submissions_eq, and_self, true_iff]
      exact .inl (buildEhloCommand_eq_zero_iff.mp hlen)
  | submits hlen hclean hsubmits =>
      rw [← @buildEhloCommand_eq_zero_iff w.conn.writeBuf]
      cases hsubmits with
      | plain hnone => exact absurd hnone (by simp [ehloBuilt, htls])
      | encrypted tls' htls' _ out hout hstatus =>
          obtain rfl : tls = tls' := Option.some.inj (htls.symm.trans htls')
          simp [hlen, hstatus, submissions, Effect.submits, encrypting, ehloBuilt]
      | encryptFailed tls' htls' _ hstatus =>
          obtain rfl : tls = tls' := Option.some.inj (htls.symm.trans htls')
          simp [hclean, hstatus, submissions, Effect.submits, encrypting, ehloBuilt]

theorem Handled.gives_up_iff (tls : E.State) (h : Handled env identity nowMs w result w')
    (htls : w.conn.tls = some tls) (hstate : w.conn.state = .waitBanner ∨ w.conn.state = .waitEhlo)
    (hresult : result.result = 0) (hbytes : result.bytesTransferred ≠ 0)
    (hlength : w.conn.readLen + result.bytesTransferred ≤ readBufSize) :
    (w'.conn.state = .error ∧ submissions w'.trace = submissions w.trace)
      ↔ GivesUpOn identity w.conn.state tls (offered w result.bytesTransferred) := by
  have htext : (offered w result.bytesTransferred).length
      = w.conn.readLen + result.bytesTransferred := w.conn.readBuf.length_slice hlength
  have hother {state : ConnState} (h : w.conn.state = state) (hnot : state ≠ .waitBanner)
      (hnot' : state ≠ .waitEhlo) : False := by
    rcases hstate with hstate | hstate
    · exact hnot (h.symm.trans hstate)
    · exact hnot' (h.symm.trans hstate)
  unfold GivesUpOn
  cases h with
  | refuses hwhy hquits =>
      simp only [hquits.state, hquits.submissions_eq, and_self, true_iff]
      cases hwhy with
      | failed hfailed => exact absurd hresult hfailed
      | closed _ hclosed => exact absurd hclosed hbytes
      | short hsends => rcases hstate with hstate | hstate <;> simp [hstate, sendsCommand] at hsends
      | unfinished _ _ hread hroom => simpa [hread, htext] using hroom
      | malformed _ _ hincomplete hok =>
          split
          · rename_i hread
            exact absurd hread hincomplete
          · rename_i reply hread
            exact absurd hread (hok reply)
          · trivial
      | negative reply _ hread hnegative hwhere =>
          rw [hread]
          rcases hwhere with ⟨hbanner, hclean⟩ | hwhere
          · exact ⟨hbanner, (greetingText_clean_iff hread).mp hclean, .inl hnegative⟩
          · exact (hother hwhere (by decide) (by decide)).elim
      | unoffered _ _ _ _ _ hnone => exact absurd hnone (by simp [htls])
  | proceeds _ hproceeds =>
      cases hproceeds with
      | waits _ _ hread hroom =>
          have hnot : ¬ readBufSize ≤ w.conn.readLen + result.bytesTransferred := by omega
          have hsubmits := @submissions_reads _ env (grown w result.bytesTransferred)
          simp only [hread, htext, hnot, iff_false, not_and]
          exact fun _ heq => hsubmits heq
      | greeted hbanner _ reply hread hclean hpositive hsends =>
          have hgives := hsends.gives_up_iff tls (by simpa [greetedBy, grown] using htls)
          have hsame : submissions (greetedBy w result.bytesTransferred reply).trace
              = submissions w.trace := by simp [greetedBy, grown, submissions, Effect.submits]
          rw [hsame] at hgives
          rw [hgives, hread]
          simp [hbanner, (greetingText_clean_iff hread).mp hclean, hpositive]
      | ready hehlo _ reply caps hparse =>
          rw [Cap.read_of_parseEhloResponse hparse]
          simp [hehlo, readied, capabilitiesOf]
      | starttlsWanted _ _ _ _ _ hnone => exact absurd hnone (by simp [htls])
      | connected h | connectedImplicit h | ehloSent h | starttlsSent h | starttlsAccepted h
      | drives h | securedFirst h | securedAgain h =>
          exact (hother h (by decide) (by decide)).elim

end Exits

theorem Reachable.awaits_over_tls {identity : Bytes} {w : World E} {tls : E.State}
    (h : Reachable identity w) (hlive : w.conn.state.terminal = false)
    (hawaits : awaitsReply w.conn.state = true) (htls : w.conn.tls = some tls) :
    w.conn.state = .waitBanner ∨ w.conn.state = .waitEhlo := by
  have hconsistent := consistent_of_sound (sound_of_reachable h) hlive
  unfold phase at hconsistent
  cases hs : w.conn.state <;> simp_all [awaitsReply, Consistent]

theorem submissions_deliver {w : World E} {op : IoOp} {result : Int} {data : Bytes} :
    submissions (w.deliver op result data).trace = submissions w.trace := by
  simp [submissions, Effect.submits]

theorem submissions_decrypted {w : World E} {tls : E.State} {n : Nat} :
    submissions (decrypted w tls n).trace = submissions w.trace := by
  simp [decrypted, submissions, Effect.submits]

section Close

variable {identity : Bytes} {w : World E} {op : IoOp} (h : Reachable identity w)
  (hlive : w.conn.state.terminal = false) (hdelivers : Delivers w op 0 []) (hread : op.kind = .read)
include h hlive hdelivers hread

theorem noticed_iff_of_ok {env : Env E} {nowMs : Nat} {w' : World E}
    (honIo : OnIo env identity nowMs (w.deliver op 0 []) ⟨op.kind, 0, 0⟩ w') :
    (w'.conn.state = .error ∧ submissions w'.trace = submissions w.trace)
      ↔ HeedsClose identity w := by
  have hflight := flight_of_reachable h
  obtain ⟨-, -, hexpects⟩ := hflight.deliver hlive hdelivers
  have hexpects' : expects (w.deliver op 0 []).conn.state op.kind = true := by simpa using hexpects
  have hquits {u : World E} (hsame : submissions u.trace = submissions w.trace)
      (hquits : Quits u w') :
      w'.conn.state = .error ∧ submissions w'.trace = submissions w.trace :=
    ⟨hquits.state, hquits.submissions_eq.trans hsame⟩
  -- What the TLS layer does is decided by one answer of the engine.
  have hheeds {tls : E.State} (hdecrypts : Decrypts (w.deliver op 0 []) ⟨op.kind, 0, 0⟩ tls) :
      HeedsClose identity w ↔ (answer w tls []).status = .error
        ∨ (answer w tls []).status = .ok
          ∧ ((answer w tls []).out = []
            ∨ GivesUpOn identity w.conn.state (answer w tls []).next
                (heard w.conn ++ (answer w tls []).out)) := by
    have htls : w.conn.tls = some tls := by simpa using hdecrypts.tls
    have hnot : w.conn.state ≠ .tlsHandshaking := by simpa using hdecrypts.state
    simp [HeedsClose, htls, hnot]
  cases honIo with
  | direct hraw hhandled =>
      have hquit := hquits submissions_deliver (hhandled.quits_of_closed hread rfl hexpects')
      refine iff_of_true hquit ?_
      rcases hraw with hstate | hnone | hnot
      · exact .inl (by simpa using hstate)
      · rw [deliver_tls] at hnone
        exact .inr fun tls htls => absurd htls (by simp [hnone])
      · exact absurd ⟨hread, rfl⟩ hnot
  | full tls hdecrypts hroom =>
      obtain ⟨hawaits, -⟩ :=
        deliver_of_decrypts (hears_of_reachable h) hflight hlive hdelivers hdecrypts
      have hspace := (hears_of_reachable h).room hawaits
      rw [deliver_readLen] at hroom
      omega
  | undecided tls hdecrypts _ _ hstatus =>
      rw [hheeds hdecrypts]
      have heq := decryption_deliver h hlive hdelivers hdecrypts
      simp only [List.length_nil] at heq
      rw [heq] at hstatus
      simp only [hstatus, reduceCtorEq, false_and, or_self, iff_false, not_and]
      intro _ hsame
      refine submissions_reads (hsame.trans ?_)
      rw [submissions_decrypted, submissions_deliver]
  | broken tls hdecrypts _ _ hstatus hquit =>
      rw [hheeds hdecrypts]
      have heq := decryption_deliver h hlive hdelivers hdecrypts
      simp only [List.length_nil] at heq
      rw [heq] at hstatus
      exact iff_of_true (hquits (submissions_decrypted.trans submissions_deliver) hquit)
        (.inl hstatus)
  | delivered tls hdecrypts _ _ hstatus hhandled =>
      rw [hheeds hdecrypts]
      obtain ⟨hawaits, -⟩ :=
        deliver_of_decrypts (hears_of_reachable h) hflight hlive hdelivers hdecrypts
      have hroom := (hears_of_reachable h).room hawaits
      have htls : w.conn.tls = some tls := by simpa using hdecrypts.tls
      have hout : (answer w tls []).out.length ≤ readBufSize - w.conn.readLen :=
        E.decrypt_out_le tls [] _
      have hsame : submissions (decrypted (w.deliver op 0 []) tls 0).trace = submissions w.trace :=
        submissions_decrypted.trans submissions_deliver
      have heq := decryption_deliver h hlive hdelivers hdecrypts
      have hshown := shown_decrypted h hlive hdelivers hdecrypts
      simp only [List.length_nil] at heq hshown
      simp only [decryptedResult, heq] at hhandled hstatus
      simp only [hstatus, reduceCtorEq, true_and, false_or]
      by_cases hnil : (answer w tls []).out = []
      · refine iff_of_true (hquits hsame (hhandled.quits_of_closed hread ?_ ?_)) (.inl hnil)
        · simp [hnil]
        · simpa using hexpects
      have hbytes : (answer w tls []).out.length ≠ 0 := by simpa using hnil
      rw [if_pos ⟨hstatus, hbytes⟩] at hshown
      obtain ⟨-, -, -, htext⟩ := awaitsReply_of_shown hshown
      have hchunk : chunk w [] = (answer w tls []).out := by simp [chunk, htls, hstatus]
      rw [hchunk] at htext
      have hgives := hhandled.gives_up_iff (answer w tls []).next (by simp [decrypted, heq])
        (by simpa using h.awaits_over_tls hlive hawaits htls) rfl hbytes
        (by simp only [decrypted, record_conn, modify_conn, deliver_readLen]; omega)
      rw [hsame] at hgives
      simp only [hgives, hnil, false_or, htext, decrypted_state, deliver_state]

theorem not_heeds_of_aborts {e : Assertion} (haborts : CompletionAborts identity w op 0 [] e) :
    ¬ HeedsClose identity w := by
  have hexpected (u : World E) (result : IoResult) (hkind : result.kind = .read)
      (hbytes : result.bytesTransferred = 0) : ¬ Aborts identity u result .logDetail := by
    intro haborts
    cases haborts with
    | greeting _ _ hnot | identity _ hnot => exact hnot hbytes
    | identityAgain _ hnot | certificate _ _ hnot => exact hnot hkind hbytes
    | summary reply caps hparse hdirty =>
        have hclean := Cap.clean_formatSummary (Cap.printable_of_parse hparse) 256
        exact absurd hdirty (by simp [clean_iff.mpr hclean])
  cases haborts with
  | raw haborts => exact absurd haborts (hexpected _ _ hread rfl)
  | status tls hdecrypts hstatus =>
      have htls : w.conn.tls = some tls := by simpa using hdecrypts.tls
      have hnot : w.conn.state ≠ .tlsHandshaking := by simpa using hdecrypts.state
      rw [decryption_deliver h hlive hdelivers hdecrypts] at hstatus
      simp [HeedsClose, htls, hnot, hstatus]
  | decrypted tls hdecrypts hstatus haborts =>
      have htls : w.conn.tls = some tls := by simpa using hdecrypts.tls
      have hnot : w.conn.state ≠ .tlsHandshaking := by simpa using hdecrypts.state
      have heq := decryption_deliver h hlive hdelivers hdecrypts
      have hshown := shown_decrypted h hlive hdelivers hdecrypts
      simp only [decryptedResult, heq] at hstatus haborts
      by_cases hbytes : (answer w tls []).out.length = 0
      · exact absurd haborts (hexpected _ _ hread hbytes)
      rw [if_pos ⟨hstatus, hbytes⟩] at hshown
      obtain ⟨-, -, -, htext⟩ := awaitsReply_of_shown hshown
      have hchunk : chunk w [] = (answer w tls []).out := by simp [chunk, htls, hstatus]
      have hnil : (answer w tls []).out ≠ [] := by simpa using hbytes
      rw [hchunk] at htext
      simp only [HeedsClose, htls, hnot, false_or, Option.some.injEq, forall_eq', hstatus,
        reduceCtorEq, true_and, hnil]
      unfold GivesUpOn
      rw [← htext]
      cases haborts with
      | greeting _ _ _ reply hread' hdirty =>
          rw [hread']
          rintro ⟨-, hclean, -⟩
          rw [(greetingText_clean_iff hread').mpr hclean] at hdirty
          exact absurd hdirty (by decide)
      | identity _ _ reply hread' hpositive hfits hdirty =>
          rw [hread']
          rintro ⟨-, -, hnegative | hlong | ⟨hclean, -⟩⟩
          · exact absurd hpositive (by simp [hnegative])
          · omega
          · exact absurd hdirty (by simp [hclean])
      | identityAgain hstate | certificate hstate => exact absurd (by simpa using hstate) hnot
      | summary reply caps hparse hdirty =>
          have hclean := Cap.clean_formatSummary (Cap.printable_of_parse hparse) 256
          exact absurd hdirty (by simp [clean_iff.mpr hclean])

end Close

/-- **When a peer's close is noticed.** The end of the stream, reported to a connection for the read
it has in flight, ends it without another submission exactly if there is no established channel or
the engine's answer to it ends the connection. -/
theorem close_noticed_iff {identity : Bytes} {w : World E} {op : IoOp} (h : Reachable identity w)
    (hlive : w.conn.state.terminal = false) (hop : op ∈ w.inFlight) (hread : op.kind = .read)
    (env : Env E) (nowMs : Nat) :
    NoticesClose identity w env op nowMs ↔ HeedsClose identity w := by
  have hdelivers : Delivers w op 0 [] :=
    ⟨hop, Nat.zero_le _, fun hzero => absurd rfl hzero, fun hwrite =>
      absurd (hread.symm.trans hwrite) (by decide)⟩
  unfold NoticesClose
  cases hstep : step identity w (.completion env op 0 [] nowMs) with
  | ok w' =>
      rw [← noticed_iff_of_ok h hlive hdelivers hread (onIo_ok hstep)]
      simp
  | error e =>
      have hnot := not_heeds_of_aborts h hlive hdelivers hread
        (h.completion_aborts hlive hdelivers hstep)
      simp [hnot]

/-- A connection in the clear, waiting for the greeting. -/
theorem close_noticed_in_clear :
    ∃ w, playSample sampleInfo .none [.connected] = some w
      ∧ NoticesClose (bytes "me") w (accepts sampleInfo) ⟨.read, .readBuf 0, readBufSize⟩ 0 := by
  have hplay : (playSample sampleInfo .none [.connected]).map
      (fun w => (w.conn.state, w.inFlight, w.conn.tls.isSome))
      = some (.waitBanner, [⟨.read, .readBuf 0, readBufSize⟩], false) := by decide +kernel
  obtain ⟨w, hw, heq⟩ := Option.map_eq_some_iff.mp hplay
  simp only [Prod.mk.injEq, Option.isSome_eq_false_iff, Option.isNone_iff_eq_none] at heq
  obtain ⟨hstate, hone, hnone⟩ := heq
  refine ⟨w, hw, (close_noticed_iff (reachable_of_playSample hw) ?_ ?_ rfl _ _).mpr (.inr ?_)⟩
  · rw [hstate]
    rfl
  · simp [hone]
  · simp [hnone]

/-- An established channel whose engine holds nothing: the end of the stream is read again. -/
theorem close_missed_over_tls :
    ∃ w tls, playSample sampleInfo .implicit [.connected, .sentAll,
        .received (RecordEngine.record RecordEngine.handshakeType [])] = some w
      ∧ Reachable (bytes "me") w ∧ ⟨.read, .cipherBuf, readBufSize⟩ ∈ w.inFlight
      ∧ w.conn.tls = some tls ∧ RecordEngine.takeRecord tls.raw = none
      ∧ ((recordEngine sampleInfo).decrypt tls [] readBufSize).status = .wantRead
      ∧ ¬ NoticesClose (bytes "me") w (accepts sampleInfo) ⟨.read, .cipherBuf, readBufSize⟩ 0 := by
  have hplay : (playSample sampleInfo .implicit [.connected, .sentAll,
      .received (RecordEngine.record RecordEngine.handshakeType [])]).map (fun w =>
        (w.inFlight, w.conn.tls.map RecordEngine.State.raw,
          ((step (bytes "me") w (.completion (accepts sampleInfo)
            ⟨.read, .cipherBuf, readBufSize⟩ 0 [] 0)).toOption.map fun w' => w'.conn.state)))
      = some ([⟨.read, .cipherBuf, readBufSize⟩], some [], some .waitBanner) := by
    decide +kernel
  obtain ⟨w, hw, heq⟩ := Option.map_eq_some_iff.mp hplay
  simp only [Prod.mk.injEq] at heq
  obtain ⟨hone, hraw, hgoesOn⟩ := heq
  obtain ⟨tls, htls, hempty⟩ := Option.map_eq_some_iff.mp hraw
  have hnone : RecordEngine.takeRecord tls.raw = none := by rw [hempty]; rfl
  have hwants : ((recordEngine sampleInfo).decrypt tls [] readBufSize).status = .wantRead := by
    change (RecordEngine.deliver (RecordEngine.State.feed tls []) readBufSize).status = .wantRead
    simp [RecordEngine.deliver, RecordEngine.State.feed, hnone]
  refine ⟨w, tls, hw, reachable_of_playSample hw, by simp [hone], htls, hnone, hwants, ?_⟩
  rintro ⟨w', hstep, herror, -⟩
  rw [hstep] at hgoesOn
  exact absurd ((Option.some.inj hgoesOn).symm.trans herror) (by decide)

end Conn

end SmtpClient
