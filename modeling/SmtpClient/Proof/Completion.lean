import SmtpClient.Base.Machine
import SmtpClient.Proof.ZeroDecrypt

/-!
# When a handshake is reported complete

The output of a handshake call hides the status that came with it, so a backend that has answered
`SMTP_TLS_WANT_WRITE` has to know on the next call whether it was done. OpenSSL knows; SChannel does
not tell, and this backend does not remember. Whether a handshake is reported as it should be hangs
on one thing: that `SEC_E_OK` never comes with a token.
-/

namespace SmtpClient

namespace SChannel

open OpenSsl (certFieldLen certReasonLen)

variable {S : Sspi}

namespace SmtpTls

variable {tls tls' : SmtpTls S} {input : Bytes} {outSize : Nat}

/-! ### A handshake call -/

/-- What a handshake call passes to SSPI: no input buffers, on a first call. -/
def offered (tls : SmtpTls S) : Option Bytes :=
  if !tls.ctxtHandleValid then none else some tls.pending

def negotiated (tls : SmtpTls S) : Initialized S.Ctxt (tls.offered.getD []).length :=
  S.initializeSecurityContext tls.credHandle tls.ctxtHandle tls.hostnameW
    tls.trustWithoutValidation tls.offered

/-- The engine after the call on SSPI, before it reports. -/
def kept (tls : SmtpTls S) : SmtpTls S :=
  SmtpTls.keepExtra
    { tls with
      ctxtHandle := tls.negotiated.ctxt
      ctxtHandleValid := tls.ctxtHandleValid
        || tls.negotiated.status == SecurityStatus.secEOk
        || tls.negotiated.status == SecurityStatus.secIContinueNeeded }
    tls.negotiated.status (if !tls.ctxtHandleValid then none else tls.negotiated.extra)

theorem handshakeCalls_eq (hfits : tls.accumulate input = some tls') :
    tls.handshakeCalls input outSize
      = ([⟨tls'.offered, tls'.negotiated.status, tls'.negotiated.token⟩],
        tls'.kept.report tls'.negotiated.status tls'.negotiated.token outSize) := by
  rw [handshakeCalls, hfits]
  rfl

theorem handshake_eq (hfits : tls.accumulate input = some tls') :
    tls.handshake input outSize
      = tls'.kept.report tls'.negotiated.status tls'.negotiated.token outSize := by
  rw [handshake, handshakeCalls_eq hfits]

theorem handshakeCalls_of_refused (hfits : tls.accumulate input = none) :
    tls.handshakeCalls input outSize = ([], ⟨.error, [], tls⟩) := by
  rw [handshakeCalls, hfits]

theorem accumulate_nil (tls : SmtpTls S) : tls.accumulate [] = some tls := rfl

/-- SSPI is asked once at most, and the answer is what is reported. -/
theorem report_of_call {call : Negotiation} (h : call ∈ (tls.handshakeCalls input outSize).1) :
    ∃ tls' : SmtpTls S, tls.accumulate input = some tls'
      ∧ (tls.handshakeCalls input outSize).1 = [call]
      ∧ tls.handshake input outSize = tls'.kept.report call.status call.token outSize := by
  cases hfits : tls.accumulate input with
  | none =>
      rw [handshakeCalls_of_refused hfits] at h
      cases h
  | some tls' =>
      rw [handshakeCalls_eq hfits] at h ⊢
      obtain rfl := List.mem_singleton.1 h
      exact ⟨tls', rfl, rfl, handshake_eq hfits⟩

/-! ### The certificate -/

/-- What stays as it is until the handshake is done. -/
structure Alike (tls tls' : SmtpTls S) : Prop where
  trust : tls'.trustWithoutValidation = tls.trustWithoutValidation
  hostnameW : tls'.hostnameW = tls.hostnameW
  certInfo : tls'.certInfo = tls.certInfo

theorem alike_accumulate (hfits : tls.accumulate input = some tls') : Alike tls tls' := by
  unfold accumulate at hfits
  split at hfits
  · split at hfits
    · cases hfits
    · cases hfits
      exact ⟨rfl, rfl, rfl⟩
  · cases hfits
    exact ⟨rfl, rfl, rfl⟩

theorem alike_kept (tls : SmtpTls S) : Alike tls tls.kept := by
  unfold kept keepExtra
  split
  · exact ⟨rfl, rfl, rfl⟩
  · split
    · exact ⟨rfl, rfl, rfl⟩
    · exact ⟨rfl, rfl, rfl⟩

theorem Alike.trans {tls'' : SmtpTls S} (h : Alike tls tls') (h' : Alike tls' tls'') :
    Alike tls tls'' :=
  ⟨h'.trust.trans h.trust, h'.hostnameW.trans h.hostnameW, h'.certInfo.trans h.certInfo⟩

theorem alike_done (hfits : tls.accumulate input = some tls') :
    Alike tls { tls'.kept with handshakeDone := true } := by
  obtain ⟨htrust, hname, hinfo⟩ := (alike_accumulate hfits).trans tls'.alike_kept
  exact ⟨htrust, hname, hinfo⟩

end SmtpTls

/-- Why a certificate does not do, where the backend looks at it itself. -/
def policyFailure (S : Sspi) (cert : S.Cert) (hostnameW : List UInt16) : Option Bytes :=
  match S.certGetCertificateChain cert with
  | none => some (clip certReasonLen (bytes "failed to build certificate chain"))
  | some chain =>
      let (verified, dwError) := S.verifyChainPolicy chain hostnameW
      if verified && dwError == 0 then none else some (failureReason S dwError)

/-- What `cert_info` says of the certificate the context shows, if it shows one: whose it is, by
whom, and until when; and whether it does, with the reason if it does not. -/
structure Describes (before tls : SmtpTls S) : Prop where
  unseen : S.remoteCert tls.ctxtHandle = none → tls.certInfo = before.certInfo
  subject : ∀ cert, S.remoteCert tls.ctxtHandle = some cert →
    tls.certInfo.subject = S.subjectName cert certFieldLen
  issuer : ∀ cert, S.remoteCert tls.ctxtHandle = some cert →
    tls.certInfo.issuer = S.issuerName cert certFieldLen
  notAfter : ∀ cert, S.remoteCert tls.ctxtHandle = some cert →
    tls.certInfo.notAfter = unixTime (S.notAfter cert)
  strict : ∀ cert, S.remoteCert tls.ctxtHandle = some cert →
    before.trustWithoutValidation = false → tls.certInfo.validated = true
  lenient : ∀ cert, S.remoteCert tls.ctxtHandle = some cert →
    before.trustWithoutValidation = true →
      tls.certInfo.validated = (policyFailure S cert before.hostnameW).isNone
        ∧ ∀ reason, policyFailure S cert before.hostnameW = some reason →
          tls.certInfo.failureReason = reason

namespace SmtpTls

variable {tls tls' : SmtpTls S} {input : Bytes} {outSize : Nat}

theorem populateCertInfo_handles (tls : SmtpTls S) :
    tls.populateCertInfo.ctxtHandle = tls.ctxtHandle
      ∧ tls.populateCertInfo.hostnameW = tls.hostnameW := by
  unfold populateCertInfo
  split
  · exact ⟨rfl, rfl⟩
  dsimp only
  split
  · exact ⟨rfl, rfl⟩
  split
  · exact ⟨rfl, rfl⟩
  split
  · exact ⟨rfl, rfl⟩
  · exact ⟨rfl, rfl⟩

theorem populateCertInfo_unseen (hcert : S.remoteCert tls.ctxtHandle = none) :
    tls.populateCertInfo = tls := by
  unfold populateCertInfo
  rw [hcert]

/-- The names and the end of a certificate are taken over whatever is made of it. -/
theorem populateCertInfo_names {cert : S.Cert} (hcert : S.remoteCert tls.ctxtHandle = some cert) :
    tls.populateCertInfo.certInfo.subject = S.subjectName cert certFieldLen
      ∧ tls.populateCertInfo.certInfo.issuer = S.issuerName cert certFieldLen
      ∧ tls.populateCertInfo.certInfo.notAfter = unixTime (S.notAfter cert) := by
  unfold populateCertInfo
  rw [hcert]
  dsimp only
  split
  · exact ⟨rfl, rfl, rfl⟩
  split
  · exact ⟨rfl, rfl, rfl⟩
  split
  · exact ⟨rfl, rfl, rfl⟩
  · exact ⟨rfl, rfl, rfl⟩

theorem populateCertInfo_strict {cert : S.Cert} (hcert : S.remoteCert tls.ctxtHandle = some cert)
    (htrust : tls.trustWithoutValidation = false) :
    tls.populateCertInfo.certInfo.validated = true := by
  unfold populateCertInfo
  rw [hcert]
  dsimp only
  rw [if_pos (by simp [htrust])]

/-- What the backend itself makes of a certificate it is shown. -/
theorem populateCertInfo_lenient {cert : S.Cert} (hcert : S.remoteCert tls.ctxtHandle = some cert)
    (htrust : tls.trustWithoutValidation = true) :
    tls.populateCertInfo.certInfo.validated = (policyFailure S cert tls.hostnameW).isNone
      ∧ ∀ reason, policyFailure S cert tls.hostnameW = some reason →
        tls.populateCertInfo.certInfo.failureReason = reason := by
  unfold populateCertInfo policyFailure
  rw [hcert]
  dsimp only
  rw [if_neg (by simp [htrust])]
  cases hchain : S.certGetCertificateChain cert with
  | none => exact ⟨rfl, fun reason hreason => Option.some.inj hreason⟩
  | some chain =>
      dsimp only
      split
      · exact ⟨rfl, fun reason hreason => absurd hreason (by simp)⟩
      · exact ⟨rfl, fun reason hreason => Option.some.inj hreason⟩

theorem describes_populateCertInfo {before : SmtpTls S} (h : Alike before tls) :
    Describes before tls.populateCertInfo := by
  obtain ⟨hctxt, -⟩ := tls.populateCertInfo_handles
  constructor
  · intro hcert
    rw [hctxt] at hcert
    rw [populateCertInfo_unseen hcert]
    exact h.certInfo
  · intro cert hcert
    rw [hctxt] at hcert
    exact (populateCertInfo_names hcert).1
  · intro cert hcert
    rw [hctxt] at hcert
    exact (populateCertInfo_names hcert).2.1
  · intro cert hcert
    rw [hctxt] at hcert
    exact (populateCertInfo_names hcert).2.2
  · intro cert hcert hstrict
    rw [hctxt] at hcert
    exact populateCertInfo_strict hcert (h.trust.trans hstrict)
  · intro cert hcert hlenient
    rw [hctxt] at hcert
    rw [← h.hostnameW]
    exact populateCertInfo_lenient hcert (h.trust.trans hlenient)

/-! ### What a call reports -/

theorem report_token (tls : SmtpTls S) (status : SecurityStatus) {token : Bytes}
    (htoken : token ≠ []) (outSize : Nat) : (tls.report status token outSize).status = .error
      ∨ tls.report status token outSize = ⟨.wantWrite, token, tls⟩ := by
  rw [report, if_pos (List.length_pos_iff.2 htoken)]
  split
  · exact Or.inl rfl
  · exact Or.inr rfl

end SmtpTls

open SmtpTls

/-! ### The interface contract -/

/-- A handshake call: the engine it was made on, the calls it made of SSPI, and the outcome. -/
structure Exchange (S : Sspi) where
  before : SmtpTls S
  calls : List Negotiation
  outcome : TlsOutcome (SmtpTls S)

/-- An engine, what it has to have sent, and the calls so far. -/
structure Driver (S : Sspi) where
  tls : SmtpTls S
  unsent : Bytes
  exchanges : List (Exchange S)

inductive Turn where
  | send
  | call (input : Bytes) (outSize : Nat)
  deriving DecidableEq, Repr

namespace Driver

def start (tls : SmtpTls S) : Driver S := ⟨tls, [], []⟩

/-- The handshake goes on as long as it asks for something. -/
def Open (d : Driver S) : Prop :=
  ∀ last ∈ d.exchanges.getLast?, last.outcome.status = .wantRead ∨ last.outcome.status = .wantWrite

/-- Output is sent before the next call, and the first call has no input. -/
def admissible (d : Driver S) : Turn → Prop
  | .send => d.unsent ≠ []
  | .call input _ => d.unsent = [] ∧ d.Open ∧ (d.exchanges = [] → input = [])

def exchange (d : Driver S) (input : Bytes) (outSize : Nat) : Exchange S :=
  ⟨d.tls, (d.tls.handshakeCalls input outSize).1, d.tls.handshake input outSize⟩

def called (d : Driver S) (input : Bytes) (outSize : Nat) : Driver S where
  tls := (d.tls.handshake input outSize).next
  unsent := (d.tls.handshake input outSize).out
  exchanges := d.exchanges ++ [d.exchange input outSize]

def sent (d : Driver S) : Driver S := { d with unsent := [] }

def step (d : Driver S) : Turn → Except Empty (Driver S)
  | .send => .ok d.sent
  | .call input outSize => .ok (d.called input outSize)

end Driver

def driver (S : Sspi) : Machine (Driver S) Turn Empty where
  admissible := Driver.admissible
  step := Driver.step

namespace Exchange

/-- It is done, and says so. -/
structure Complete (e : Exchange S) : Prop where
  status : e.outcome.status = .ok
  done : e.outcome.next.handshakeDone = true
  describes : Describes e.before e.outcome.next

/-- How a completion is reported, by this call and the one after: at once, or after the last token
has been handed over. SSPI is not asked again. -/
structure Reported (past : List (Exchange S)) (e : Exchange S) : Prop where
  once : ∀ earlier ∈ past, ∀ call ∈ earlier.calls, call.status = .secEOk → e.calls = []
  last : ∀ call ∈ e.calls.dropLast, call.status ≠ .secEOk
  at_once : ∀ call ∈ e.calls, call.status = .secEOk → call.token = [] → e.Complete
  token : ∀ call ∈ e.calls, call.status = .secEOk → call.token ≠ [] →
    e.outcome.status = .wantWrite ∧ e.outcome.out = call.token
  after_token : ∀ last ∈ past.getLast?, ∀ call ∈ last.calls, call.status = .secEOk →
    call.token ≠ [] → e.Complete

end Exchange

open Exchange

/-- SSPI does not answer this call with `SEC_E_OK` and a token at once. -/
def Unaccompanied (d : Driver S) : Turn → Prop
  | .send => True
  | .call input outSize => ∀ call ∈ (d.exchange input outSize).calls,
      call.status = .secEOk → call.token = []

/-! ### What the calls report -/

namespace Driver

variable {d d' : Driver S} {turn : Turn} {input : Bytes} {outSize : Nat}

/-- So far every completion is reported, and while the handshake goes on there is none. -/
def Reports (d : Driver S) : Prop :=
  AllJustified Reported d.exchanges
    ∧ (d.Open → ∀ e ∈ d.exchanges, ∀ call ∈ e.calls, call.status ≠ .secEOk)

theorem complete_exchange {call : Negotiation} (hcall : call ∈ (d.exchange input outSize).calls)
    (hstatus : call.status = .secEOk) (htoken : call.token = []) :
    (d.exchange input outSize).Complete := by
  obtain ⟨tls', hfits, -, hreport⟩ := report_of_call hcall
  have halike := alike_done hfits
  have houtcome : (d.exchange input outSize).outcome
      = ⟨.ok, [], SmtpTls.populateCertInfo { tls'.kept with handshakeDone := true }⟩ := by
    change d.tls.handshake input outSize = _
    rw [hreport, hstatus, htoken]
    rfl
  constructor
  · rw [houtcome]
  · rw [houtcome]
    exact handshakeDone_populateCertInfo _
  · rw [houtcome]
    exact describes_populateCertInfo halike

theorem reported_exchange
    (hnone : ∀ e ∈ d.exchanges, ∀ call ∈ e.calls, call.status ≠ .secEOk)
    (hunaccompanied : Unaccompanied d (.call input outSize)) :
    Reported d.exchanges (d.exchange input outSize) where
  once e he call hcall hstatus := absurd hstatus (hnone e he call hcall)
  last call hcall := by
    change call ∈ List.dropLast (d.tls.handshakeCalls input outSize).1 at hcall
    have hmem : call ∈ (d.tls.handshakeCalls input outSize).1 := List.dropLast_subset _ hcall
    obtain ⟨-, -, hone, -⟩ := report_of_call hmem
    rw [hone] at hcall
    cases hcall
  at_once call hcall hstatus htoken := complete_exchange hcall hstatus htoken
  token call hcall hstatus htoken := absurd (hunaccompanied call hcall hstatus) htoken
  after_token last hlast call hcall hstatus _ :=
    absurd hstatus (hnone last (List.mem_of_getLast? hlast) call hcall)

theorem reports_step (h : d.Reports) (step : ((driver S).restrict Unaccompanied).Steps d turn d') :
    d'.Reports := by
  obtain ⟨⟨hadmissible, hunaccompanied⟩, hstep⟩ := step
  cases turn with
  | send =>
      cases hstep
      exact h
  | call input outSize =>
      cases hstep
      obtain ⟨hall, hnone⟩ := h
      have hreported := reported_exchange (hnone hadmissible.2.1) hunaccompanied
      refine ⟨hall.snoc hreported, fun hopen e he => ?_⟩
      rcases List.mem_append.1 he with hpast | hnew
      · exact hnone hadmissible.2.1 e hpast
      -- a completion ends the handshake
      obtain rfl := List.mem_singleton.1 hnew
      intro call hcall hstatus
      have hlast := hopen (d.exchange input outSize) List.getLast?_concat
      rw [(complete_exchange hcall hstatus (hunaccompanied call hcall hstatus)).status] at hlast
      rcases hlast with hlast | hlast <;> cases hlast

/-- A completion that comes with a token is not reported. -/
theorem unreported {tls : SmtpTls S} {turns : List Turn} (run : (driver S).Run (start tls) turns d)
    (hadmissible : (driver S).admissible d turn) (hunaccompanied : ¬ Unaccompanied d turn) :
    ∃ turns' d', (driver S).Run (start tls) (turns ++ turn :: turns') d'
      ∧ ¬ AllJustified Reported d'.exchanges := by
  cases turn with
  | send => exact absurd trivial hunaccompanied
  | call input outSize =>
      obtain ⟨call, hcall, hstatus, htoken⟩ : ∃ call ∈ (d.exchange input outSize).calls,
          call.status = .secEOk ∧ call.token ≠ [] := by
        simpa [Unaccompanied] using hunaccompanied
      have hcalled : (driver S).Run (start tls) (turns ++ [.call input outSize])
          (d.called input outSize) := run.snoc ⟨hadmissible, rfl⟩
      obtain ⟨tls', -, -, hreport⟩ := report_of_call hcall
      rcases report_token tls'.kept call.status htoken outSize with herror | hwrite
      · -- no room for the token
        refine ⟨[], d.called input outSize, hcalled, fun hall => ?_⟩
        have hreported := hall d.exchanges (d.exchange input outSize) [] rfl
        obtain ⟨hwrites, -⟩ := hreported.token call hcall hstatus htoken
        change (d.tls.handshake input outSize).status = .wantWrite at hwrites
        rw [hreport, herror] at hwrites
        cases hwrites
      · -- the token is sent, and SSPI is asked again
        rw [← hreport] at hwrite
        have hsent : (driver S).Run (start tls) (turns ++ [.call input outSize] ++ [.send])
            (d.called input outSize).sent := by
          refine hcalled.snoc ⟨?_, rfl⟩
          change (d.tls.handshake input outSize).out ≠ []
          rw [hwrite]
          exact htoken
        have hopen : (d.called input outSize).sent.Open := by
          intro last hlast
          cases List.getLast?_concat.symm.trans hlast
          right
          change (d.tls.handshake input outSize).status = .wantWrite
          rw [hwrite]
        have hadmits : (driver S).admissible (d.called input outSize).sent (.call [] 0) :=
          ⟨rfl, hopen, fun _ => rfl⟩
        have hagain := hsent.snoc ⟨hadmits, rfl⟩
        refine ⟨[.send, .call [] 0], _, by simpa using hagain, fun hall => ?_⟩
        have hreported := hall (d.exchanges ++ [d.exchange input outSize]) _ [] rfl
        have hasked := hreported.once (d.exchange input outSize) (by simp) call hcall hstatus
        change ((d.called input outSize).sent.tls.handshakeCalls [] 0).1 = [] at hasked
        rw [handshakeCalls_eq (SmtpTls.accumulate_nil _)] at hasked
        cases hasked

end Driver

/-- **Completion.** A handshake that follows the contract is reported complete as long as SSPI never
answers with `SEC_E_OK` and a token at once, and wherever it may do so there is one that is not. -/
theorem completion_reported_iff (tls : SmtpTls S) :
    (∀ turns d, ((driver S).restrict Unaccompanied).Run (.start tls) turns d →
        AllJustified Reported d.exchanges)
      ∧ ((∀ turns d, (driver S).Run (.start tls) turns d → AllJustified Reported d.exchanges)
        ↔ ∀ turns d turn, (driver S).Run (.start tls) turns d → (driver S).admissible d turn →
          Unaccompanied d turn) := by
  have hrestricted : ∀ turns d, ((driver S).restrict Unaccompanied).Run (.start tls) turns d →
      AllJustified Reported d.exchanges := by
    intro turns d run
    have hstart : (Driver.start tls).Reports :=
      ⟨allJustified_nil Reported, fun _ e he => absurd he List.not_mem_nil⟩
    exact (run.invariant hstart fun _ _ _ h step => Driver.reports_step h step).1
  refine ⟨hrestricted, ?_, ?_⟩
  · intro hall turns d turn run hadmissible
    by_contra hunaccompanied
    obtain ⟨turns', d', run', hnot⟩ := Driver.unreported run hadmissible hunaccompanied
    exact hnot (hall _ d' run')
  · intro hunaccompanied turns d run
    apply hrestricted turns d
    induction run with
    | nil => exact .nil
    | snoc run step ih => exact ih.snoc ⟨⟨step.1, hunaccompanied _ _ _ run step.1⟩, step.2⟩

/-! ### A handshake in which the client has the last word -/

open RecordEngine in
/-- The sample SSPI, but that the flight of the server is answered with `SEC_E_OK` and a token. -/
def finishingSspi : Sspi :=
  { certifiedSspi with
    initializeSecurityContext := fun credHandle ctxt hostnameW manual input =>
      let result := certifiedSspi.initializeSecurityContext credHandle ctxt hostnameW manual input
      { result with
        token := if result.status = .secEOk then record handshakeType (bytes "finished")
          else result.token } }

def finishingNew : SmtpTls finishingSspi :=
  (create finishingSspi () ⟨(), true⟩ (bytes "mx") false).get (by decide)

/-- An engine that is to trust without validation. -/
def lenientNew : SmtpTls certifiedSspi :=
  (create certifiedSspi () ⟨(), true⟩ (bytes "h") true).get (by decide)

instance (d : Driver S) : (turn : Turn) → Decidable ((driver S).admissible d turn)
  | .send => inferInstanceAs (Decidable (¬ d.unsent = []))
  | .call input _ => inferInstanceAs (Decidable (d.unsent = [] ∧
      (∀ last ∈ d.exchanges.getLast?,
        last.outcome.status = .wantRead ∨ last.outcome.status = .wantWrite) ∧
      (d.exchanges = [] → input = [])))

instance (d : Driver S) : (turn : Turn) → Decidable (Unaccompanied d turn)
  | .send => inferInstanceAs (Decidable True)
  | .call input outSize => inferInstanceAs (Decidable (∀ call ∈ (d.exchange input outSize).calls,
      call.status = .secEOk → call.token = []))

/-- The flight of the client is sent, and that of the server arrives. -/
def clientFlight : List Turn := [.call [] 64, .send]

def serverFlight : Turn := .call (RecordEngine.record RecordEngine.handshakeType []) 64

/-- A certificate whose chain cannot be built, of a server that is trusted without. -/
theorem completion_reported_iff_flights : ∃ d,
    (driver certifiedSspi).Run (.start lenientNew) (clientFlight ++ [serverFlight]) d
      ∧ AllJustified Reported d.exchanges ∧ d.tls.handshakeDone = true
      ∧ d.tls.certInfo = ⟨⟨false, bytes "failed to build certificate chain", bytes "CN=mx"⟩,
        bytes "CN=ca", 1735689600⟩ := by
  have hexec : (((driver certifiedSspi).restrict Unaccompanied).exec (.start lenientNew)
      (clientFlight ++ [serverFlight])).map (fun d => (d.tls.handshakeDone, d.tls.certInfo))
      = some (true, ⟨⟨false, bytes "failed to build certificate chain", bytes "CN=mx"⟩,
        bytes "CN=ca", 1735689600⟩) := by
    decide +kernel
  obtain ⟨d, hd, heq⟩ := Option.map_eq_some_iff.1 hexec
  obtain ⟨hdone, hinfo⟩ := Prod.mk.inj heq
  have hrun := Machine.run_of_exec hd
  exact ⟨d, hrun.of_restrict, (completion_reported_iff lenientNew).1 _ d hrun, hdone, hinfo⟩

/-- The handshake of `finishingSspi`. -/
theorem completion_lost : ¬ ∀ (S : Sspi) (credHandle : S.CredHandle) (made : Made S)
    (hostname : Bytes) (trustWithoutValidation : Bool) (tls : SmtpTls S),
    create S credHandle made hostname trustWithoutValidation = some tls → ∀ turns d,
      (driver S).Run (.start tls) turns d → AllJustified Reported d.exchanges := by
  intro h
  have hall := h finishingSspi () ⟨(), true⟩ (bytes "mx") false finishingNew
    (Option.some_get _).symm
  have hexec : ((driver finishingSspi).exec (.start finishingNew) clientFlight).map
      (fun d => decide ((driver finishingSspi).admissible d serverFlight
        ∧ ¬ Unaccompanied d serverFlight)) = some true := by
    decide +kernel
  obtain ⟨d, hd, hserver⟩ := Option.map_eq_some_iff.1 hexec
  obtain ⟨hadmissible, hunaccompanied⟩ := of_decide_eq_true hserver
  obtain ⟨turns', d', run, hnot⟩ :=
    Driver.unreported (Machine.run_of_exec hd) hadmissible hunaccompanied
  exact hnot (hall _ d' run)

end SChannel

end SmtpClient
