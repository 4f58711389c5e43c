import SmtpClient.Proof.Completion
import SmtpClient.Proof.Vetting

/-!
# Sessions over the two backends

What the log of a connection says about the certificate is what the backend was told: OpenSSL by the
checks it makes on the chain, SChannel by its own validation, or by a policy the backend applies
where the connection is to be trusted without.
-/

namespace SmtpClient

namespace Conn

variable {E : TlsEngine}

/-- A started connection in implicit mode and with validation. -/
def strictStart (ctx : E.Ctx) : World E where
  conn := { init ⟨1, 1⟩ (bytes "mx") .implicit (some ctx) false with
    connectTimeoutMs := 1000
    deadlineMs := 1000 }
  caps := Cap.init
  inFlight := [⟨.connect, .null, 0⟩]
  trace := [.log .connecting (bytes "connecting"), .submitConnect 0]

def playStrict (ctx : E.Ctx) (entropy : E.Entropy) (answers : List Answer) : Option (World E) :=
  play (machine E (bytes "me")) ⟨entropy, 0⟩ (strictStart ctx) answers

theorem reachable_of_playStrict {ctx : E.Ctx} {entropy : E.Entropy} {answers : List Answer}
    {w : World E} (h : playStrict ctx entropy answers = some w) : Reachable (bytes "me") w := by
  obtain ⟨events, run⟩ := run_of_play h
  refine ⟨strictStart ctx, events, ?_, run⟩
  exact ⟨⟨1, 1⟩, bytes "mx", .implicit, some ctx, false, Cap.init, 0, 1000, .inr rfl, rfl⟩

end Conn

namespace OpenSsl

open Conn

variable {O : OpenSsl}

/-- The host name that is set on the engines of a connection. -/
def hostOf (settings : Settings (engine O)) (made : Made O) : Option Bytes :=
  hostSet made settings.actor settings.tlsTrustWithoutValidation

/-- An engine at the end of its handshake, with the chain the server sent: whether all the checks
pass that are made on it, and if not, how the first of them fails. -/
structure Endorsed (R : Rules O) (settings : Settings (engine O)) (made : Made O)
    (chain : CertChain O.Cert) (tls : SmtpTls O) : Prop where
  peer : R.peer tls.ssl = some chain
  validated : tls.certInfo.validated = true ↔
    ∀ check ∈ R.checks (hostOf settings made) chain, check.passes
  reason : tls.certInfo.validated = false → ∃ check,
    (R.checks (hostOf settings made) chain).find? (fun check => !check.passes) = some check
      ∧ tls.certInfo.failureReason = clip certReasonLen (O.errorString check.error)
  strict : settings.tlsTrustWithoutValidation = false → tls.certInfo.validated = true

/-- OpenSSL vets its peers. -/
theorem vets {R : Rules O} (hR : Documented R) (settings : Settings (engine O)) :
    Vets settings
      (fun tls : SmtpTls O => ∃ made : Made O,
        Kept (hostOf settings made) settings.actor settings.tlsTrustWithoutValidation tls)
      (fun tls : SmtpTls O => ∃ (made : Made O) (chain : CertChain O.Cert),
        Endorsed R settings made chain tls) where
  creates ctx made tls hctx hcreate := ⟨made, kept_create hcreate⟩
  shakes tls input hkept hstatus := by
    obtain ⟨made, hkept⟩ := hkept
    exact ⟨made, hkept.handshake input readBufSize⟩
  finishes tls input hkept hstatus := by
    obtain ⟨made, hkept⟩ := hkept
    obtain ⟨calls, chain, -, hpeer, -, -⟩ := hkept.finished hR hstatus
    obtain ⟨hvalidated, hreason, hstrict⟩ := hkept.verdict hR hstatus hpeer
    have htrust := (hkept.handshake input readBufSize).trust
    exact ⟨made, chain, hpeer, hvalidated, hreason, fun h => hstrict (htrust.trans h)⟩

end OpenSsl

namespace SChannel

open Conn SmtpTls

open OpenSsl (certFieldLen certReasonLen hostnameSize)

variable {S : Sspi}

/-- What SChannel documents of the validation it makes by itself: asked for no manual one, it
accepts only a server whose certificate it approves of for the host name. -/
structure Validates (S : Sspi) (approves : S.Cert → List UInt16 → Prop) : Prop where
  accepts : ∀ credHandle ctxt hostnameW input cert,
    (S.initializeSecurityContext credHandle ctxt hostnameW false input).status = .secEOk →
      S.remoteCert (S.initializeSecurityContext credHandle ctxt hostnameW false input).ctxt
        = some cert → approves cert hostnameW

/-- An engine of a connection with these settings that has not finished its handshake. -/
structure Pending (settings : Settings (engine S)) (tls : SmtpTls S) : Prop where
  trust : tls.trustWithoutValidation = settings.tlsTrustWithoutValidation
  hostnameW : S.multiByteToWideChar settings.actor hostnameSize = some tls.hostnameW
  certInfo : tls.certInfo = ⟨⟨true, [], []⟩, [], 0⟩

section Pending

variable {settings : Settings (engine S)} {tls tls' : SmtpTls S} {input : Bytes}

theorem pending_create {ctx : S.CredHandle} {made : Made S}
    (h : create S ctx made settings.actor settings.tlsTrustWithoutValidation = some tls) :
    Pending settings tls := by
  unfold create at h
  split at h
  · cases h
  split at h
  swap
  · cases h
  split at h
  · cases h
  rename_i hostnameW hwide
  cases h
  exact ⟨rfl, hwide, rfl⟩

/-- Settled by what stays as it is until the handshake is done. -/
theorem Pending.alike (h : Pending settings tls) (halike : Alike tls tls') :
    Pending settings tls' where
  trust := halike.trust.trans h.trust
  hostnameW := halike.hostnameW ▸ h.hostnameW
  certInfo := halike.certInfo.trans h.certInfo

theorem ctxtHandle_kept (tls : SmtpTls S) : tls.kept.ctxtHandle = tls.negotiated.ctxt := by
  unfold SmtpTls.kept SmtpTls.keepExtra
  split
  · rfl
  · split
    · rfl
    · rfl

/-- A call goes on with the handshake, or finishes it behind `SEC_E_OK`. -/
inductive Answers (tls : SmtpTls S) (input : Bytes) : TlsOutcome (SmtpTls S) → Prop where
  | refused (hfits : tls.accumulate input = none) : Answers tls input ⟨.error, [], tls⟩
  | goesOn {tls' : SmtpTls S} (hfits : tls.accumulate input = some tls')
      (status : TlsStatus) (hstatus : status ≠ .ok) (out : Bytes) :
      Answers tls input ⟨status, out, tls'.kept⟩
  | finishes {tls' : SmtpTls S} (hfits : tls.accumulate input = some tls')
      (hok : tls'.negotiated.status = .secEOk) :
      Answers tls input ⟨.ok, [], SmtpTls.populateCertInfo { tls'.kept with handshakeDone := true }⟩

theorem answers (tls : SmtpTls S) (input : Bytes) (outSize : Nat) :
    Answers tls input (tls.handshake input outSize) := by
  cases hfits : tls.accumulate input with
  | none =>
      rw [SmtpTls.handshake, handshakeCalls_of_refused hfits]
      exact .refused hfits
  | some tls' =>
      rw [handshake_eq hfits]
      unfold SmtpTls.report
      split
      · split
        · exact .goesOn hfits _ (by simp) _
        · exact .goesOn hfits _ (by simp) _
      split
      · rename_i hok
        exact .finishes hfits hok
      split
      · exact .goesOn hfits _ (by simp) _
      · exact .goesOn hfits _ (by simp) _

end Pending

/-- What is to be said of the certificate of the server, if SChannel shows it. -/
structure Vouched (approves : S.Cert → List UInt16 → Prop) (settings : Settings (engine S))
    (tls : SmtpTls S) : Prop where
  hostnameW : S.multiByteToWideChar settings.actor hostnameSize = some tls.hostnameW
  unseen : S.remoteCert tls.ctxtHandle = none →
    tls.certInfo.validated = true ∧ tls.certInfo.subject = []
  subject : ∀ cert, S.remoteCert tls.ctxtHandle = some cert →
    tls.certInfo.subject = S.subjectName cert certFieldLen
  strict : ∀ cert, S.remoteCert tls.ctxtHandle = some cert →
    settings.tlsTrustWithoutValidation = false →
      tls.certInfo.validated = true ∧ approves cert tls.hostnameW
  lenient : ∀ cert, S.remoteCert tls.ctxtHandle = some cert →
    settings.tlsTrustWithoutValidation = true →
      tls.certInfo.validated = (policyFailure S cert tls.hostnameW).isNone
        ∧ ∀ reason, policyFailure S cert tls.hostnameW = some reason →
          tls.certInfo.failureReason = reason

theorem approves_of_negotiated {approves : S.Cert → List UInt16 → Prop}
    (hS : Validates S approves) {tls : SmtpTls S} (htrust : tls.trustWithoutValidation = false)
    (hok : tls.negotiated.status = .secEOk) {cert : S.Cert}
    (hcert : S.remoteCert tls.negotiated.ctxt = some cert) : approves cert tls.hostnameW := by
  unfold SmtpTls.negotiated at hok hcert
  rw [htrust] at hok hcert
  exact hS.accepts _ _ _ _ _ hok hcert

/-- SChannel vets its peers. -/
theorem vets {approves : S.Cert → List UInt16 → Prop} (hS : Validates S approves)
    (settings : Settings (engine S)) :
    Vets settings (fun tls : SmtpTls S => Pending settings tls)
      (fun tls : SmtpTls S => Vouched approves settings tls) where
  creates ctx made tls hctx hcreate := pending_create hcreate
  shakes tls input hpending hstatus := by
    have hanswers := answers tls input readBufSize
    change (tls.handshake input readBufSize).status ≠ .ok at hstatus
    change Pending settings (tls.handshake input readBufSize).next
    generalize tls.handshake input readBufSize = outcome at hanswers hstatus ⊢
    cases hanswers with
    | refused => exact hpending
    | @goesOn tls' hfits => exact (hpending.alike (alike_accumulate hfits)).alike tls'.alike_kept
    | finishes => exact absurd rfl hstatus
  finishes tls input hpending hstatus := by
    have hanswers := answers tls input readBufSize
    change (tls.handshake input readBufSize).status = .ok at hstatus
    change Vouched approves settings (tls.handshake input readBufSize).next
    generalize tls.handshake input readBufSize = outcome at hanswers hstatus ⊢
    cases hanswers with
    | refused => cases hstatus
    | goesOn _ status hne => exact absurd hstatus hne
    | @finishes tls' hfits hok =>
        have hbefore := hpending.alike (alike_accumulate hfits)
        have hname : tls'.hostnameW = tls.hostnameW := (alike_accumulate hfits).hostnameW
        obtain ⟨hctxt, hnamed⟩ := populateCertInfo_handles { tls'.kept with handshakeDone := true }
        have hsame : SmtpTls.hostnameW _ = tls.hostnameW :=
          hnamed.trans (alike_done hfits).hostnameW
        have hdescribes := describes_populateCertInfo (alike_done hfits)
        refine ⟨hsame ▸ hpending.hostnameW, fun hcert => ?_, hdescribes.subject,
          fun cert hcert hstrict => ?_, fun cert hcert hlenient => ?_⟩
        · rw [hdescribes.unseen hcert, hpending.certInfo]
          exact ⟨rfl, rfl⟩
        · refine ⟨hdescribes.strict cert hcert (hpending.trust.trans hstrict), ?_⟩
          rw [hctxt] at hcert
          change S.remoteCert tls'.kept.ctxtHandle = some cert at hcert
          rw [ctxtHandle_kept] at hcert
          rw [hsame, ← hname]
          exact approves_of_negotiated hS (hbefore.trust.trans hstrict) hok hcert
        · rw [hsame]
          exact hdescribes.lenient cert hcert (hpending.trust.trans hlenient)

/-- **A session over SChannel is what its log says**, as far as SChannel shows the certificate of
the server. Nothing is encrypted, sent or decrypted before the one line about it. `TLS_OK` means that
SChannel itself has approved of the certificate, or without validation that the policy is met; it is
also what the log says where there is no certificate to look at, with an empty subject. A warning is
only found without validation, and tells why the policy is not met. -/
theorem vouched_session {approves : S.Cert → List UInt16 → Prop} (hS : Validates S approves)
    {identity : Bytes} {w : World (engine S)} (h : Reachable identity w) :
    Reported w.trace
      ∧ (w.conn.state = .ready → w.conn.tls.isSome = true →
        ∃ line ∈ w.trace, line.isCertLine = true)
      ∧ (∀ subject, .log .tlsOk subject ∈ w.trace → ∃ tls : SmtpTls S,
        ShakenAt w.conn.settings w.trace (.log .tlsOk subject) tls
          ∧ S.multiByteToWideChar w.conn.actor hostnameSize = some tls.hostnameW
          ∧ (S.remoteCert tls.ctxtHandle = none ∧ subject = []
            ∨ ∃ cert, S.remoteCert tls.ctxtHandle = some cert
              ∧ subject = S.subjectName cert certFieldLen
              ∧ if w.conn.tlsTrustWithoutValidation then
                  policyFailure S cert tls.hostnameW = none
                else approves cert tls.hostnameW))
      ∧ ∀ reason, .log .tlsCertWarning reason ∈ w.trace →
        w.conn.tlsTrustWithoutValidation = true ∧ ∃ (tls : SmtpTls S) (cert : S.Cert),
          ShakenAt w.conn.settings w.trace (.log .tlsCertWarning reason) tls
            ∧ S.multiByteToWideChar w.conn.actor hostnameSize = some tls.hostnameW
            ∧ S.remoteCert tls.ctxtHandle = some cert
            ∧ policyFailure S cert tls.hostnameW = some reason := by
  obtain ⟨t, hspeaks⟩ := (spoken_of_reachable h).speaks
  have hvets := vets hS w.conn.settings
  refine ⟨reported_of_path hspeaks, fun hready => ?_, fun subject hmem => ?_, fun reason hmem => ?_⟩
  · exact reported_of_secured h (by simp [hready]) (by simp [hready]) (by simp [hready])
  · obtain ⟨tls, hshaken, hvouched, heq⟩ := hvets.verdict_of_line hspeaks hmem rfl
    obtain ⟨hvalidated, hsubject⟩ := validated_of_tlsOk heq
    refine ⟨tls, hshaken, hvouched.hostnameW, ?_⟩
    cases hcert : S.remoteCert tls.ctxtHandle with
    | none => exact .inl ⟨rfl, hsubject.trans (hvouched.unseen hcert).2⟩
    | some cert =>
        refine .inr ⟨cert, rfl, hsubject.trans (hvouched.subject cert hcert), ?_⟩
        split
        · rename_i htrust
          have hmet := (hvouched.lenient cert hcert htrust).1.symm.trans hvalidated
          simpa using hmet
        · rename_i htrust
          exact (hvouched.strict cert hcert (eq_false_of_ne_true htrust)).2
  · obtain ⟨tls, hshaken, hvouched, heq⟩ := hvets.verdict_of_line hspeaks hmem rfl
    obtain ⟨hnot, hreason⟩ := not_validated_of_warning heq
    cases hcert : S.remoteCert tls.ctxtHandle with
    | none => exact absurd ((hvouched.unseen hcert).1.symm.trans hnot) (by simp)
    | some cert =>
        cases htrust : w.conn.tlsTrustWithoutValidation with
        | false =>
            have hvalidated := (hvouched.strict cert hcert htrust).1
            exact absurd (hvalidated.symm.trans hnot) (by simp)
        | true =>
            obtain ⟨hmet, htold⟩ := hvouched.lenient cert hcert htrust
            have hfails := hmet.symm.trans hnot
            obtain ⟨reason', hreason'⟩ : ∃ reason', policyFailure S cert tls.hostnameW
                = some reason' := by
              rw [← Option.isSome_iff_exists]
              simpa [Option.isSome_iff_ne_none] using hfails
            refine ⟨rfl, tls, cert, hshaken, hvouched.hostnameW, hcert, ?_⟩
            rw [hreason', ← htold reason' hreason']
            exact congrArg some hreason.symm

theorem certified_validates :
    Validates certifiedSspi fun _ hostnameW => hostnameW = (bytes "mx").map UInt8.toUInt16 where
  accepts credHandle ctxt hostnameW input cert hok hcert := by
    by_contra hother
    simp [certifiedSspi, hother] at hok

/-- A server with the certificate of the host, once SChannel has accepted its flight. -/
theorem vouched_session_strict : ∃ w : World (engine certifiedSspi),
    playStrict (E := engine certifiedSspi) () ⟨(), true⟩ [.connected, .sentAll,
        .received (RecordEngine.record RecordEngine.handshakeType (bytes "hello"))] = some w
      ∧ .log .tlsOk (bytes "CN=mx") ∈ w.trace
      ∧ ∃ tls : SmtpTls certifiedSspi,
        certifiedSspi.multiByteToWideChar w.conn.actor hostnameSize = some tls.hostnameW := by
  have hplay : (playStrict (E := engine certifiedSspi) () ⟨(), true⟩ [.connected, .sentAll,
      .received (RecordEngine.record RecordEngine.handshakeType (bytes "hello"))]).any
      (fun w => w.trace.contains (.log .tlsOk (bytes "CN=mx"))) = true := by decide +kernel
  obtain ⟨w, hw, hlogged⟩ := (Option.any_eq_true _ _).mp hplay
  have hmem : .log .tlsOk (bytes "CN=mx") ∈ w.trace := by simpa using hlogged
  obtain ⟨-, -, hok, -⟩ := vouched_session certified_validates (reachable_of_playStrict hw)
  obtain ⟨tls, -, hwide, -⟩ := hok _ hmem
  exact ⟨w, hw, hmem, tls, hwide⟩

end SChannel

end SmtpClient
