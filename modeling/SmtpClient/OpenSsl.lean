import SmtpClient.Base.Callback
import SmtpClient.Tls

/-!
# The OpenSSL backend

`smtp_tls_openssl.c`, over OpenSSL as a parameter. An `SSL` is a state with its BIO pair; a call on
it may invoke the verify callback, and goes on with what it answers.
-/

namespace SmtpClient

namespace OpenSsl

/-- `X509_V_OK`. -/
def verifyOk : Nat := 0

/-- `X509_V_ERR_HOSTNAME_MISMATCH`. -/
def hostnameMismatch : Nat := 62

/-- A check on a certificate, and the error it ends in. -/
structure Check (κ : Type) where
  depth : Nat
  cert : Option κ
  error : Nat
  deriving DecidableEq, Repr

def Check.passes {κ : Type} (check : Check κ) : Bool := check.error == verifyOk

/-- An invocation of the verify callback: `preverify_ok`, and what the `X509_STORE_CTX` tells. -/
structure VerifyCall (κ : Type) where
  preverifyOk : Bool
  check : Check κ
  deriving DecidableEq, Repr

/-- The certificates of a server. -/
structure CertChain (κ : Type) where
  leaf : κ
  issuers : List κ
  deriving DecidableEq, Repr

/-- `SSL_get_error`. -/
inductive SslError where
  | none
  | wantRead
  | wantWrite
  | zeroReturn
  | syscall
  | ssl
  deriving DecidableEq, Repr

structure SslResult (σ : Type) where
  rc : Int
  error : SslError
  ssl : σ

/-- What `SSL_read` leaves; it returns the number of bytes read if there are any. -/
structure SslRead (σ : Type) where
  data : Bytes
  error : SslError
  ssl : σ

end OpenSsl

open OpenSsl

/-- OpenSSL, as far as the backend uses it. -/
structure OpenSsl where
  Ctx : Type
  Entropy : Type
  Ssl : Type
  Cert : Type
  sslNew : Ctx → Entropy → Option Ssl
  setConnectState : Ssl → Ssl
  setTlsextHostName : Ssl → Bytes → Ssl
  /-- `SSL_set_verify` with `SSL_VERIFY_PEER`. -/
  setVerify : Ssl → Ssl
  /-- `X509_VERIFY_PARAM_set1_host`, where it succeeds. -/
  set1Host : Ssl → Bytes → Ssl
  bioWrite : Ssl → Bytes → Int × Ssl
  bioRead : Ssl → Nat → Bytes × Ssl
  doHandshake : Ssl → Callback (VerifyCall Cert) Bool (SslResult Ssl)
  sslWrite : Ssl → Bytes → Callback (VerifyCall Cert) Bool (SslResult Ssl)
  sslRead : Ssl → Nat → Callback (VerifyCall Cert) Bool (SslRead Ssl)
  subjectOneline : Cert → Nat → Bytes
  issuerOneline : Cert → Nat → Bytes
  /-- `timegm` of what `ASN1_TIME_to_tm` makes of `X509_get0_notAfter`. -/
  notAfter : Cert → Option Int
  /-- `X509_verify_cert_error_string`. -/
  errorString : Nat → Bytes
  bioRead_le : ∀ ssl n, (bioRead ssl n).1.length ≤ n
  sslRead_le : ∀ ssl n trace result, (sslRead ssl n).Traces trace result → result.data.length ≤ n

namespace OpenSsl

/-- `sizeof(tls->hostname)`. -/
def hostnameSize : Nat := 256

/-- `SMTP_TLS_CERT_FIELD_LEN`. -/
def certFieldLen : Nat := 256

/-- `SMTP_TLS_CERT_REASON_LEN`. -/
def certReasonLen : Nat := 128

/-- `smtp_tls_cert_info`. -/
structure CertInfo extends TlsCertInfo where
  issuer : Bytes
  notAfter : Int
  deriving DecidableEq, Repr

/-- `struct smtp_tls`. -/
structure SmtpTls (O : OpenSsl) where
  ssl : O.Ssl
  handshakeDone : Bool
  trustWithoutValidation : Bool
  hostname : Bytes
  certInfo : CertInfo
  hostname_lt : hostname.length < hostnameSize

variable {O : OpenSsl}

/-- What the calls answer that `smtp_tls_create` makes: whether there is memory for the engine, a
BIO pair, and the host name. -/
structure Made (O : OpenSsl) where
  entropy : O.Entropy
  engine : Bool
  bioPair : Bool
  host : Bool

/-- `SSL_new`, and what `smtp_tls_create` sets on it. -/
def configure (O : OpenSsl) (ssl : O.Ssl) (hostname : Bytes) : O.Ssl :=
  O.setVerify (O.setTlsextHostName (O.setConnectState ssl) hostname)

/-- `smtp_tls_create`. -/
def create (O : OpenSsl) (ctx : O.Ctx) (made : Made O) (hostname : Bytes)
    (trustWithoutValidation : Bool) : Option (SmtpTls O) :=
  if !made.engine then none
  else if hlength : hostname.length < hostnameSize then
    match O.sslNew ctx made.entropy with
    | none => none
    | some ssl =>
        if !made.bioPair then none
        else
          let ssl := configure O ssl hostname
          some
            { ssl :=
                if !trustWithoutValidation then
                  -- what it returns is not looked at
                  if made.host then O.set1Host ssl hostname else ssl
                else ssl
              handshakeDone := false
              trustWithoutValidation := trustWithoutValidation
              hostname := hostname
              certInfo := ⟨⟨true, [], []⟩, [], 0⟩
              hostname_lt := hlength }
  else none

namespace SmtpTls

/-- What the verify callback keeps of the leaf. -/
def inspect (tls : SmtpTls O) (check : Check O.Cert) : SmtpTls O :=
  if check.depth = 0 then
    match check.cert with
    | none => tls
    | some cert =>
        { tls with certInfo := { tls.certInfo with
            subject := O.subjectOneline cert certFieldLen
            issuer := O.issuerOneline cert certFieldLen
            notAfter := (O.notAfter cert).getD tls.certInfo.notAfter } }
  else tls

/-- `smtp_tls_verify_callback`. -/
def verifyCallback (tls : SmtpTls O) (call : VerifyCall O.Cert) : Bool × SmtpTls O :=
  let tls := tls.inspect call.check
  let tls :=
    if !call.preverifyOk && tls.certInfo.validated then
      { tls with certInfo := { tls.certInfo with
          validated := false
          failureReason := clip certReasonLen (O.errorString call.check.error) } }
    else tls
  (if tls.trustWithoutValidation then true else call.preverifyOk, tls)

/-- `smtp_tls_feed_input`. -/
def feedInput (tls : SmtpTls O) (data : Bytes) : Bool × SmtpTls O :=
  if data.length = 0 then (true, tls)
  else
    let (n, ssl) := O.bioWrite tls.ssl data
    (n == data.length, { tls with ssl := ssl })

/-- `smtp_tls_drain_output`. -/
def drainOutput (tls : SmtpTls O) (outSize : Nat) : Bytes × SmtpTls O :=
  let (out, ssl) := O.bioRead tls.ssl outSize
  (out, { tls with ssl := ssl })

/-- `SSL_do_handshake`, which calls back into `tls`. -/
def doHandshake (tls : SmtpTls O) : SslResult O.Ssl × SmtpTls O :=
  let (result, tls) := (O.doHandshake tls.ssl).run verifyCallback tls
  (result, { tls with ssl := result.ssl })

/-- `smtp_tls_handshake`. -/
def handshake (tls : SmtpTls O) (input : Bytes) (outSize : Nat) : TlsOutcome (SmtpTls O) :=
  let (fed, tls) := tls.feedInput input
  if !fed then ⟨.error, [], tls⟩
  else
    let (result, tls) := tls.doHandshake
    let (drained, tls) := tls.drainOutput outSize
    if drained.length > 0 then ⟨.wantWrite, drained, tls⟩
    else if result.rc = 1 then ⟨.ok, [], { tls with handshakeDone := true }⟩
    else if result.error = .wantRead then ⟨.wantRead, [], tls⟩
    else if result.error = .wantWrite then ⟨.wantRead, [], tls⟩
    else ⟨.error, [], tls⟩

/-- `SSL_write`: whether it fails for good. -/
def sslWrite (tls : SmtpTls O) (plaintext : Bytes) : Bool × SmtpTls O :=
  let (result, tls) := (O.sslWrite tls.ssl plaintext).run verifyCallback tls
  (decide (result.rc ≤ 0 ∧ result.error ≠ .wantRead ∧ result.error ≠ .wantWrite),
    { tls with ssl := result.ssl })

/-- `smtp_tls_encrypt`. -/
def encrypt (tls : SmtpTls O) (plaintext : Bytes) (outSize : Nat) : TlsOutcome (SmtpTls O) :=
  let (failed, tls) := if plaintext.length > 0 then tls.sslWrite plaintext else (false, tls)
  if failed then ⟨.error, [], tls⟩
  else
    let (drained, tls) := tls.drainOutput outSize
    if drained.length > 0 then ⟨.wantWrite, drained, tls⟩
    else ⟨.wantRead, [], tls⟩

/-- `smtp_tls_decrypt`. -/
def decrypt (tls : SmtpTls O) (input : Bytes) (outSize : Nat) : TlsOutcome (SmtpTls O) :=
  let (fed, tls) := tls.feedInput input
  if !fed then ⟨.error, [], tls⟩
  else
    let (result, tls) := (O.sslRead tls.ssl outSize).run verifyCallback tls
    let tls := { tls with ssl := result.ssl }
    if result.data.length > 0 then ⟨.ok, result.data, tls⟩
    else if result.error = .wantRead then ⟨.wantRead, [], tls⟩
    else if result.error = .zeroReturn then ⟨.ok, [], tls⟩
    else ⟨.error, [], tls⟩

end SmtpTls

/-- An engine behind calls of `smtp_tls_handshake`. -/
inductive Handshaken (tls : SmtpTls O) : SmtpTls O → Prop where
  | created : Handshaken tls tls
  | handshake {tls' : SmtpTls O} (before : Handshaken tls tls') (input : Bytes) (outSize : Nat) :
      Handshaken tls (tls'.handshake input outSize).next

/-! ### What OpenSSL documents -/

/-- How OpenSSL judges a chain: the checks on the certificates, in their order, how many of them
come before that of the host name, and `X509_check_host`; and the chain it was sent. -/
structure Rules (O : OpenSsl) where
  peer : O.Ssl → Option (CertChain O.Cert)
  chainChecks : CertChain O.Cert → List (Check O.Cert)
  hostPlace : CertChain O.Cert → Nat
  checkHost : O.Cert → Bytes → Bool

namespace Rules

variable (R : Rules O)

def hostCheck (chain : CertChain O.Cert) (name : Bytes) : Check O.Cert :=
  ⟨0, some chain.leaf, if R.checkHost chain.leaf name then verifyOk else hostnameMismatch⟩

/-- The checks that are made on a chain, where this host name is set. -/
def checks (host : Option Bytes) (chain : CertChain O.Cert) : List (Check O.Cert) :=
  match host with
  | none => R.chainChecks chain
  | some name =>
      (R.chainChecks chain).take (R.hostPlace chain) ++ R.hostCheck chain name
        :: (R.chainChecks chain).drop (R.hostPlace chain)

end Rules

/-- The failures that were reported. -/
def failing {κ : Type} (calls : List (VerifyCall κ × Bool)) : List (Check κ) :=
  ((calls.map Prod.fst).filter fun call => !call.preverifyOk).map VerifyCall.check

/-- An `SSL` with what it was configured for and the calls it has made, with their answers. An empty
host name is none. -/
inductive History (O : OpenSsl) :
    Option Bytes → List (VerifyCall O.Cert × Bool) → O.Ssl → Prop where
  | configured {ctx : O.Ctx} {entropy : O.Entropy} {ssl : O.Ssl}
      (h : O.sslNew ctx entropy = some ssl) (sni : Bytes) : History O none [] (configure O ssl sni)
  | set1Host {ctx : O.Ctx} {entropy : O.Entropy} {ssl : O.Ssl}
      (h : O.sslNew ctx entropy = some ssl) (sni name : Bytes) :
      History O (if name = [] then none else some name) [] (O.set1Host (configure O ssl sni) name)
  | bioWrite {host : Option Bytes} {calls : List (VerifyCall O.Cert × Bool)} {ssl : O.Ssl}
      (before : History O host calls ssl) (data : Bytes) :
      History O host calls (O.bioWrite ssl data).2
  | bioRead {host : Option Bytes} {calls : List (VerifyCall O.Cert × Bool)} {ssl : O.Ssl}
      (before : History O host calls ssl) (n : Nat) : History O host calls (O.bioRead ssl n).2
  | doHandshake {host : Option Bytes} {calls calls' : List (VerifyCall O.Cert × Bool)} {ssl : O.Ssl}
      {result : SslResult O.Ssl} (before : History O host calls ssl)
      (traces : (O.doHandshake ssl).Traces calls' result) :
      History O host (calls ++ calls') result.ssl

/-- What the backend relies on. -/
structure Documented (R : Rules O) : Prop where
  peer_bioRead : ∀ ssl n, R.peer (O.bioRead ssl n).2 = R.peer ssl
  /-- A handshake ends well only behind a callback for each check that fails. -/
  reports : ∀ host calls ssl calls' result, History O host calls ssl →
    (O.doHandshake ssl).Traces calls' result → result.rc = 1 →
      ∃ chain, R.peer result.ssl = some chain
        ∧ failing (calls ++ calls') = (R.checks host chain).filter fun check => !check.passes
  /-- It fails where the callback returns 0. -/
  fails : ∀ host calls ssl calls' result, History O host calls ssl →
    (O.doHandshake ssl).Traces calls' result → (∃ call, (call, false) ∈ calls ++ calls') →
      result.rc ≠ 1

end OpenSsl

end SmtpClient
