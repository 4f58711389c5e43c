import SmtpClient.OpenSsl

/-!
# The SChannel backend

`smtp_tls_schannel.c`, over SSPI as a parameter. A security context is a state, which a call on it
may change whatever it returns. SChannel keeps no partial input: what has arrived and was not
consumed is in `accum`, and both the handshake and the decryption pass it to SSPI. A `SecBuffer`
that `DecryptMessage` fills in points into the buffer it was given, by an offset.
-/

namespace SmtpClient

namespace SChannel

inductive SecurityStatus where
  | secEOk
  | secIContinueNeeded
  | secEIncompleteMessage
  | secIContextExpired
  | secIRenegotiate
  | other (code : Nat)
  deriving DecidableEq, Repr

inductive SecBufferType where
  | secbufferEmpty
  | secbufferData
  | secbufferExtra
  | other (code : Nat)
  deriving DecidableEq, Repr

structure SecBuffer where
  bufferType : SecBufferType
  pvBuffer : Option Nat
  cbBuffer : Nat
  points : 0 < cbBuffer → pvBuffer.isSome = true

/-- What `InitializeSecurityContextW` leaves, given `n` bytes: how many of them `in_buffers[1]`
reports as `SECBUFFER_EXTRA`, if it does, and the token in `out_buffers[0]`. -/
structure Initialized (σ : Type) (n : Nat) where
  status : SecurityStatus
  extra : Option Nat
  token : Bytes
  ctxt : σ
  extra_le : ∀ extra' ∈ extra, extra' ≤ n

/-- What `DecryptMessage` leaves, given `n` bytes: these bytes, decrypted in place, and the four
buffers. -/
structure Decrypted (σ : Type) (n : Nat) where
  status : SecurityStatus
  memory : Bytes
  buffers : Fin 4 → SecBuffer
  ctxt : σ
  length_memory : memory.length = n
  within : ∀ i, ∀ offset ∈ (buffers i).pvBuffer, offset + (buffers i).cbBuffer ≤ n

/-- A call of `InitializeSecurityContextW`: the bytes in its input buffers, if it is given any, and
what it answers. -/
structure Negotiation where
  input : Option Bytes
  status : SecurityStatus
  token : Bytes
  deriving DecidableEq, Repr

structure StreamSizes where
  cbHeader : Nat
  cbTrailer : Nat
  deriving DecidableEq, Repr

/-- What `EncryptMessage` leaves in `n` bytes of room. -/
structure Encrypted (σ : Type) (n : Nat) where
  status : SecurityStatus
  out : Bytes
  ctxt : σ
  length_out_le : out.length ≤ n

end SChannel

open SChannel

/-- SSPI and the certificate functions, as far as the backend uses them. -/
structure Sspi where
  CredHandle : Type
  Entropy : Type
  Ctxt : Type
  Cert : Type
  Chain : Type
  /-- `SecInvalidateHandle`: no context yet. -/
  invalidHandle : Entropy → Ctxt
  /-- `MultiByteToWideChar` into an array of this size, unless it fails. -/
  multiByteToWideChar : Bytes → Nat → Option (List UInt16)
  /-- The first call has no input; one on a context gives it what has arrived. -/
  initializeSecurityContext : CredHandle → Ctxt → (hostname : List UInt16) →
    (manualCredValidation : Bool) → (input : Option Bytes) →
    Initialized Ctxt (input.getD []).length
  queryStreamSizes : Ctxt → Option StreamSizes
  encryptMessage : Ctxt → (sizes : StreamSizes) → (plaintext : Bytes) →
    Encrypted Ctxt (sizes.cbHeader + plaintext.length + sizes.cbTrailer)
  decryptMessage : Ctxt → (input : Bytes) → Decrypted Ctxt input.length
  /-- `SECPKG_ATTR_REMOTE_CERT_CONTEXT`, if the query succeeds. -/
  remoteCert : Ctxt → Option Cert
  subjectName : Cert → Nat → Bytes
  issuerName : Cert → Nat → Bytes
  /-- `NotAfter`, as a `FILETIME`. -/
  notAfter : Cert → UInt64
  certGetCertificateChain : Cert → Option Chain
  /-- `CertVerifyCertificateChainPolicy`, and the `dwError` of its status. -/
  verifyChainPolicy : Chain → (serverName : List UInt16) → Bool × Nat
  /-- `FormatMessageA` into an array of this size; no text if it fails. -/
  formatMessage : Nat → Nat → Bytes

namespace SChannel

open OpenSsl (CertInfo certFieldLen certReasonLen hostnameSize)

/-- `SMTP_TLS_ACCUM_SIZE`. -/
def accumSize : Nat := 18432

/-- `struct smtp_tls`; `stream_sizes` once they are valid. -/
structure SmtpTls (S : Sspi) where
  credHandle : S.CredHandle
  ctxtHandle : S.Ctxt
  ctxtHandleValid : Bool
  handshakeDone : Bool
  trustWithoutValidation : Bool
  hostname : Bytes
  hostnameW : List UInt16
  certInfo : CertInfo
  accum : Buffer accumSize
  accumLen : Nat
  streamSizes : Option StreamSizes
  hostname_lt : hostname.length < hostnameSize

variable {S : Sspi}

/-- Whether there is memory for the engine, and what its context will depend on. -/
structure Made (S : Sspi) where
  entropy : S.Entropy
  engine : Bool

/-- `smtp_tls_create`. -/
def create (S : Sspi) (credHandle : S.CredHandle) (made : Made S) (hostname : Bytes)
    (trustWithoutValidation : Bool) : Option (SmtpTls S) :=
  if !made.engine then none
  else if hlength : hostname.length < hostnameSize then
    match S.multiByteToWideChar hostname hostnameSize with
    | none => none
    | some hostnameW =>
        some
          { credHandle := credHandle
            ctxtHandle := S.invalidHandle made.entropy
            ctxtHandleValid := false
            handshakeDone := false
            trustWithoutValidation := trustWithoutValidation
            hostname := hostname
            hostnameW := hostnameW
            certInfo := ⟨⟨true, [], []⟩, [], 0⟩
            accum := .zero _
            accumLen := 0
            streamSizes := none
            hostname_lt := hlength }
  else none

/-- The seconds since 1970 of a `FILETIME`, as a `long`. -/
def unixTime (fileTime : UInt64) : Int :=
  (fileTime / 10000000 - 11644473600).toUInt32.toInt32.toInt

/-- Why a policy is not met, in the words of the system if it has any. -/
def policyReason (S : Sspi) (dwError : Nat) : Bytes :=
  let text := S.formatMessage dwError certReasonLen
  if text.length = 0 then
    clip certReasonLen (bytes "certificate validation failed (0x"
      ++ bytes (String.ofList (Nat.toDigits 16 dwError)) ++ bytes ")")
  else text

/-- `FormatMessageA` or `snprintf` fills a `char[SMTP_TLS_CERT_REASON_LEN]`, of which a field of the
same size takes a copy. -/
def failureReason (S : Sspi) (dwError : Nat) : Bytes :=
  clip certReasonLen (policyReason S dwError)

namespace SmtpTls

/-- `smtp_tls_populate_cert_info`. -/
def populateCertInfo (tls : SmtpTls S) : SmtpTls S :=
  match S.remoteCert tls.ctxtHandle with
  | none => tls
  | some cert =>
      let info : CertInfo := { tls.certInfo with
        subject := S.subjectName cert certFieldLen
        issuer := S.issuerName cert certFieldLen
        notAfter := unixTime (S.notAfter cert) }
      if !tls.trustWithoutValidation then { tls with certInfo := { info with validated := true } }
      else
        match S.certGetCertificateChain cert with
        | none =>
            { tls with certInfo := { info with
                validated := false
                failureReason := clip certReasonLen (bytes "failed to build certificate chain") } }
        | some chain =>
            let (verified, dwError) := S.verifyChainPolicy chain tls.hostnameW
            if verified && dwError == 0 then
              { tls with certInfo := { info with validated := true } }
            else
              { tls with certInfo := { info with
                  validated := false
                  failureReason := SChannel.failureReason S dwError } }

/-- `accum[0 .. accum_len)`. -/
def pending (tls : SmtpTls S) : Bytes := tls.accum.slice 0 tls.accumLen

/-- What `smtp_tls_handshake` and `smtp_tls_decrypt` begin with; `none` if the input does not fit. -/
def accumulate (tls : SmtpTls S) (input : Bytes) : Option (SmtpTls S) :=
  if 0 < input.length then
    if accumSize < tls.accumLen + input.length then none
    else
      some { tls with
        accum := tls.accum.blit tls.accumLen input
        accumLen := tls.accumLen + input.length }
  else some tls

/-- What a handshake call keeps of its input. On the first call the input buffers are not passed, so
none of them comes back as `SECBUFFER_EXTRA`. -/
def keepExtra (tls : SmtpTls S) (status : SecurityStatus) (extra : Option Nat) : SmtpTls S :=
  match extra with
  | some extra =>
      let consumed := tls.accumLen - extra
      { tls with
        accum := tls.accum.blit 0 (tls.accum.slice consumed extra)
        accumLen := extra }
  | none => if status ≠ .secEIncompleteMessage then { tls with accumLen := 0 } else tls

/-- How `smtp_tls_handshake` ends: with the output, if there is any, whatever the status. -/
def report (tls : SmtpTls S) (status : SecurityStatus) (token : Bytes) (outSize : Nat) :
    TlsOutcome (SmtpTls S) :=
  if 0 < token.length then
    if outSize < token.length then ⟨.error, [], tls⟩ else ⟨.wantWrite, token, tls⟩
  else if status = .secEOk then
    ⟨.ok, [], SmtpTls.populateCertInfo { tls with handshakeDone := true }⟩
  else if status = .secIContinueNeeded ∨ status = .secEIncompleteMessage then ⟨.wantRead, [], tls⟩
  else ⟨.error, [], tls⟩

/-- `smtp_tls_handshake`, with the calls of `InitializeSecurityContextW` it makes. -/
def handshakeCalls (tls : SmtpTls S) (input : Bytes) (outSize : Nat) :
    List Negotiation × TlsOutcome (SmtpTls S) :=
  match tls.accumulate input with
  | none => ([], ⟨.error, [], tls⟩)
  | some tls =>
      let firstCall := !tls.ctxtHandleValid
      let given := if firstCall then none else some tls.pending
      let result := S.initializeSecurityContext tls.credHandle tls.ctxtHandle tls.hostnameW
        tls.trustWithoutValidation given
      let tls := { tls with
        ctxtHandle := result.ctxt
        ctxtHandleValid := tls.ctxtHandleValid
          || result.status == SecurityStatus.secEOk
          || result.status == SecurityStatus.secIContinueNeeded }
      let tls := tls.keepExtra result.status (if firstCall then none else result.extra)
      ([⟨given, result.status, result.token⟩], tls.report result.status result.token outSize)

def handshake (tls : SmtpTls S) (input : Bytes) (outSize : Nat) : TlsOutcome (SmtpTls S) :=
  (tls.handshakeCalls input outSize).2

/-- `smtp_tls_encrypt`. -/
def encrypt (tls : SmtpTls S) (plaintext : Bytes) (outSize : Nat) : TlsOutcome (SmtpTls S) :=
  match tls.streamSizes.or (S.queryStreamSizes tls.ctxtHandle) with
  | none => ⟨.error, [], tls⟩
  | some sizes =>
      let tls := { tls with streamSizes := some sizes }
      if outSize < sizes.cbHeader + plaintext.length + sizes.cbTrailer then ⟨.error, [], tls⟩
      else
        let result := S.encryptMessage tls.ctxtHandle sizes plaintext
        let tls := { tls with ctxtHandle := result.ctxt }
        if result.status ≠ .secEOk then ⟨.error, [], tls⟩
        else ⟨.wantWrite, result.out, tls⟩

end SmtpTls

/-- The pointers and lengths that `smtp_tls_decrypt` picks out of the buffers. -/
structure Picked where
  plaintextPtr : Option Nat
  plaintextLen : Nat
  extraPtr : Option Nat
  extraLen : Nat

/-- The body of the loop over the buffers. -/
def pick (picked : Picked) (buffer : SecBuffer) : Picked :=
  if buffer.bufferType = .secbufferData then
    { picked with plaintextPtr := buffer.pvBuffer, plaintextLen := buffer.cbBuffer }
  else if buffer.bufferType = .secbufferExtra then
    { picked with extraPtr := buffer.pvBuffer, extraLen := buffer.cbBuffer }
  else picked

def pickAll (buffers : Fin 4 → SecBuffer) : Picked :=
  (List.ofFn buffers).foldl pick ⟨none, 0, none, 0⟩

namespace SmtpTls

/-- The `length` bytes of `accum` at a pointer, unless it is NULL. -/
def bytesAt (tls : SmtpTls S) (ptr : Option Nat) (length : Nat) : Bytes :=
  match ptr with
  | none => []
  | some offset => tls.accum.slice offset length

/-- `smtp_tls_decrypt`. -/
def decrypt (tls : SmtpTls S) (input : Bytes) (outSize : Nat) : TlsOutcome (SmtpTls S) :=
  match tls.accumulate input with
  | none => ⟨.error, [], tls⟩
  | some tls =>
      let result := S.decryptMessage tls.ctxtHandle tls.pending
      let tls := { tls with ctxtHandle := result.ctxt, accum := tls.accum.blit 0 result.memory }
      if result.status = .secEIncompleteMessage then ⟨.wantRead, [], tls⟩
      else if result.status = .secIContextExpired then ⟨.ok, [], { tls with accumLen := 0 }⟩
      else if result.status ≠ .secEOk ∧ result.status ≠ .secIRenegotiate then ⟨.error, [], tls⟩
      else
        let picked := pickAll result.buffers
        if outSize < picked.plaintextLen then ⟨.error, [], tls⟩
        else
          ⟨.ok, tls.bytesAt picked.plaintextPtr picked.plaintextLen,
            { tls with
              accum := tls.accum.blit 0 (tls.bytesAt picked.extraPtr picked.extraLen)
              accumLen := picked.extraLen }⟩

end SmtpTls

end SChannel

end SmtpClient
