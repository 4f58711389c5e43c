import SmtpClient.Base.Buffer

/-!
# The TLS engine interface

`smtp_tls.h`. The engine is a pure memory-buffer transform with a state of its own, and everything
above it is proved for an arbitrary one. The laws it carries are those both backends keep: no call
writes past the buffer it was given, a handshake that returns `SMTP_TLS_OK` has set
`handshake_done`, and nothing clears that flag again.
-/

namespace SmtpClient

inductive TlsMode where
  | none
  | opportunistic
  | explicit
  | implicit
  deriving DecidableEq, Repr

inductive TlsStatus where
  | ok
  | wantRead
  | wantWrite
  | error
  deriving DecidableEq, Repr

/-- The fields of `smtp_tls_cert_info` that are logged. -/
structure TlsCertInfo where
  validated : Bool
  failureReason : Bytes
  subject : Bytes
  deriving DecidableEq, Repr

/-- What a call on the engine leaves: its status, the bytes in `out_buf`, and its next state. -/
structure TlsOutcome (σ : Type) where
  status : TlsStatus
  out : Bytes
  next : σ

/-- A TLS backend. `Entropy` is whatever a call to `create` depends on besides its arguments. -/
structure TlsEngine where
  Ctx : Type
  Entropy : Type
  State : Type
  create : Ctx → Entropy → (hostname : Bytes) → (trustWithoutValidation : Bool) → Option State
  handshakeDone : State → Bool
  handshake : State → (input : Bytes) → (outSize : Nat) → TlsOutcome State
  encrypt : State → (plaintext : Bytes) → (outSize : Nat) → TlsOutcome State
  decrypt : State → (input : Bytes) → (outSize : Nat) → TlsOutcome State
  certInfo : State → TlsCertInfo
  handshake_out_le : ∀ s input n, (handshake s input n).out.length ≤ n
  encrypt_out_le : ∀ s plaintext n, (encrypt s plaintext n).out.length ≤ n
  decrypt_out_le : ∀ s input n, (decrypt s input n).out.length ≤ n
  handshakeDone_of_ok : ∀ s input n, (handshake s input n).status = .ok →
    handshakeDone (handshake s input n).next = true
  handshakeDone_encrypt : ∀ s plaintext n, handshakeDone s = true →
    handshakeDone (encrypt s plaintext n).next = true
  handshakeDone_decrypt : ∀ s input n, handshakeDone s = true →
    handshakeDone (decrypt s input n).next = true

end SmtpClient
