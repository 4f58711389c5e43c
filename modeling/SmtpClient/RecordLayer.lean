import SmtpClient.Tls

/-!
# Engines that read records

What `SSL_read` and its like document, for an engine whose state can be looked into: the input
completes records of application data, which are handed out in order, at most one a call and no more
of it than there is room for; what is not handed out stays in the engine, and more input is asked
for only when no complete record is left.
-/

namespace SmtpClient

structure RecordLayer (E : TlsEngine) where
  /-- The plaintext of the complete records an engine has not handed out, in order. -/
  held : E.State → List Bytes
  /-- The records an input completes. -/
  arriving : E.State → Bytes → List Bytes
  held_handshake : ∀ tls input n, (E.handshake tls input n).status ≠ .error →
    held (E.handshake tls input n).next = held tls ++ arriving tls input
  handshake_wantRead : ∀ tls input n, (E.handshake tls input n).status = .wantRead →
    held tls ++ arriving tls input = []
  held_encrypt : ∀ tls plaintext n, held (E.encrypt tls plaintext n).next = held tls
  decrypt_wantRead : ∀ tls input n, (E.decrypt tls input n).status = .wantRead →
    held (E.decrypt tls input n).next = [] ∧ held tls ++ arriving tls input = []
  decrypt_ok : ∀ tls input n, (E.decrypt tls input n).status = .ok →
    (E.decrypt tls input n).out = []
      ∨ ∃ first rest, held tls ++ arriving tls input = first :: rest
        ∧ (E.decrypt tls input n).out = first.take n
        ∧ held (E.decrypt tls input n).next
          = if n < first.length then first.drop n :: rest else rest

end SmtpClient
