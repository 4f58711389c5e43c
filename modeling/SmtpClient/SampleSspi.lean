import SmtpClient.RecordEngine
import SmtpClient.SChannel

/-!
# A sample SSPI, and an OpenSSL for the same records

Both take the records of the sample record engine: a handshake is one flight either way, application
data comes in records of its own type, and an alert is a close_notify. A record of application data
may be empty, and the server may send handshake records after the handshake.
-/

namespace SmtpClient

open RecordEngine

theorem RecordEngine.length_takeRecord {raw content rest : Bytes} {type : UInt8}
    (h : takeRecord raw = some (type, content, rest)) :
    raw.length = 2 + content.length + rest.length := by
  unfold takeRecord at h
  split at h
  · split at h
    · rename_i hlength
      cases h
      simp only [List.length_cons, List.length_take, List.length_drop]
      omega
    · cases h
  · cases h

namespace SChannel

def SecBuffer.empty : SecBuffer := ⟨.secbufferEmpty, none, 0, nofun⟩

/-- A `SecBuffer` that points into the buffer it was made from. -/
def SecBuffer.at (bufferType : SecBufferType) (offset length : Nat) : SecBuffer :=
  ⟨bufferType, some offset, length, fun _ => rfl⟩

namespace SampleSspi

def negotiate (input : Option Bytes) : Initialized Unit (input.getD []).length :=
  match input with
  | none => ⟨.secIContinueNeeded, none, record handshakeType (bytes "hello"), (), nofun⟩
  | some input =>
      match h : takeRecord input with
      | none => ⟨.secEIncompleteMessage, none, [], (), nofun⟩
      | some (type, _, rest) =>
          if type = handshakeType then
            ⟨.secEOk, if rest = [] then none else some rest.length, [], (), by
              intro extra hextra
              have hlength := length_takeRecord h
              split at hextra
              · cases hextra
              · cases hextra
                simp only [Option.getD_some]
                omega⟩
          else ⟨.other 0, none, [], (), nofun⟩

/-- A header, the data and what follows the record; a record that is not data has none. -/
def buffers (type : UInt8) (content rest : Bytes) : Fin 4 → SecBuffer
  | 0 => .at (.other 7) 0 2
  | 1 => if type = dataType then .at .secbufferData 2 content.length else .empty
  | 2 => .empty
  | 3 => if rest = [] then .empty else .at .secbufferExtra (2 + content.length) rest.length

theorem within_buffers (type : UInt8) (content rest : Bytes) (i : Fin 4) :
    ∀ offset ∈ (buffers type content rest i).pvBuffer,
      offset + (buffers type content rest i).cbBuffer ≤ 2 + content.length + rest.length := by
  intro offset hoffset
  match i with
  | 0 =>
    cases hoffset
    change 0 + 2 ≤ _
    omega
  | 1 =>
    by_cases hdata : type = dataType
    · simp only [buffers, if_pos hdata] at hoffset ⊢
      cases hoffset
      exact Nat.le_add_right _ _
    · simp only [buffers, if_neg hdata] at hoffset
      cases hoffset
  | 2 => cases hoffset
  | 3 =>
    by_cases hrest : rest = []
    · simp only [buffers, if_pos hrest] at hoffset
      cases hoffset
    · simp only [buffers, if_neg hrest] at hoffset ⊢
      cases hoffset
      exact Nat.le_refl _

/-- Records are not encrypted. -/
def decryptMessage (input : Bytes) : Decrypted Unit input.length :=
  match h : takeRecord input with
  | none => ⟨.secEIncompleteMessage, input, fun _ => .empty, (), rfl, nofun⟩
  | some (type, content, rest) =>
      { status :=
          if type = alertType then .secIContextExpired
          else if type = dataType then .secEOk
          else if type = handshakeType then .secIRenegotiate
          else .other 0
        memory := input
        buffers := buffers type content rest
        ctxt := ()
        length_memory := rfl
        within := by
          rw [length_takeRecord h]
          exact within_buffers type content rest }

end SampleSspi

open SampleSspi

def sampleSspi : Sspi where
  CredHandle := Unit
  Entropy := Unit
  Ctxt := Unit
  Cert := Unit
  Chain := Unit
  invalidHandle _ := ()
  multiByteToWideChar text _ := some (text.map fun byte => byte.toUInt16)
  initializeSecurityContext _ _ _ _ input := negotiate input
  queryStreamSizes _ := some ⟨2, 0⟩
  encryptMessage _ sizes plaintext :=
    ⟨.secEOk, (record dataType plaintext).take
      (sizes.cbHeader + plaintext.length + sizes.cbTrailer), (), List.length_take_le ..⟩
  decryptMessage _ input := decryptMessage input
  remoteCert _ := none
  subjectName _ _ := []
  issuerName _ _ := []
  notAfter _ := 0
  certGetCertificateChain _ := none
  verifyChainPolicy _ _ := (true, 0)
  formatMessage _ _ := []

/-- The same with a certificate for one host, which is looked at unless that is left to the
backend. -/
def certifiedSspi : Sspi :=
  { sampleSspi with
    initializeSecurityContext := fun _ _ hostnameW manual input =>
      if manual || hostnameW == (bytes "mx").map UInt8.toUInt16 then negotiate input
      else ⟨.other 1, none, [], (), by simp⟩
    remoteCert := fun _ => some ()
    subjectName := fun _ n => clip n (bytes "CN=mx")
    issuerName := fun _ n => clip n (bytes "CN=ca")
    notAfter := fun _ => 133801632000000000 }

/-- A new engine over the first. -/
def sampleNew : SmtpTls sampleSspi where
  credHandle := ()
  ctxtHandle := ()
  ctxtHandleValid := false
  handshakeDone := false
  trustWithoutValidation := false
  hostname := bytes "h"
  hostnameW := [104]
  certInfo := ⟨⟨true, [], []⟩, [], 0⟩
  accum := .zero _
  accumLen := 0
  streamSizes := none
  hostname_lt := by decide

example : create sampleSspi () ⟨(), true⟩ (bytes "h") false = some sampleNew := rfl

/-- It has sent its flight and received that of the server. -/
def sampleTls : SmtpTls sampleSspi :=
  ((sampleNew.handshake [] 64).next.handshake (record handshakeType []) 64).next

end SChannel

namespace OpenSsl

/-- Reads one record. -/
def readRecord (raw : Bytes) (n : Nat) : SslRead Bytes :=
  match takeRecord raw with
  | none => ⟨[], .wantRead, raw⟩
  | some (type, content, rest) =>
      if type = alertType then ⟨[], .zeroReturn, rest⟩
      else if type = handshakeType ∨ content = [] then ⟨[], .wantRead, rest⟩
      else if type = dataType then
        ⟨content.take n, .none, if n < content.length then record type (content.drop n) ++ rest
          else rest⟩
      else ⟨[], .ssl, raw⟩

theorem length_readRecord_le (raw : Bytes) (n : Nat) : (readRecord raw n).data.length ≤ n := by
  unfold readRecord
  split
  · exact Nat.zero_le n
  split
  · exact Nat.zero_le n
  split
  · exact Nat.zero_le n
  split
  · exact List.length_take_le ..
  · exact Nat.zero_le n

/-- An OpenSSL whose `SSL` is what it has received and not read. -/
def recordSsl : OpenSsl where
  Ctx := Unit
  Entropy := Unit
  Ssl := Bytes
  Cert := Unit
  sslNew _ _ := some []
  setConnectState ssl := ssl
  setTlsextHostName ssl _ := ssl
  setVerify ssl := ssl
  set1Host ssl _ := ssl
  bioWrite ssl data := (data.length, ssl ++ data)
  bioRead ssl _ := ([], ssl)
  doHandshake ssl :=
    match takeRecord ssl with
    | none => .returns ⟨-1, .wantRead, ssl⟩
    | some (_, _, rest) => .returns ⟨1, .none, rest⟩
  sslWrite ssl plaintext := .returns ⟨plaintext.length, .none, ssl⟩
  sslRead ssl n := .returns (readRecord ssl n)
  subjectOneline _ _ := []
  issuerOneline _ _ := []
  notAfter _ := none
  errorString _ := []
  bioRead_le _ n := Nat.zero_le n
  sslRead_le ssl n _ _ htrace := by
    cases htrace
    exact length_readRecord_le ssl n

/-- An engine over it that has received the flight of the server. -/
def recordTls : SmtpTls recordSsl :=
  (SmtpTls.handshake ⟨[], false, false, bytes "h", ⟨⟨true, [], []⟩, [], 0⟩, by decide⟩
    (record handshakeType []) 64).next

end OpenSsl

end SmtpClient
