import Mathlib.Data.List.Induction
import SmtpClient.SampleSspi
import SmtpClient.Base.Lockstep
import SmtpClient.Proof.CertInfo
import SmtpClient.Proof.PeerClose

/-!
# What zero bytes of plaintext mean

`SMTP_TLS_OK` without plaintext stands for the peer's close, and the connection takes it for one.
Over OpenSSL it is returned for a close_notify only. Over SChannel it is returned for every message
that `DecryptMessage` accepts and that carries no application data, so that what the connection is
told is right exactly as long as there is no such message.

What OpenSSL has met is what `SSL_get_error` says it has. That is so as long as the error queue of
the thread is empty before the call, and the backend never empties it.
-/

namespace SmtpClient

/-! ### The SChannel backend behind the engine interface -/

namespace SChannel

variable {S : Sspi}

namespace SmtpTls

variable {tls tls' : SmtpTls S} {input : Bytes} {outSize : Nat}

theorem handshakeDone_accumulate (h : tls.accumulate input = some tls') :
    tls'.handshakeDone = tls.handshakeDone := by
  rw [accumulate] at h
  split at h
  · split at h
    · cases h
    · cases h
      rfl
  · cases h
    rfl

/-- What `DecryptMessage` makes of the bytes that have arrived. -/
def message (tls : SmtpTls S) : Decrypted S.Ctxt tls.pending.length :=
  S.decryptMessage tls.ctxtHandle tls.pending

def decrypted (tls : SmtpTls S) : SmtpTls S :=
  { tls with ctxtHandle := tls.message.ctxt, accum := tls.accum.blit 0 tls.message.memory }

/-- What follows the record is kept. -/
def delivered (tls : SmtpTls S) : SmtpTls S :=
  let picked := pickAll tls.message.buffers
  { tls.decrypted with
    accum := tls.decrypted.accum.blit 0 (tls.decrypted.bytesAt picked.extraPtr picked.extraLen)
    accumLen := picked.extraLen }

/-- The exits of `smtp_tls_decrypt`. -/
inductive Decrypts (tls : SmtpTls S) (input : Bytes) (outSize : Nat) :
    TlsOutcome (SmtpTls S) → Prop where
  | refused (hfits : tls.accumulate input = none) : Decrypts tls input outSize ⟨.error, [], tls⟩
  | incomplete {tls' : SmtpTls S} (hfits : tls.accumulate input = some tls')
      (hstatus : tls'.message.status = .secEIncompleteMessage) :
      Decrypts tls input outSize ⟨.wantRead, [], tls'.decrypted⟩
  | closed {tls' : SmtpTls S} (hfits : tls.accumulate input = some tls')
      (hstatus : tls'.message.status = .secIContextExpired) :
      Decrypts tls input outSize ⟨.ok, [], { tls'.decrypted with accumLen := 0 }⟩
  | failed {tls' : SmtpTls S} (hfits : tls.accumulate input = some tls')
      (hincomplete : tls'.message.status ≠ .secEIncompleteMessage)
      (hexpired : tls'.message.status ≠ .secIContextExpired)
      (hok : tls'.message.status ≠ .secEOk)
      (hrenegotiate : tls'.message.status ≠ .secIRenegotiate) :
      Decrypts tls input outSize ⟨.error, [], tls'.decrypted⟩
  | tooLong {tls' : SmtpTls S} (hfits : tls.accumulate input = some tls')
      (hstatus : tls'.message.status = .secEOk ∨ tls'.message.status = .secIRenegotiate)
      (hlength : outSize < (pickAll tls'.message.buffers).plaintextLen) :
      Decrypts tls input outSize ⟨.error, [], tls'.decrypted⟩
  | delivered {tls' : SmtpTls S} (hfits : tls.accumulate input = some tls')
      (hstatus : tls'.message.status = .secEOk ∨ tls'.message.status = .secIRenegotiate)
      (hlength : (pickAll tls'.message.buffers).plaintextLen ≤ outSize) :
      Decrypts tls input outSize ⟨.ok, tls'.decrypted.bytesAt
        (pickAll tls'.message.buffers).plaintextPtr (pickAll tls'.message.buffers).plaintextLen,
        tls'.delivered⟩

theorem decrypts (tls : SmtpTls S) (input : Bytes) (outSize : Nat) :
    Decrypts tls input outSize (tls.decrypt input outSize) := by
  rw [decrypt]
  cases hfits : tls.accumulate input with
  | none => exact .refused hfits
  | some tls' =>
      simp only
      split
      · rename_i hstatus
        exact .incomplete hfits hstatus
      rename_i hincomplete
      split
      · rename_i hstatus
        exact .closed hfits hstatus
      rename_i hexpired
      split
      · rename_i hstatus
        exact .failed hfits hincomplete hexpired hstatus.1 hstatus.2
      rename_i hstatus
      have hstatus' : tls'.message.status = .secEOk ∨ tls'.message.status = .secIRenegotiate := by
        rw [not_and_or, not_not, not_not] at hstatus
        exact hstatus
      split
      · rename_i hlength
        exact .tooLong hfits hstatus' hlength
      · rename_i hlength
        exact .delivered hfits hstatus' (Nat.le_of_not_lt hlength)

theorem length_bytesAt_le (tls : SmtpTls S) (ptr : Option Nat) (length : Nat) :
    (tls.bytesAt ptr length).length ≤ length := by
  cases ptr with
  | none => exact Nat.zero_le length
  | some offset => exact tls.accum.length_slice_le offset length

theorem Decrypts.out_le {outcome : TlsOutcome (SmtpTls S)}
    (h : Decrypts tls input outSize outcome) : outcome.out.length ≤ outSize := by
  cases h with
  | refused | incomplete | closed | failed | tooLong => exact Nat.zero_le outSize
  | delivered _ _ hlength => exact Nat.le_trans (length_bytesAt_le _ _ _) hlength

theorem Decrypts.handshakeDone {outcome : TlsOutcome (SmtpTls S)}
    (h : Decrypts tls input outSize outcome) :
    outcome.next.handshakeDone = tls.handshakeDone := by
  cases h with
  | refused => rfl
  | incomplete hfits | closed hfits | failed hfits | tooLong hfits | delivered hfits =>
      have hdone := handshakeDone_accumulate hfits
      exact hdone

theorem handshakeDone_populateCertInfo (tls : SmtpTls S) :
    tls.populateCertInfo.handshakeDone = tls.handshakeDone := by
  rw [populateCertInfo]
  split
  · rfl
  simp only
  split
  · rfl
  split
  · rfl
  split
  · rfl
  · rfl

theorem report_tame (tls : SmtpTls S) (status : SecurityStatus) (token : Bytes) (outSize : Nat) :
    (tls.report status token outSize).out.length ≤ outSize
      ∧ ((tls.report status token outSize).status = .ok →
        (tls.report status token outSize).next.handshakeDone = true) := by
  rw [report]
  split
  · split
    · exact ⟨Nat.zero_le outSize, nofun⟩
    · rename_i hfits
      exact ⟨Nat.le_of_not_lt hfits, nofun⟩
  split
  · exact ⟨Nat.zero_le outSize, fun _ => handshakeDone_populateCertInfo _⟩
  split
  · exact ⟨Nat.zero_le outSize, nofun⟩
  · exact ⟨Nat.zero_le outSize, nofun⟩

theorem handshake_tame (tls : SmtpTls S) (input : Bytes) (outSize : Nat) :
    (tls.handshake input outSize).out.length ≤ outSize
      ∧ ((tls.handshake input outSize).status = .ok →
        (tls.handshake input outSize).next.handshakeDone = true) := by
  rw [handshake, handshakeCalls]
  cases tls.accumulate input with
  | none => exact ⟨Nat.zero_le outSize, nofun⟩
  | some tls' => exact report_tame _ _ _ outSize

theorem encrypt_tame (tls : SmtpTls S) (plaintext : Bytes) (outSize : Nat) :
    (tls.encrypt plaintext outSize).out.length ≤ outSize
      ∧ (tls.encrypt plaintext outSize).next.handshakeDone = tls.handshakeDone := by
  rw [encrypt]
  split
  · exact ⟨Nat.zero_le outSize, rfl⟩
  rename_i sizes _
  simp only
  split
  · exact ⟨Nat.zero_le outSize, rfl⟩
  rename_i hroom
  split
  · exact ⟨Nat.zero_le outSize, rfl⟩
  · have hlength := (S.encryptMessage tls.ctxtHandle sizes plaintext).length_out_le
    exact ⟨Nat.le_trans hlength (Nat.le_of_not_lt hroom), rfl⟩

end SmtpTls

open SmtpTls

/-- The backend behind the engine interface keeps the laws of the interface. -/
def engine (S : Sspi) : TlsEngine where
  Ctx := S.CredHandle
  Entropy := Made S
  State := SmtpTls S
  create := create S
  handshakeDone := SmtpTls.handshakeDone
  handshake := SmtpTls.handshake
  encrypt := SmtpTls.encrypt
  decrypt := SmtpTls.decrypt
  certInfo tls := tls.certInfo.toTlsCertInfo
  handshake_out_le tls input n := (handshake_tame tls input n).1
  encrypt_out_le tls plaintext n := (encrypt_tame tls plaintext n).1
  decrypt_out_le tls input n := (decrypts tls input n).out_le
  handshakeDone_of_ok tls input n hok := (handshake_tame tls input n).2 hok
  handshakeDone_encrypt tls plaintext n hdone := (encrypt_tame tls plaintext n).2.trans hdone
  handshakeDone_decrypt tls input n hdone := (decrypts tls input n).handshakeDone.trans hdone

/-! ### The buffers that `DecryptMessage` fills in -/

/-- What a loop remembers of the last element of a kind. -/
theorem foldl_getLast? {α β γ : Type} {f : β → α → β} {P : α → Prop} [DecidablePred P]
    {value : α → γ} {get : β → γ} (hset : ∀ b a, P a → get (f b a) = value a)
    (hkeep : ∀ b a, ¬ P a → get (f b a) = get b) (b : β) (as : List α) :
    get (as.foldl f b) = (as.filter fun a => P a).getLast?.elim (get b) value := by
  induction as using List.reverseRecOn with
  | nil => rfl
  | append_singleton as a ih =>
      rw [List.foldl_append, List.foldl_cons, List.foldl_nil, List.filter_append]
      by_cases ha : P a
      · rw [hset _ a ha, List.filter_cons_of_pos (by simpa using ha), List.filter_nil,
          List.getLast?_concat]
        rfl
      · rw [hkeep _ a ha, List.filter_cons_of_neg (by simpa using ha), List.filter_nil,
          List.append_nil]
        exact ih

theorem pick_of_data {buffer : SecBuffer} (h : buffer.bufferType = .secbufferData)
    (picked : Picked) : pick picked buffer
      = { picked with plaintextPtr := buffer.pvBuffer, plaintextLen := buffer.cbBuffer } := by
  rw [pick, if_pos h]

theorem pick_of_extra {buffer : SecBuffer} (h : buffer.bufferType = .secbufferExtra)
    (picked : Picked) : pick picked buffer
      = { picked with extraPtr := buffer.pvBuffer, extraLen := buffer.cbBuffer } := by
  rw [pick, h, if_neg (by decide), if_pos rfl]

theorem pick_of_other {buffer : SecBuffer} (hdata : buffer.bufferType ≠ .secbufferData)
    (hextra : buffer.bufferType ≠ .secbufferExtra) (picked : Picked) :
    pick picked buffer = picked := by
  rw [pick, if_neg hdata, if_neg hextra]

/-- A buffer that is not data leaves the plaintext as it was. -/
theorem pick_plaintext {buffer : SecBuffer} (h : buffer.bufferType ≠ .secbufferData)
    (picked : Picked) : (pick picked buffer).plaintextPtr = picked.plaintextPtr
      ∧ (pick picked buffer).plaintextLen = picked.plaintextLen := by
  by_cases hextra : buffer.bufferType = .secbufferExtra
  · rw [pick_of_extra hextra]
    exact ⟨rfl, rfl⟩
  · rw [pick_of_other h hextra]
    exact ⟨rfl, rfl⟩

/-- The data buffer, if there is one. -/
def dataBuffer (buffers : Fin 4 → SecBuffer) : Option SecBuffer :=
  ((List.ofFn buffers).filter fun buffer => buffer.bufferType = .secbufferData).getLast?

theorem pickAll_plaintext (buffers : Fin 4 → SecBuffer) :
    (pickAll buffers).plaintextPtr = (dataBuffer buffers).elim none SecBuffer.pvBuffer
      ∧ (pickAll buffers).plaintextLen = (dataBuffer buffers).elim 0 SecBuffer.cbBuffer := by
  constructor
  · apply foldl_getLast?
    · intro picked buffer h
      rw [pick_of_data h]
    · exact fun picked buffer h => (pick_plaintext h picked).1
  · apply foldl_getLast?
    · intro picked buffer h
      rw [pick_of_data h]
    · exact fun picked buffer h => (pick_plaintext h picked).2

theorem exists_of_dataBuffer {buffers : Fin 4 → SecBuffer} {buffer : SecBuffer}
    (h : dataBuffer buffers = some buffer) : ∃ i, buffers i = buffer := by
  have hmem := List.mem_of_mem_filter (List.mem_of_getLast? h)
  exact List.mem_ofFn.1 hmem

/-- The plaintext is as long as the data buffer says, for the buffer lies in what was decrypted. -/
theorem SmtpTls.length_plaintext (tls : SmtpTls S) :
    (tls.decrypted.bytesAt (pickAll tls.message.buffers).plaintextPtr
        (pickAll tls.message.buffers).plaintextLen).length
      = (dataBuffer tls.message.buffers).elim 0 SecBuffer.cbBuffer := by
  rw [(pickAll_plaintext _).1, (pickAll_plaintext _).2]
  cases hbuffer : dataBuffer tls.message.buffers with
  | none => rfl
  | some buffer =>
      obtain ⟨i, hi⟩ := exists_of_dataBuffer hbuffer
      change (tls.decrypted.bytesAt buffer.pvBuffer buffer.cbBuffer).length = buffer.cbBuffer
      cases hptr : buffer.pvBuffer with
      | none =>
          have hzero : ¬ 0 < buffer.cbBuffer := by
            intro hpos
            have hpoints := buffer.points hpos
            rw [hptr] at hpoints
            cases hpoints
          change 0 = buffer.cbBuffer
          omega
      | some offset =>
          have hwithin := tls.message.within i offset (by rw [hi, hptr]; rfl)
          have hpending : tls.pending.length ≤ accumSize := by
            rw [SmtpTls.pending, Buffer.slice, List.length_take, List.length_drop,
              tls.accum.length_eq]
            omega
          rw [hi] at hwithin
          apply Buffer.length_slice_of_le
          omega

end SChannel

/-! ### What a call finds -/

/-- What is found in the bytes that have arrived: nothing that can be read as they were not taken
in, application data, none so far, the peer's close_notify, or something wrong. -/
inductive Found where
  | refused
  | data
  | noData
  | closeNotify
  | failed
  deriving DecidableEq, Repr

/-- Success without plaintext stands for a close_notify only, and where no application data is found
more ciphertext is asked for. -/
def Found.Conveyed (found : Found) (answer : TlsStatus × Bytes) : Prop :=
  (answer = (.ok, []) → found = .closeNotify) ∧ (found = .noData → answer.1 = .wantRead)

/-- A call of `smtp_tls_decrypt`. -/
structure DecryptCall where
  input : Bytes
  outSize : Nat
  deriving DecidableEq, Repr

/-- `smtp_tls_decrypt` of a backend, with its assertion `tls->handshake_done`. -/
def decryptCall {σ : Type} (handshakeDone : σ → Bool) (decrypt : σ → Bytes → Nat → TlsOutcome σ)
    (tls : σ) (call : DecryptCall) : Except Assertion (σ × (TlsStatus × Bytes)) :=
  if !handshakeDone tls then .error .decryptHandshakeDone
  else
    let outcome := decrypt tls call.input call.outSize
    .ok (outcome.next, (outcome.status, outcome.out))

/-- What holds of every call on an established engine exactly if it meets a guard does so along
every sequence of calls. -/
theorem serves_decryptCall_iff {σ : Type} {handshakeDone : σ → Bool}
    {decrypt : σ → Bytes → Nat → TlsOutcome σ} {P : σ → DecryptCall → TlsStatus × Bytes → Prop}
    {A : σ → DecryptCall → Prop}
    (hkeeps : ∀ tls input n, handshakeDone tls = true →
      handshakeDone (decrypt tls input n).next = true)
    (hiff : ∀ tls call, P tls call ((decrypt tls call.input call.outSize).status,
      (decrypt tls call.input call.outSize).out) ↔ A tls call)
    {tls : σ} (hdone : handshakeDone tls = true) (calls : List DecryptCall) :
    Serves (decryptCall handshakeDone decrypt) P tls calls
      ↔ Guarded (decryptCall handshakeDone decrypt) A tls calls := by
  apply serves_iff_guarded (I := fun tls => handshakeDone tls = true) _ hdone
  intro tls call hdone
  refine ⟨_, _, ?_, hkeeps tls call.input call.outSize hdone, hiff tls call⟩
  rw [decryptCall, hdone]
  rfl

namespace OpenSsl

variable {O : OpenSsl}

/-- `SSL_read` returns the data there is; with none, `SSL_get_error` is taken at its word:
`SSL_ERROR_ZERO_RETURN` on a close_notify, and `SSL_ERROR_WANT_READ` where there may be more. An
error left behind in the queue would make it `SSL_ERROR_SSL`, for want of `ERR_clear_error`. -/
def SslRead.found {σ : Type} (result : SslRead σ) : Found :=
  if 0 < result.data.length then .data
  else
    match result.error with
    | .zeroReturn => .closeNotify
    | .wantRead => .noData
    | _ => .failed

namespace SmtpTls

def decryptCall (tls : SmtpTls O) (call : DecryptCall) :
    Except Assertion (SmtpTls O × (TlsStatus × Bytes)) :=
  SmtpClient.decryptCall handshakeDone decrypt tls call

/-- What a call of `smtp_tls_decrypt` finds, going by `SSL_get_error`. -/
def found (tls : SmtpTls O) (call : DecryptCall) : Found :=
  let (fed, tls) := tls.feedInput call.input
  if !fed then .refused
  else ((O.sslRead tls.ssl call.outSize).run verifyCallback tls).1.found

theorem conveyed (tls : SmtpTls O) (call : DecryptCall) :
    (tls.found call).Conveyed ((tls.decrypt call.input call.outSize).status,
      (tls.decrypt call.input call.outSize).out) := by
  rw [found, decrypt]
  generalize tls.feedInput call.input = feed
  obtain ⟨fed, tls'⟩ := feed
  cases fed with
  | false => simp [Found.Conveyed]
  | true =>
      simp only [Bool.not_true, Bool.false_eq_true, if_false]
      generalize (O.sslRead tls'.ssl call.outSize).run verifyCallback tls' = read
      obtain ⟨⟨data, error, ssl⟩, tls''⟩ := read
      rw [SslRead.found]
      cases data with
      | cons byte rest => simp [Found.Conveyed]
      | nil => cases error <;> exact ⟨by simp, by simp⟩

end SmtpTls

end OpenSsl

namespace SChannel

variable {S : Sspi}

namespace Decrypted

variable {σ : Type} {n : Nat}

/-- How much application data there is. -/
def dataLength (result : Decrypted σ n) : Nat :=
  (dataBuffer result.buffers).elim 0 SecBuffer.cbBuffer

/-- A message that is accepted and carries no application data. -/
def Blank (result : Decrypted σ n) : Prop :=
  (result.status = .secEOk ∨ result.status = .secIRenegotiate) ∧ result.dataLength = 0

instance (result : Decrypted σ n) : Decidable result.Blank :=
  inferInstanceAs (Decidable (_ ∧ _))

/-- `SEC_I_CONTEXT_EXPIRED` stands for a close_notify, `SEC_E_INCOMPLETE_MESSAGE` for a part of a
message. -/
def found (result : Decrypted σ n) : Found :=
  match result.status with
  | .secIContextExpired => .closeNotify
  | .secEIncompleteMessage => .noData
  | .secEOk | .secIRenegotiate => if result.dataLength = 0 then .noData else .data
  | _ => .failed

theorem found_of_ok {result : Decrypted σ n}
    (h : result.status = .secEOk ∨ result.status = .secIRenegotiate) :
    result.found = if result.dataLength = 0 then .noData else .data := by
  rw [found]
  cases h with
  | inl h | inr h => rw [h]

end Decrypted

namespace SmtpTls

def decryptCall (tls : SmtpTls S) (call : DecryptCall) :
    Except Assertion (SmtpTls S × (TlsStatus × Bytes)) :=
  SmtpClient.decryptCall handshakeDone decrypt tls call

/-- What a call of `smtp_tls_decrypt` finds. -/
def found (tls : SmtpTls S) (call : DecryptCall) : Found :=
  match tls.accumulate call.input with
  | none => .refused
  | some tls => tls.message.found

/-- In a call of `smtp_tls_decrypt`, `DecryptMessage` answers `SEC_E_OK` or `SEC_I_RENEGOTIATE` with
an empty data buffer or none. -/
def Blank (tls : SmtpTls S) (call : DecryptCall) : Prop :=
  ∃ tls' ∈ tls.accumulate call.input, tls'.message.Blank

instance (tls : SmtpTls S) (call : DecryptCall) : Decidable (tls.Blank call) :=
  inferInstanceAs (Decidable (∃ tls' ∈ tls.accumulate call.input, tls'.message.Blank))

theorem blank_iff {tls tls' : SmtpTls S} {call : DecryptCall}
    (hfits : tls.accumulate call.input = some tls') : tls.Blank call ↔ tls'.message.Blank := by
  simp [Blank, hfits]

theorem found_eq {tls tls' : SmtpTls S} {call : DecryptCall}
    (hfits : tls.accumulate call.input = some tls') : tls.found call = tls'.message.found := by
  rw [found, hfits]

theorem Decrypts.conveyed_iff {tls : SmtpTls S} {call : DecryptCall}
    {outcome : TlsOutcome (SmtpTls S)} (h : Decrypts tls call.input call.outSize outcome) :
    (tls.found call).Conveyed (outcome.status, outcome.out) ↔ ¬ tls.Blank call := by
  cases h with
  | refused hfits =>
      refine iff_of_true ⟨nofun, ?_⟩ (by simp [Blank, hfits])
      rw [found, hfits]
      nofun
  | incomplete hfits hstatus =>
      refine iff_of_true ⟨nofun, fun _ => rfl⟩ ?_
      rw [blank_iff hfits, Decrypted.Blank, hstatus]
      simp
  | closed hfits hstatus =>
      rw [found_eq hfits, blank_iff hfits, Decrypted.found, Decrypted.Blank, hstatus]
      exact iff_of_true ⟨fun _ => rfl, nofun⟩ (by simp)
  | failed hfits hincomplete hexpired hok hrenegotiate =>
      refine iff_of_true ⟨nofun, ?_⟩ ?_
      · rw [found_eq hfits, Decrypted.found]
        split <;> simp_all
      · rw [blank_iff hfits]
        rintro ⟨hstatus | hstatus, -⟩
        · exact hok hstatus
        · exact hrenegotiate hstatus
  | @tooLong tls' hfits hstatus hlength =>
      rw [(pickAll_plaintext _).2] at hlength
      have hdata : tls'.message.dataLength ≠ 0 := Nat.ne_of_gt (Nat.zero_lt_of_lt hlength)
      rw [found_eq hfits, blank_iff hfits, Decrypted.found_of_ok hstatus, if_neg hdata]
      exact iff_of_true ⟨nofun, nofun⟩ fun hblank => hdata hblank.2
  | @delivered tls' hfits hstatus hlength =>
      have hout := tls'.length_plaintext
      rw [found_eq hfits, blank_iff hfits, Decrypted.found_of_ok hstatus]
      by_cases hdata : tls'.message.dataLength = 0
      · rw [if_pos hdata]
        apply iff_of_false
        · intro hconveyed
          have hnil := List.length_eq_zero_iff.1 (hout.trans hdata)
          cases hconveyed.1 (by rw [hnil])
        · exact fun hblank => hblank ⟨hstatus, hdata⟩
      · rw [if_neg hdata]
        refine iff_of_true ⟨fun hanswer => ?_, nofun⟩ fun hblank => hdata hblank.2
        -- the plaintext is as long as the data buffer
        apply absurd _ hdata
        calc tls'.message.dataLength = _ := hout.symm
          _ = ([] : Bytes).length := congrArg List.length (Prod.mk.inj hanswer).2

/-- A message without application data comes out as a close. -/
theorem answer_of_blank {tls : SmtpTls S} {call : DecryptCall} (hblank : tls.Blank call) :
    (tls.decrypt call.input call.outSize).status = .ok
      ∧ (tls.decrypt call.input call.outSize).out = [] := by
  obtain ⟨tls', hfits, hstatus, hdata⟩ := hblank
  rw [Option.mem_def] at hfits
  have hdecrypts := tls.decrypts call.input call.outSize
  generalize tls.decrypt call.input call.outSize = outcome at hdecrypts
  cases hdecrypts with
  | refused hrefused =>
      rw [hrefused] at hfits
      cases hfits
  | incomplete hfits' hstatus' | closed hfits' hstatus' =>
      cases hfits'.symm.trans hfits
      rw [hstatus'] at hstatus
      rcases hstatus with hstatus | hstatus <;> cases hstatus
  | failed hfits' _ _ hok hrenegotiate =>
      cases hfits'.symm.trans hfits
      exact absurd hstatus (not_or.2 ⟨hok, hrenegotiate⟩)
  | tooLong hfits' _ hlength =>
      cases hfits'.symm.trans hfits
      rw [(pickAll_plaintext _).2] at hlength
      change call.outSize < tls'.message.dataLength at hlength
      omega
  | delivered hfits' _ _ =>
      cases hfits'.symm.trans hfits
      exact ⟨rfl, List.length_eq_zero_iff.1 (tls'.length_plaintext.trans hdata)⟩

end SmtpTls

end SChannel

/-! ### What a connection makes of it -/

namespace Conn

/-- Over an established channel, success without plaintext ends the connection. -/
theorem quits_of_empty {E : TlsEngine} {env : Env E} {identity : Bytes} {nowMs n : Nat}
    {w w' : World E} {tls : E.State}
    (hawaits : w.conn.state = .waitBanner ∨ w.conn.state = .waitEhlo)
    (htls : w.conn.tls = some tls) (hroom : w.conn.readLen < readBufSize)
    (hok : (decryption w tls n).status = .ok) (hempty : (decryption w tls n).out = [])
    (h : onIo env w ⟨.read, 0, n⟩ identity nowMs = .ok w') : Quits (decrypted w tls n) w' := by
  have hnot : w.conn.state ≠ .tlsHandshaking := by
    rcases hawaits with hstate | hstate <;> rw [hstate] <;> decide
  have hsame {tls' : E.State} (hdecrypts : Decrypts w ⟨.read, 0, n⟩ tls') : tls' = tls :=
    Option.some.inj (hdecrypts.tls.symm.trans htls)
  cases onIo_ok h with
  | direct hraw =>
      rcases hraw with hstate | hnone | hother
      · exact absurd hstate hnot
      · rw [htls] at hnone
        cases hnone
      · exact absurd ⟨rfl, rfl⟩ hother
  | full _ _ hfull => omega
  | undecided tls' hdecrypts _ _ hstatus =>
      cases hsame hdecrypts
      cases hok.symm.trans hstatus
  | broken tls' hdecrypts _ _ hstatus =>
      cases hsame hdecrypts
      cases hok.symm.trans hstatus
  | delivered tls' hdecrypts _ _ _ hhandled =>
      cases hsame hdecrypts
      apply hhandled.quits_of_closed rfl
      · change (decryption w tls n).out.length = 0
        rw [hempty, List.length_nil]
      · change expects (decrypted w tls n).conn.state .read = true
        rw [decrypted_state]
        rcases hawaits with hstate | hstate <;> rw [hstate] <;> rfl

/-- Over SChannel, a message without application data ends the connection. -/
theorem quits_of_blank {S : Sspi} {env : Env (SChannel.engine S)} {identity : Bytes}
    {nowMs n : Nat} {w w' : World (SChannel.engine S)} {tls : SChannel.SmtpTls S}
    (hawaits : w.conn.state = .waitBanner ∨ w.conn.state = .waitEhlo)
    (htls : w.conn.tls = some tls) (hroom : w.conn.readLen < readBufSize)
    (hblank : tls.Blank ⟨w.conn.cipherBuf.slice 0 n, readBufSize - w.conn.readLen⟩)
    (h : onIo env w ⟨.read, 0, n⟩ identity nowMs = .ok w') : w'.conn.state = .error :=
  have hanswer := SChannel.SmtpTls.answer_of_blank hblank
  (quits_of_empty hawaits htls hroom hanswer.1 hanswer.2 h).state

end Conn

/-- **Zero bytes.** In every sequence of calls on an established engine, the OpenSSL backend says
what it finds; the SChannel backend does so exactly if `DecryptMessage` never accepts a message
without application data. -/
theorem zero_means_closed_iff {O : OpenSsl} {S : Sspi} {tls : OpenSsl.SmtpTls O}
    {tls' : SChannel.SmtpTls S} (hdone : tls.handshakeDone = true)
    (hdone' : tls'.handshakeDone = true) (calls : List DecryptCall) :
    Serves OpenSsl.SmtpTls.decryptCall
        (fun tls call answer => (tls.found call).Conveyed answer) tls calls
      ∧ (Serves SChannel.SmtpTls.decryptCall
          (fun tls call answer => (tls.found call).Conveyed answer) tls' calls
        ↔ Guarded SChannel.SmtpTls.decryptCall (fun tls call => ¬ tls.Blank call) tls' calls) := by
  constructor
  · apply (serves_decryptCall_iff (A := fun _ _ => True) (OpenSsl.engine O).handshakeDone_decrypt _
      hdone calls).2
    · exact guarded_of_forall (fun _ _ => trivial) tls calls
    · intro tls call
      exact iff_of_true (tls.conveyed call) trivial
  · apply serves_decryptCall_iff (SChannel.engine S).handshakeDone_decrypt _ hdone'
    intro tls call
    exact (tls.decrypts call.input call.outSize).conveyed_iff

/-- A record of data, and the close_notify. -/
theorem zero_means_closed_iff_records :
    Serves OpenSsl.SmtpTls.decryptCall (fun tls call answer => (tls.found call).Conveyed answer)
        OpenSsl.recordTls [⟨RecordEngine.record RecordEngine.dataType (bytes "hi"), 64⟩,
          ⟨RecordEngine.record RecordEngine.alertType [], 64⟩]
      ∧ Serves SChannel.SmtpTls.decryptCall
        (fun tls call answer => (tls.found call).Conveyed answer)
        SChannel.sampleTls [⟨RecordEngine.record RecordEngine.dataType (bytes "hi"), 64⟩,
          ⟨RecordEngine.record RecordEngine.alertType [], 64⟩] :=
  have h := @zero_means_closed_iff _ _ OpenSsl.recordTls SChannel.sampleTls rfl rfl
    [⟨RecordEngine.record RecordEngine.dataType (bytes "hi"), 64⟩,
      ⟨RecordEngine.record RecordEngine.alertType [], 64⟩]
  ⟨h.1, h.2.2 (by decide +kernel)⟩

/-- An empty record, over SChannel. -/
theorem empty_record_closes :
    ¬ ∀ (O : OpenSsl) (S : Sspi) (tls : OpenSsl.SmtpTls O) (tls' : SChannel.SmtpTls S),
      tls.handshakeDone = true → tls'.handshakeDone = true → ∀ calls : List DecryptCall,
        Serves OpenSsl.SmtpTls.decryptCall
            (fun tls call answer => (tls.found call).Conveyed answer) tls calls
          ∧ Serves SChannel.SmtpTls.decryptCall
            (fun tls call answer => (tls.found call).Conveyed answer) tls' calls := by
  intro h
  obtain ⟨-, s', answer, hcall, hconveyed, -⟩ := h OpenSsl.recordSsl SChannel.sampleSspi
    OpenSsl.recordTls SChannel.sampleTls rfl rfl
    [⟨RecordEngine.record RecordEngine.dataType [], 64⟩]
  cases hcall
  exact (SChannel.sampleTls.decrypts _ _).conveyed_iff.1 hconveyed (by decide +kernel)

end SmtpClient
