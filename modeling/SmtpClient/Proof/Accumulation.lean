import SmtpClient.Proof.Completion

/-!
# What SChannel is given of the peer's bytes

The peer's bytes arrive in pieces of any size, and SSPI takes them in pieces of its own. In between
they lie in `accum`, which the handshake shifts by a length and the decryption by a pointer. The
ledger here is kept by what SSPI says it has consumed, and `accum` is shown to hold the rest.
-/

namespace SmtpClient

namespace SChannel

variable {S : Sspi}

/-! ### What SSPI reports -/

/-- A call on SSPI: what it was given, its status, and the length of `SECBUFFER_EXTRA`. -/
structure Offer where
  given : Bytes
  status : SecurityStatus
  extra : Option Nat
  deriving DecidableEq, Repr

/-- Without `SECBUFFER_EXTRA` everything is consumed, or nothing if the message is incomplete. -/
def Offer.consumption (offer : Offer) : Nat :=
  match offer.extra with
  | some extra => offer.given.length - extra
  | none => if offer.status = .secEIncompleteMessage then 0 else offer.given.length

def Offer.consumed (offer : Offer) : Bytes := offer.given.take offer.consumption

def Offer.rest (offer : Offer) : Bytes := offer.given.drop offer.consumption

theorem Offer.consumed_append_rest (offer : Offer) : offer.consumed ++ offer.rest = offer.given :=
  List.take_append_drop offer.consumption offer.given

theorem pick_extra {buffer : SecBuffer} (h : buffer.bufferType ≠ .secbufferExtra)
    (picked : Picked) : (pick picked buffer).extraPtr = picked.extraPtr
      ∧ (pick picked buffer).extraLen = picked.extraLen := by
  by_cases hdata : buffer.bufferType = .secbufferData
  · rw [pick_of_data hdata]
    exact ⟨rfl, rfl⟩
  · rw [pick_of_other hdata h]
    exact ⟨rfl, rfl⟩

def extraBuffer (buffers : Fin 4 → SecBuffer) : Option SecBuffer :=
  ((List.ofFn buffers).filter fun buffer => buffer.bufferType = .secbufferExtra).getLast?

theorem pickAll_extra (buffers : Fin 4 → SecBuffer) :
    (pickAll buffers).extraPtr = (extraBuffer buffers).elim none SecBuffer.pvBuffer
      ∧ (pickAll buffers).extraLen = (extraBuffer buffers).elim 0 SecBuffer.cbBuffer := by
  constructor
  · apply foldl_getLast?
    · intro picked buffer h
      rw [pick_of_extra h]
    · exact fun picked buffer h => (pick_extra h picked).1
  · apply foldl_getLast?
    · intro picked buffer h
      rw [pick_of_extra h]
    · exact fun picked buffer h => (pick_extra h picked).2

/-- Neither done, nor to be called again. -/
def SecurityStatus.Fails (status : SecurityStatus) : Prop :=
  status ≠ .secEOk ∧ status ≠ .secIContinueNeeded ∧ status ≠ .secEIncompleteMessage

/-- What is documented of SSPI: how a first call may end, that an incomplete message is left as it
is, and that what is extra is the end of the input, which is not touched. -/
structure Documented (S : Sspi) : Prop where
  first : ∀ credHandle ctxt hostname manual,
    let result := S.initializeSecurityContext credHandle ctxt hostname manual none
    result.status = .secIContinueNeeded ∨ (result.status.Fails ∧ result.token = [])
  incomplete_handshake : ∀ credHandle ctxt hostname manual input,
    let result := S.initializeSecurityContext credHandle ctxt hostname manual input
    result.status = .secEIncompleteMessage → result.extra = none
  incomplete_message : ∀ ctxt input, (S.decryptMessage ctxt input).status = .secEIncompleteMessage →
    (S.decryptMessage ctxt input).memory = input
      ∧ extraBuffer (S.decryptMessage ctxt input).buffers = none
  extra_suffix : ∀ ctxt input, ∀ buffer ∈ extraBuffer (S.decryptMessage ctxt input).buffers,
    ∀ offset ∈ buffer.pvBuffer, offset + buffer.cbBuffer = input.length
      ∧ (S.decryptMessage ctxt input).memory.drop offset = input.drop offset

namespace SmtpTls

variable {tls tls' : SmtpTls S} {input : Bytes} {outSize : Nat}

/-! ### What is pending -/

theorem length_pending (h : tls.accumLen ≤ accumSize) : tls.pending.length = tls.accumLen :=
  tls.accum.length_slice h

theorem accumulate_eq_none_iff (h : tls.accumLen ≤ accumSize) :
    tls.accumulate input = none ↔ accumSize < tls.accumLen + input.length := by
  rw [accumulate]
  split
  · split
    · rename_i hlarge
      exact iff_of_true rfl hlarge
    · rename_i hfits
      exact iff_of_false (Option.some_ne_none _) hfits
  · rename_i hempty
    apply iff_of_false (Option.some_ne_none _)
    omega

theorem accumulate_spec (hlen : tls.accumLen ≤ accumSize) (h : tls.accumulate input = some tls') :
    tls'.pending = tls.pending ++ input ∧ tls'.accumLen ≤ accumSize
      ∧ tls'.ctxtHandleValid = tls.ctxtHandleValid := by
  rw [accumulate] at h
  split at h
  · split at h
    · cases h
    · rename_i hfits
      cases h
      exact ⟨tls.accum.slice_blit (by omega), Nat.le_of_not_lt hfits, rfl⟩
  · rename_i hempty
    cases h
    have hnil : input = [] := List.length_eq_zero_iff.1 (by omega)
    rw [hnil, List.append_nil]
    exact ⟨rfl, hlen, rfl⟩

theorem keepExtra_spec (tls : SmtpTls S) (status : SecurityStatus) (extra : Option Nat)
    (hlen : tls.accumLen ≤ accumSize) (hextra : ∀ extra' ∈ extra, extra' ≤ tls.accumLen) :
    (tls.keepExtra status extra).pending = (Offer.mk tls.pending status extra).rest
      ∧ (tls.keepExtra status extra).accumLen ≤ accumSize := by
  have hpending := length_pending hlen
  cases extra with
  | some extra =>
      have hle := hextra extra rfl
      refine ⟨?_, Nat.le_trans hle hlen⟩
      have hslice := @Buffer.length_slice_of_le _ tls.accum (tls.accumLen - extra) extra (by omega)
      calc (tls.keepExtra status (some extra)).pending
          = tls.accum.slice (tls.accumLen - extra) extra := by
            have hblit := tls.accum.slice_blit_zero (hslice.symm ▸ Nat.le_trans hle hlen)
            rwa [hslice] at hblit
        _ = tls.pending.drop (tls.accumLen - extra) := by
            simp only [pending, Buffer.slice, List.drop_zero, List.drop_take]
            congr 1
            omega
        _ = _ := by rw [Offer.rest, Offer.consumption, hpending]
  | none =>
      rw [keepExtra, Offer.rest, Offer.consumption]
      by_cases hincomplete : status = .secEIncompleteMessage
      · simp [hincomplete, hlen]
      · simp [hincomplete, pending]

theorem populateCertInfo_spec (tls : SmtpTls S) : tls.populateCertInfo.pending = tls.pending
    ∧ tls.populateCertInfo.accumLen = tls.accumLen
    ∧ tls.populateCertInfo.ctxtHandleValid = tls.ctxtHandleValid := by
  rw [populateCertInfo]
  split
  · exact ⟨rfl, rfl, rfl⟩
  simp only
  split
  · exact ⟨rfl, rfl, rfl⟩
  split
  · exact ⟨rfl, rfl, rfl⟩
  split
  · exact ⟨rfl, rfl, rfl⟩
  · exact ⟨rfl, rfl, rfl⟩

theorem report_spec (tls : SmtpTls S) (status : SecurityStatus) (token : Bytes) (outSize : Nat) :
    (tls.report status token outSize).next.pending = tls.pending
      ∧ (tls.report status token outSize).next.accumLen = tls.accumLen
      ∧ (tls.report status token outSize).next.ctxtHandleValid = tls.ctxtHandleValid := by
  rw [report]
  split
  · split
    · exact ⟨rfl, rfl, rfl⟩
    · exact ⟨rfl, rfl, rfl⟩
  split
  · exact populateCertInfo_spec _
  split
  · exact ⟨rfl, rfl, rfl⟩
  · exact ⟨rfl, rfl, rfl⟩

theorem report_of_fails (tls : SmtpTls S) {status : SecurityStatus} (h : status.Fails)
    (outSize : Nat) : (tls.report status [] outSize).status = .error := by
  have hempty : ¬ 0 < ([] : Bytes).length := Nat.lt_irrefl 0
  rw [report, if_neg hempty, if_neg h.1, if_neg (not_or.2 h.2)]

/-! ### A call keeps what is not consumed -/

/-- What a handshake call offers, once its input is in `accum`. -/
def handshakeOffer (tls : SmtpTls S) : Offer :=
  ⟨tls.offered.getD [], tls.negotiated.status, tls.negotiated.extra⟩

/-- What a decryption offers. -/
def decryptOffer (tls : SmtpTls S) : Offer :=
  ⟨tls.pending, tls.message.status, (extraBuffer tls.message.buffers).map SecBuffer.cbBuffer⟩

/-- What is left of an offer is pending, and the context is valid. -/
structure Keeps (offer : Offer) (next : SmtpTls S) : Prop where
  pending : next.pending = offer.rest
  accumLen_le : next.accumLen ≤ accumSize
  valid : next.ctxtHandleValid = true

theorem offered_of_valid (hvalid : tls.ctxtHandleValid = true) :
    tls.offered = some tls.pending := by
  rw [offered, hvalid]
  rfl

theorem ctxtHandleValid_keepExtra (tls : SmtpTls S) (status : SecurityStatus)
    (extra : Option Nat) : (tls.keepExtra status extra).ctxtHandleValid = tls.ctxtHandleValid := by
  cases extra with
  | some extra => rfl
  | none =>
      rw [keepExtra]
      split
      · rfl
      · rfl

theorem Keeps.report {offer : Offer} (h : Keeps offer tls) (status : SecurityStatus)
    (token : Bytes) (outSize : Nat) : Keeps offer (tls.report status token outSize).next := by
  obtain ⟨hpending, hlen, hvalid⟩ := tls.report_spec status token outSize
  exact ⟨hpending.trans h.pending, Nat.le_trans (Nat.le_of_eq hlen) h.accumLen_le,
    hvalid.trans h.valid⟩

theorem keeps_handshake (hfits : tls.accumulate input = some tls')
    (hlen : tls'.accumLen ≤ accumSize) (hvalid : tls'.ctxtHandleValid = true) :
    Keeps tls'.handshakeOffer (tls.handshake input outSize).next := by
  have hgiven : tls'.offered.getD [] = tls'.pending := by
    rw [offered_of_valid hvalid]
    rfl
  have hoffer := congrArg (Offer.mk · tls'.negotiated.status tls'.negotiated.extra) hgiven
  have hextra : ∀ extra ∈ tls'.negotiated.extra, extra ≤ tls'.accumLen := by
    intro extra hextra
    have hle := tls'.negotiated.extra_le extra hextra
    rwa [hgiven, length_pending hlen] at hle
  rw [handshake_eq hfits]
  apply Keeps.report
  rw [kept, hvalid]
  obtain ⟨hrest, hkeptLen⟩ := keepExtra_spec
    { tls' with ctxtHandle := tls'.negotiated.ctxt, ctxtHandleValid := true }
    tls'.negotiated.status tls'.negotiated.extra hlen hextra
  refine ⟨hrest.trans (congrArg Offer.rest hoffer).symm, hkeptLen, ?_⟩
  exact ctxtHandleValid_keepExtra _ _ _

/-- The first call offers nothing, and goes on only with a context. -/
theorem keeps_first (hS : Documented S) (hvalid : tls.ctxtHandleValid = false)
    (hstatus : (tls.handshake [] outSize).status ≠ .error) :
    Keeps tls.handshakeOffer (tls.handshake [] outSize).next := by
  have hoffered : tls.offered = none := by
    rw [offered, hvalid]
    rfl
  have hfirst : tls.negotiated.status = .secIContinueNeeded
      ∨ (tls.negotiated.status.Fails ∧ tls.negotiated.token = []) := by
    rw [negotiated]
    generalize tls.offered = offered at hoffered
    subst hoffered
    exact hS.first _ _ _ _
  rw [handshake_eq tls.accumulate_nil] at hstatus ⊢
  rcases hfirst with hcontinue | ⟨hfails, htoken⟩
  · apply Keeps.report
    have hgiven : tls.handshakeOffer.given = [] := by
      change tls.offered.getD [] = []
      rw [hoffered]
      rfl
    rw [kept, hvalid, hcontinue]
    refine ⟨?_, Nat.zero_le _, rfl⟩
    rw [Offer.rest, hgiven, List.drop_nil]
    rfl
  · rw [htoken] at hstatus
    exact absurd (report_of_fails _ hfails outSize) hstatus

theorem pending_decrypted (hlen : tls.accumLen ≤ accumSize) :
    tls.decrypted.pending = tls.message.memory := by
  have hmemory := tls.message.length_memory.trans (length_pending hlen)
  have hblit := tls.accum.slice_blit_zero (Nat.le_trans (Nat.le_of_eq hmemory) hlen)
  rwa [hmemory] at hblit

/-- The bytes at the extra buffer are the end of what was given. -/
theorem bytesAt_extra (hS : Documented S) (hlen : tls.accumLen ≤ accumSize) {buffer : SecBuffer}
    (hbuffer : extraBuffer tls.message.buffers = some buffer) :
    tls.decrypted.bytesAt buffer.pvBuffer buffer.cbBuffer
        = tls.pending.drop (tls.pending.length - buffer.cbBuffer)
      ∧ buffer.cbBuffer ≤ tls.pending.length := by
  cases hptr : buffer.pvBuffer with
  | none =>
      have hzero : buffer.cbBuffer = 0 := by
        by_contra hne
        have hpoints := buffer.points (Nat.pos_of_ne_zero hne)
        rw [hptr] at hpoints
        cases hpoints
      rw [hzero, Nat.sub_zero, List.drop_length]
      exact ⟨rfl, Nat.zero_le _⟩
  | some offset =>
      obtain ⟨hend, htail⟩ := hS.extra_suffix _ _ buffer hbuffer offset hptr
      change offset + buffer.cbBuffer = tls.pending.length at hend
      change tls.message.memory.drop offset = tls.pending.drop offset at htail
      refine ⟨?_, by omega⟩
      calc tls.decrypted.bytesAt (some offset) buffer.cbBuffer
          = tls.decrypted.pending.drop offset := by
            have hcut : tls.accumLen = offset + buffer.cbBuffer := by
              rw [hend, length_pending hlen]
            change (tls.decrypted.accum.bytes.drop offset).take buffer.cbBuffer
              = ((tls.decrypted.accum.bytes.drop 0).take tls.accumLen).drop offset
            rw [List.drop_zero, List.drop_take, hcut, Nat.add_sub_cancel_left]
        _ = tls.pending.drop offset := by rw [pending_decrypted hlen, htail]
        _ = _ := by rw [← hend, Nat.add_sub_cancel]

theorem pending_delivered (hS : Documented S) (hlen : tls.accumLen ≤ accumSize)
    (hstatus : tls.message.status ≠ .secEIncompleteMessage) :
    tls.delivered.pending = tls.decryptOffer.rest ∧ tls.delivered.accumLen ≤ accumSize := by
  obtain ⟨hptr, hextraLen⟩ := pickAll_extra tls.message.buffers
  have hpending := length_pending hlen
  rw [decryptOffer, delivered, pending, hptr, hextraLen, Offer.rest, Offer.consumption]
  cases hbuffer : extraBuffer tls.message.buffers with
  | none =>
      refine ⟨?_, Nat.zero_le _⟩
      simp [hstatus]
  | some buffer =>
      obtain ⟨hbytes, hle⟩ := bytesAt_extra hS hlen hbuffer
      refine ⟨?_, by simp only [Option.elim_some]; omega⟩
      simp only [Option.elim_some, Option.map_some, hbytes]
      have hlength : (tls.pending.drop (tls.pending.length - buffer.cbBuffer)).length
          = buffer.cbBuffer := by
        rw [List.length_drop]
        omega
      have hblit := tls.decrypted.accum.slice_blit_zero
        (Nat.le_trans (Nat.le_of_eq hlength) (by omega))
      rwa [hlength] at hblit

theorem keeps_decrypt (hS : Documented S) (hfits : tls.accumulate input = some tls')
    (hlen : tls'.accumLen ≤ accumSize) (hvalid : tls'.ctxtHandleValid = true)
    (hstatus : (tls.decrypt input outSize).status ≠ .error)
    (hopen : tls'.message.status ≠ .secIContextExpired) :
    Keeps tls'.decryptOffer (tls.decrypt input outSize).next := by
  have hdecrypts := tls.decrypts input outSize
  generalize tls.decrypt input outSize = outcome at hdecrypts hstatus
  cases hdecrypts with
  | refused | failed | tooLong => exact absurd rfl hstatus
  | closed hfits' hexpired =>
      cases hfits'.symm.trans hfits
      exact absurd hexpired hopen
  | incomplete hfits' hincomplete =>
      cases hfits'.symm.trans hfits
      obtain ⟨hmemory, hextra⟩ := hS.incomplete_message _ _ hincomplete
      refine ⟨?_, hlen, hvalid⟩
      change tls'.message.memory = tls'.pending at hmemory
      change extraBuffer tls'.message.buffers = none at hextra
      rw [pending_decrypted hlen, hmemory, Offer.rest, Offer.consumption, decryptOffer, hextra]
      simp [hincomplete]
  | delivered hfits' hok =>
      cases hfits'.symm.trans hfits
      have hcomplete : tls'.message.status ≠ .secEIncompleteMessage := by
        rcases hok with hok | hok <;> rw [hok] <;> nofun
      obtain ⟨hpending, hdeliveredLen⟩ := pending_delivered hS hlen hcomplete
      exact ⟨hpending, hdeliveredLen, hvalid⟩

end SmtpTls

open SmtpTls

/-! ### A sequence of calls -/

inductive TlsCall where
  | handshake (input : Bytes) (outSize : Nat)
  | decrypt (input : Bytes) (outSize : Nat)
  deriving DecidableEq, Repr

def TlsCall.input : TlsCall → Bytes
  | .handshake input _ => input
  | .decrypt input _ => input

namespace SmtpTls

def outcome (tls : SmtpTls S) : TlsCall → TlsOutcome (SmtpTls S)
  | .handshake input outSize => tls.handshake input outSize
  | .decrypt input outSize => tls.decrypt input outSize

/-- What a call offers to SSPI; nothing if its input does not fit. -/
def offer (tls : SmtpTls S) (call : TlsCall) : Option Offer :=
  (tls.accumulate call.input).map fun tls =>
    match call with
    | .handshake _ _ => tls.handshakeOffer
    | .decrypt _ _ => tls.decryptOffer

/-- Whether a call takes in a close_notify. -/
def closes (tls : SmtpTls S) (call : TlsCall) : Bool :=
  match call with
  | .handshake _ _ => false
  | .decrypt _ _ => (tls.offer call).any fun offer => offer.status == .secIContextExpired

theorem outcome_of_refused {tls : SmtpTls S} {call : TlsCall}
    (h : tls.accumulate call.input = none) : tls.outcome call = ⟨.error, [], tls⟩ := by
  cases call with
  | handshake input outSize =>
      rw [outcome, handshake, handshakeCalls]
      change tls.accumulate input = none at h
      rw [h]
  | decrypt input outSize =>
      rw [outcome, decrypt]
      change tls.accumulate input = none at h
      rw [h]

end SmtpTls

inductive Stage where
  | new
  | handshaking
  | decrypting
  deriving DecidableEq, Repr

def TlsCall.stage : TlsCall → Stage
  | .handshake _ _ => .handshaking
  | .decrypt _ _ => .decrypting

/-- An engine, all bytes it was fed, and those that SSPI has reported as consumed. -/
structure Ledger (S : Sspi) where
  tls : SmtpTls S
  stage : Stage
  fed : Bytes
  consumed : Bytes

inductive Ended where
  | failed
  | closed
  deriving DecidableEq, Repr

namespace Ledger

def start (tls : SmtpTls S) : Ledger S := ⟨tls, .new, [], []⟩

/-- Handshake calls, of which the first has no input, and then decryptions. -/
def admissible (ledger : Ledger S) : TlsCall → Prop
  | .handshake input _ => ledger.stage ≠ .decrypting ∧ (ledger.stage = .new → input = [])
  | .decrypt _ _ => ledger.stage ≠ .new ∧ ledger.tls.handshakeDone = true

def record (ledger : Ledger S) (call : TlsCall) : Ledger S where
  tls := (ledger.tls.outcome call).next
  stage := call.stage
  fed := ledger.fed ++ call.input
  consumed := ledger.consumed ++ (ledger.tls.offer call).elim [] Offer.consumed

def step (ledger : Ledger S) (call : TlsCall) : Except Ended (Ledger S) :=
  if (ledger.tls.outcome call).status = .error then .error .failed
  else if ledger.tls.closes call then .error .closed
  else .ok (ledger.record call)

end Ledger

def ledger (S : Sspi) : Machine (Ledger S) TlsCall Ended where
  admissible := Ledger.admissible
  step := Ledger.step

namespace Ledger

variable {l l' : Ledger S} {call : TlsCall}

/-- Whatever was fed and is not consumed is pending. -/
structure Balanced (l : Ledger S) : Prop where
  accumLen_le : l.tls.accumLen ≤ accumSize
  fed_eq : l.fed = l.consumed ++ l.tls.pending
  new : l.stage = .new → l.tls.pending = [] ∧ l.tls.ctxtHandleValid = false
  valid : l.stage ≠ .new → l.tls.ctxtHandleValid = true

theorem balanced_start {credHandle : S.CredHandle} {made : Made S} {hostname : Bytes}
    {trustWithoutValidation : Bool} {tls : SmtpTls S}
    (h : create S credHandle made hostname trustWithoutValidation = some tls) :
    (start tls).Balanced := by
  rw [create] at h
  split at h
  · cases h
  split at h
  · split at h
    · cases h
    · cases h
      exact ⟨Nat.zero_le _, rfl, fun _ => ⟨rfl, rfl⟩, fun hstage => absurd rfl hstage⟩
  · cases h

/-- What a call offers is what is pending and what it was fed. -/
theorem Balanced.given (h : l.Balanced) (hadmissible : l.admissible call) {offer : Offer}
    (hoffer : l.tls.offer call = some offer) : offer.given = l.tls.pending ++ call.input := by
  obtain ⟨tls', hfits, rfl⟩ := Option.map_eq_some_iff.1 hoffer
  obtain ⟨hpending, -, hvalid⟩ := accumulate_spec h.accumLen_le hfits
  cases call with
  | decrypt input outSize => exact hpending
  | handshake input outSize =>
      change tls'.offered.getD [] = _
      by_cases hnew : l.stage = .new
      · -- nothing is pending, and the first call has no input
        rw [hadmissible.2 hnew] at hfits ⊢
        cases hfits
        rw [offered, (h.new hnew).2, (h.new hnew).1]
        rfl
      · rw [offered_of_valid (hvalid.trans (h.valid hnew))]
        exact hpending

theorem Balanced.keeps (hS : Documented S) (h : l.Balanced) (hadmissible : l.admissible call)
    (hstatus : (l.tls.outcome call).status ≠ .error) (hopen : l.tls.closes call = false) :
    ∃ offer, l.tls.offer call = some offer ∧ Keeps offer (l.tls.outcome call).next := by
  cases hfits : l.tls.accumulate call.input with
  | none =>
      rw [outcome_of_refused hfits] at hstatus
      exact absurd rfl hstatus
  | some tls' =>
      obtain ⟨-, hlen, hvalid⟩ := accumulate_spec h.accumLen_le hfits
      cases call with
      | handshake input outSize =>
          have hoffer : l.tls.offer (.handshake input outSize) = some tls'.handshakeOffer := by
            rw [offer, hfits]
            rfl
          refine ⟨_, hoffer, ?_⟩
          by_cases hnew : l.stage = .new
          · cases hadmissible.2 hnew
            cases hfits
            exact keeps_first hS (h.new hnew).2 hstatus
          · exact keeps_handshake hfits hlen (hvalid.trans (h.valid hnew))
      | decrypt input outSize =>
          have hoffer : l.tls.offer (.decrypt input outSize) = some tls'.decryptOffer := by
            rw [offer, hfits]
            rfl
          refine ⟨_, hoffer, ?_⟩
          apply keeps_decrypt hS hfits hlen (hvalid.trans (h.valid hadmissible.1)) hstatus
          rw [closes, hoffer] at hopen
          exact beq_eq_false_iff_ne.1 hopen

theorem Balanced.step (hS : Documented S) (h : l.Balanced) (step : (ledger S).Steps l call l') :
    l'.Balanced := by
  obtain ⟨hadmissible, hstep⟩ := step
  change Ledger.step l call = .ok l' at hstep
  rw [Ledger.step] at hstep
  split at hstep
  · cases hstep
  rename_i hstatus
  split at hstep
  · cases hstep
  rename_i hopen
  cases hstep
  obtain ⟨offer, hoffer, hkeeps⟩ := h.keeps hS hadmissible hstatus (by simpa using hopen)
  have hstage : (l.record call).stage ≠ .new := by
    cases call <;> nofun
  refine ⟨hkeeps.accumLen_le, ?_, fun hnew => absurd hnew hstage, fun _ => hkeeps.valid⟩
  calc (l.record call).fed = l.consumed ++ l.tls.pending ++ call.input :=
        congrArg (· ++ call.input) h.fed_eq
    _ = l.consumed ++ offer.given := by rw [List.append_assoc, h.given hadmissible hoffer]
    _ = l.consumed ++ offer.consumed ++ offer.rest := by
        rw [← offer.consumed_append_rest, List.append_assoc]
    _ = (l.record call).consumed ++ (l.record call).tls.pending := by
        rw [record, hoffer, ← hkeeps.pending]
        rfl

end Ledger

/-- **Accumulation.** As long as no call fails and the peer does not close, all that was fed is what
SSPI has consumed and then what is in `accum`; every call on SSPI is given what is not consumed yet,
and input that does not fit is refused. -/
theorem accumulation_exact (hS : Documented S) {credHandle : S.CredHandle} {made : Made S}
    {hostname : Bytes} {trustWithoutValidation : Bool} {tls : SmtpTls S}
    (hcreate : create S credHandle made hostname trustWithoutValidation = some tls)
    {calls : List TlsCall} {l : Ledger S} (run : (ledger S).Run (.start tls) calls l) :
    l.tls.accumLen ≤ accumSize ∧ l.fed = l.consumed ++ l.tls.pending
      ∧ ∀ call, (ledger S).admissible l call →
        (∀ offer ∈ l.tls.offer call, offer.given = (l.fed ++ call.input).drop l.consumed.length)
          ∧ (accumSize < l.tls.accumLen + call.input.length →
            l.tls.outcome call = ⟨.error, [], l.tls⟩) := by
  have hbalanced := run.invariant (Ledger.balanced_start hcreate)
    fun _ _ _ h step => h.step hS step
  refine ⟨hbalanced.accumLen_le, hbalanced.fed_eq, fun call hadmissible => ⟨?_, ?_⟩⟩
  · intro offer hoffer
    rw [hbalanced.given hadmissible hoffer, hbalanced.fed_eq, List.append_assoc, List.drop_left]
  · intro hlarge
    exact outcome_of_refused ((accumulate_eq_none_iff hbalanced.accumLen_le).2 hlarge)

/-! ### The sample SSPI -/

theorem exists_of_extraBuffer {buffers : Fin 4 → SecBuffer} {buffer : SecBuffer}
    (h : extraBuffer buffers = some buffer) :
    ∃ i, buffers i = buffer ∧ buffer.bufferType = .secbufferExtra := by
  obtain ⟨hmem, htype⟩ := List.mem_filter.1 (List.mem_of_getLast? h)
  obtain ⟨i, hi⟩ := List.mem_ofFn.1 hmem
  exact ⟨i, hi, of_decide_eq_true htype⟩

namespace SampleSspi

open RecordEngine

/-- Its extra buffer is what follows the record. -/
theorem extra_buffers {type : UInt8} {content rest : Bytes} {buffer : SecBuffer}
    (h : extraBuffer (buffers type content rest) = some buffer) :
    buffer = .at .secbufferExtra (2 + content.length) rest.length := by
  obtain ⟨i, rfl, htype⟩ := exists_of_extraBuffer h
  match i with
  | 0 => cases htype
  | 1 =>
    rw [buffers] at htype
    split at htype <;> cases htype
  | 2 => cases htype
  | 3 =>
    rw [buffers] at htype ⊢
    split at htype
    · cases htype
    · rename_i hrest
      rw [if_neg hrest]

theorem extra_negotiate {input : Option Bytes}
    (h : (negotiate input).status = .secEIncompleteMessage) : (negotiate input).extra = none := by
  cases input with
  | none => rfl
  | some input =>
      revert h
      simp only [negotiate]
      split
      · exact fun _ => rfl
      split
      · nofun
      · nofun

theorem memory_decryptMessage (input : Bytes) : (decryptMessage input).memory = input := by
  unfold decryptMessage
  split
  · rfl
  · rfl

theorem extraBuffer_decryptMessage {input : Bytes} {buffer : SecBuffer}
    (h : extraBuffer (decryptMessage input).buffers = some buffer) :
    (decryptMessage input).status ≠ .secEIncompleteMessage
      ∧ ∀ offset ∈ buffer.pvBuffer, offset + buffer.cbBuffer = input.length := by
  unfold decryptMessage at h ⊢
  split at h
  · obtain ⟨_, rfl, htype⟩ := exists_of_extraBuffer h
    cases htype
  · rename_i type content rest hrecord
    cases extra_buffers h
    refine ⟨?_, fun offset hoffset => ?_⟩
    · simp only
      split
      · nofun
      split
      · nofun
      split
      · nofun
      · nofun
    · cases hoffset
      exact (length_takeRecord hrecord).symm

theorem documented : Documented sampleSspi where
  first _ _ _ _ := Or.inl rfl
  incomplete_handshake _ _ _ _ _ := extra_negotiate
  incomplete_message _ input h := by
    refine ⟨memory_decryptMessage input, ?_⟩
    cases hbuffer : extraBuffer (decryptMessage input).buffers with
    | none => exact hbuffer
    | some buffer => exact absurd h (extraBuffer_decryptMessage hbuffer).1
  extra_suffix _ input buffer hbuffer offset hoffset :=
    ⟨(extraBuffer_decryptMessage hbuffer).2 offset hoffset,
      congrArg (List.drop offset) (memory_decryptMessage input)⟩

end SampleSspi

instance (l : Ledger S) : (call : TlsCall) → Decidable ((ledger S).admissible l call)
  | .handshake input _ =>
      inferInstanceAs (Decidable (l.stage ≠ .decrypting ∧ (l.stage = .new → input = [])))
  | .decrypt _ _ => inferInstanceAs (Decidable (l.stage ≠ .new ∧ l.tls.handshakeDone = true))

/-- A record in two pieces, the first of them behind the flight of the server. -/
def splitRecord : List TlsCall :=
  [.handshake [] 64,
    .handshake (RecordEngine.record RecordEngine.handshakeType [] ++ [RecordEngine.dataType, 2]) 64,
    .decrypt (bytes "hi" ++ [RecordEngine.alertType]) 64]

theorem accumulation_exact_split : ∃ l, (ledger sampleSspi).Run (.start sampleNew) splitRecord l
    ∧ l.fed = l.consumed ++ l.tls.pending ∧ l.tls.accumLen = 1 := by
  have hexec : ((ledger sampleSspi).exec (.start sampleNew) splitRecord).map
      (fun l => l.tls.accumLen) = some 1 := by
    decide +kernel
  obtain ⟨l, hl, hpending⟩ := Option.map_eq_some_iff.1 hexec
  have hrun := Machine.run_of_exec hl
  have hcreate : create sampleSspi () ⟨(), true⟩ (bytes "h") false = some sampleNew := rfl
  exact ⟨l, hrun, (accumulation_exact SampleSspi.documented hcreate hrun).2.1, hpending⟩

end SChannel

end SmtpClient
