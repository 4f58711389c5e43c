import SmtpClient.Proof.Received

/-!
# What the reply parser is shown

The text a completion shows to the reply parser, as a function of the connection before it and of
the bytes that arrived: what was heard so far, and behind it the bytes themselves or what the TLS
engine makes of them. Conditions on a completion are stated through it, in front of any handler.
-/

namespace SmtpClient

variable {E : TlsEngine}

namespace Conn

open World Protocol

/-- What decryption answers to raw bytes, with the room the reply buffer has left. -/
def answer (w : World E) (tls : E.State) (data : Bytes) : TlsOutcome E.State :=
  E.decrypt tls data (readBufSize - w.conn.readLen)

/-- The plaintext a successful read brings. -/
def chunk (w : World E) (data : Bytes) : Bytes :=
  match w.conn.tls with
  | none => data
  | some tls => if (answer w tls data).status = .ok then (answer w tls data).out else []

/-- The text the reply parser is shown when a completion arrives, if it is shown any. -/
def shown (w : World E) (result : Int) (data : Bytes) : Option Bytes :=
  if awaitsReply w.conn.state = true ∧ result = 0 ∧ chunk w data ≠ [] then
    some (heard w.conn ++ chunk w data)
  else none

theorem awaitsReply_of_shown {w : World E} {result : Int} {data text : Bytes}
    (h : shown w result data = some text) :
    awaitsReply w.conn.state = true ∧ result = 0 ∧ chunk w data ≠ []
      ∧ text = heard w.conn ++ chunk w data := by
  unfold shown at h
  split at h
  · rename_i hif
    exact ⟨hif.1, hif.2.1, hif.2.2, (Option.some.inj h).symm⟩
  · exact absurd h (by simp)

section Deliver

variable {identity : Bytes} {w : World E} {op : IoOp} {result : Int} {data : Bytes}

theorem slice_deliver_cipherBuf (hop : op = ⟨.read, .cipherBuf, readBufSize⟩)
    (hfits : data.length ≤ op.bufLen) :
    (w.deliver op result data).conn.cipherBuf.slice 0 data.length = data := by
  subst hop
  exact w.conn.cipherBuf.slice_blit_zero hfits

theorem Flight.eq_readOp (hflight : Flight w) (hlive : w.conn.state.terminal = false)
    (hdelivers : Delivers w op result data) (hawaits : awaitsReply w.conn.state = true) :
    op = readOp w.conn := by
  obtain ⟨hop, -, -⟩ := hflight.deliver hlive hdelivers
  obtain ⟨-, hfits⟩ := hflight.live hlive
  rw [hop]
  unfold OpFits at hfits
  cases hs : w.conn.state <;> simp_all [awaitsReply]

variable (h : Reachable identity w) (hlive : w.conn.state.terminal = false)
  (hdelivers : Delivers w op result data)
include h hlive hdelivers

theorem decryption_deliver {tls : E.State}
    (hdecrypts : Decrypts (w.deliver op result data) ⟨op.kind, result, data.length⟩ tls) :
    decryption (w.deliver op result data) tls data.length = answer w tls data := by
  have hflight := flight_of_reachable h
  obtain ⟨hawaits, -⟩ :=
    deliver_of_decrypts (hears_of_reachable h) hflight hlive hdelivers hdecrypts
  have htls : w.conn.tls = some tls := by simpa using hdecrypts.tls
  have hop := (hflight.eq_readOp hlive hdelivers hawaits).trans
    (readOp_of_tls (by rw [htls]; rfl))
  rw [decryption, slice_deliver_cipherBuf hop hdelivers.fits, deliver_readLen, answer]

theorem eq_plain_read (hraw : w.conn.state = .tlsHandshaking ∨ w.conn.tls = none
      ∨ ¬ (op.kind = .read ∧ result = 0))
    (hawaits : awaitsReply w.conn.state = true) (hresult : result = 0) :
    w.conn.tls = none
      ∧ op = ⟨.read, .readBuf w.conn.readLen, readBufSize - w.conn.readLen⟩ := by
  have hop := (flight_of_reachable h).eq_readOp hlive hdelivers hawaits
  have hread : (readOp w.conn).kind = .read := by
    unfold readOp
    cases w.conn.tls <;> rfl
  have htls : w.conn.tls = none := by
    rcases hraw with hstate | hnone | hfailed
    · rw [hstate] at hawaits
      exact absurd hawaits (by decide)
    · exact hnone
    · exact absurd ⟨hop ▸ hread, hresult⟩ hfailed
  exact ⟨htls, by rw [hop, readOp, htls]⟩

theorem room_deliver (hraw : w.conn.state = .tlsHandshaking ∨ w.conn.tls = none
      ∨ ¬ (op.kind = .read ∧ result = 0))
    (hawaits : awaitsReply w.conn.state = true) (hresult : result = 0) :
    w.conn.readLen + data.length ≤ readBufSize := by
  obtain ⟨-, rfl⟩ := eq_plain_read h hlive hdelivers hraw hawaits hresult
  have hroom := (hears_of_reachable h).room hawaits
  have hfits := hdelivers.fits
  simp only at hfits
  omega

theorem shown_raw (hraw : w.conn.state = .tlsHandshaking ∨ w.conn.tls = none
      ∨ ¬ (op.kind = .read ∧ result = 0)) :
    shown w result data
      = if awaitsReply w.conn.state = true ∧ result = 0 ∧ data.length ≠ 0 then
          some (offered (w.deliver op result data) data.length)
        else none := by
  by_cases hawaits : awaitsReply w.conn.state = true
  swap
  · simp [shown, hawaits]
  by_cases hresult : result = 0
  swap
  · simp [shown, hresult]
  obtain ⟨htls, hop⟩ := eq_plain_read h hlive hdelivers hraw hawaits hresult
  have hroom := room_deliver h hlive hdelivers hraw hawaits hresult
  have hchunk : chunk w data = data := by rw [chunk, htls]
  have htext : heard w.conn ++ data = offered (w.deliver op result data) data.length := by
    subst hop
    rw [heard, if_pos (hears_of_awaitsReply hawaits), offered, deliver_readLen]
    exact (w.conn.readBuf.slice_blit hroom).symm
  simp [shown, hawaits, hresult, hchunk, htext]

section Decrypted

variable {tls : E.State}
  (hdecrypts : Decrypts (w.deliver op result data) ⟨op.kind, result, data.length⟩ tls)
include hdecrypts

theorem readBuf_deliver_of_decrypts :
    (w.deliver op result data).conn.readBuf = w.conn.readBuf := by
  have hflight := flight_of_reachable h
  obtain ⟨hawaits, -⟩ :=
    deliver_of_decrypts (hears_of_reachable h) hflight hlive hdelivers hdecrypts
  have htls : w.conn.tls = some tls := by simpa using hdecrypts.tls
  apply readBuf_deliver
  left
  exact (hflight.eq_readOp hlive hdelivers hawaits).trans (readOp_of_tls (by rw [htls]; rfl))

theorem room_decrypted :
    w.conn.readLen + (answer w tls data).out.length ≤ readBufSize := by
  have hears := hears_of_reachable h
  obtain ⟨hawaits, -⟩ :=
    deliver_of_decrypts hears (flight_of_reachable h) hlive hdelivers hdecrypts
  have hroom := hears.room hawaits
  have hout : (answer w tls data).out.length ≤ readBufSize - w.conn.readLen :=
    E.decrypt_out_le tls data _
  omega

theorem offered_decrypted :
    offered (decrypted (w.deliver op result data) tls data.length)
        (answer w tls data).out.length = heard w.conn ++ (answer w tls data).out := by
  obtain ⟨hawaits, -⟩ := deliver_of_decrypts (hears_of_reachable h) (flight_of_reachable h) hlive
    hdelivers hdecrypts
  have hslice := w.conn.readBuf.slice_blit (room_decrypted h hlive hdelivers hdecrypts)
  rw [heard, if_pos (hears_of_awaitsReply hawaits), ← hslice]
  simp only [offered, decrypted, decryption_deliver h hlive hdelivers hdecrypts, record_conn,
    modify_conn, deliver_readLen, readBuf_deliver_of_decrypts h hlive hdelivers hdecrypts]

/-- Decryption leaves what was heard before it. -/
theorem heard_decrypted :
    heard (decrypted (w.deliver op result data) tls data.length).conn = heard w.conn := by
  have hears := hears_of_reachable h
  obtain ⟨hawaits, -⟩ :=
    deliver_of_decrypts hears (flight_of_reachable h) hlive hdelivers hdecrypts
  have hbefore := w.conn.readBuf.slice_blit_before w.conn.readLen
    (decryption (w.deliver op result data) tls data.length).out (Nat.le_of_lt (hears.room hawaits))
  rw [heard, heard, decrypted_state, deliver_state, if_pos (hears_of_awaitsReply hawaits),
    if_pos (hears_of_awaitsReply hawaits), ← hbefore]
  simp only [decrypted, record_conn, modify_conn, deliver_readLen,
    readBuf_deliver_of_decrypts h hlive hdelivers hdecrypts]

theorem shown_decrypted :
    shown w result data
      = if (answer w tls data).status = .ok ∧ (answer w tls data).out.length ≠ 0 then
          some (offered (decrypted (w.deliver op result data) tls data.length)
            (answer w tls data).out.length)
        else none := by
  obtain ⟨hawaits, -⟩ := deliver_of_decrypts (hears_of_reachable h) (flight_of_reachable h) hlive
    hdelivers hdecrypts
  have htls : w.conn.tls = some tls := by simpa using hdecrypts.tls
  have hresult : result = 0 := hdecrypts.result
  rw [offered_decrypted h hlive hdelivers hdecrypts]
  by_cases hstatus : (answer w tls data).status = .ok
  · simp [shown, hawaits, hresult, chunk, htls, hstatus]
  · simp [shown, chunk, htls, hstatus]

end Decrypted

end Deliver

end Conn

end SmtpClient
