import SmtpClient.Base.Buffer

/-!
# The log

`smtp_log_emit` as its callers see it: an event, an actor and a detail go in, and a CR or an LF in
either string aborts the process.
-/

namespace SmtpClient

/-- The events of `smtp_log_event` a connection emits. -/
inductive LogEvent where
  | connecting
  | connected
  | ehlo
  | reply
  | capabilities
  | starttls
  | tlsBegin
  | tlsOk
  | tlsFail
  | tlsCertWarning
  | error
  | timeout
  deriving DecidableEq, Repr

def containsCrOrLf (text : Bytes) : Bool := text.any fun c => c == 13 || c == 10

/-- `smtp_log_id`; a connection never sets the message sequence. -/
structure LogId where
  threadId : Nat
  connectionId : Nat
  deriving DecidableEq, Repr

theorem containsCrOrLf_eq_false_iff {text : Bytes} :
    containsCrOrLf text = false ↔ 13 ∉ text ∧ 10 ∉ text := by
  simp only [containsCrOrLf, List.any_eq_false, Bool.or_eq_true, beq_iff_eq, not_or]
  constructor
  · exact fun h => ⟨fun hcr => (h 13 hcr).1 rfl, fun hlf => (h 10 hlf).2 rfl⟩
  · exact fun h c hc => ⟨fun heq => h.1 (heq ▸ hc), fun heq => h.2 (heq ▸ hc)⟩

end SmtpClient
