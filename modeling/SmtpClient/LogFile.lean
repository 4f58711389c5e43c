import SmtpClient.Log
import SmtpClient.Capabilities
import SmtpClient.Base.Lines

/-!
# The log file

`smtp_log.c` below `smtp_log_emit`: the clock, the identifier, the line and the file it is appended
to, each under its name less the prefix `smtp_log_`. The lock makes the write of a line one step, so
a `Logger` is the file and the two globals beside it.

A reader of the file is not in the source. It is what the format is for.
-/

namespace SmtpClient

/-- `%0*d`, of a number that is not negative. -/
def padded (width n : Nat) : Bytes :=
  List.replicate (width - (Cap.decimal n).length) 48 ++ Cap.decimal n

/-- `smtp_log_timestamp`, each field in the range the clock keeps it in. -/
structure LogTimestamp where
  year : Fin (2 ^ 31)
  month : Fin 13
  day : Fin 32
  hour : Fin 24
  minute : Fin 60
  second : Fin 61
  ms : Fin 1000
  deriving DecidableEq, Repr

/-- `g_smtp_log_event_names`. -/
def LogEvent.name : LogEvent → Bytes
  | .connecting => bytes "CONNECTING"
  | .connected => bytes "CONNECTED"
  | .ehlo => bytes "EHLO"
  | .reply => bytes "REPLY"
  | .capabilities => bytes "CAPABILITIES"
  | .starttls => bytes "STARTTLS"
  | .tlsBegin => bytes "TLS_BEGIN"
  | .tlsOk => bytes "TLS_OK"
  | .tlsFail => bytes "TLS_FAIL"
  | .tlsCertWarning => bytes "TLS_CERT_WARNING"
  | .error => bytes "ERROR"
  | .timeout => bytes "TIMEOUT"

/-- The arguments of a call of `smtp_log_emit`; a message sequence is what `smtp_log_id` has if
`has_message_seq` is set. -/
structure LogEntry where
  event : LogEvent
  id : LogId
  messageSeq : Option Nat
  actor : Bytes
  detail : Bytes
  deriving DecidableEq, Repr

/-- What stands between the brackets of the identifier. -/
def idText (id : LogId) (messageSeq : Option Nat) : Bytes :=
  let connection := bytes "T" ++ padded 4 id.threadId ++ bytes ".C" ++ padded 4 id.connectionId
  match messageSeq with
  | some seq => connection ++ bytes ".M" ++ padded 4 seq
  | none => connection

def formatId (id : LogId) (messageSeq : Option Nat) (dstSize : Nat) : Bytes :=
  clip dstSize (idText id messageSeq)

def idBufSize : Nat := 64
def lineSize : Nat := 2048

/-- The first two fields of a line. -/
def LogTimestamp.text (ts : LogTimestamp) : Bytes :=
  bytes "[" ++ padded 4 ts.year ++ bytes "-" ++ padded 2 ts.month ++ bytes "-" ++ padded 2 ts.day
    ++ bytes "] [" ++ padded 2 ts.hour ++ bytes ":" ++ padded 2 ts.minute ++ bytes ":"
    ++ padded 2 ts.second ++ bytes "." ++ padded 3 ts.ms ++ bytes "] "

/-- The format of `smtp_log_emit`. -/
def LogEntry.text (entry : LogEntry) (ts : LogTimestamp) : Bytes :=
  ts.text ++ bytes "[" ++ formatId entry.id entry.messageSeq idBufSize ++ bytes "] ["
    ++ entry.actor ++ bytes "] [" ++ entry.event.name ++ bytes "] '" ++ entry.detail ++ bytes "'\n"

/-- An entry whose line has room for all of it, and an actor that ends where its bracket does. -/
structure LogEntry.Whole (entry : LogEntry) : Prop where
  id : (idText entry.id entry.messageSeq).length < idBufSize
  room : entry.actor.length + entry.detail.length ≤ 1900
  actor : containsCrOrLf entry.actor = false
  detail : containsCrOrLf entry.detail = false
  bracket : 93 ∉ entry.actor

instance (entry : LogEntry) : Decidable entry.Whole :=
  decidable_of_iff
    ((idText entry.id entry.messageSeq).length < idBufSize
      ∧ entry.actor.length + entry.detail.length ≤ 1900 ∧ containsCrOrLf entry.actor = false
      ∧ containsCrOrLf entry.detail = false ∧ 93 ∉ entry.actor)
    ⟨fun h => ⟨h.1, h.2.1, h.2.2.1, h.2.2.2.1, h.2.2.2.2⟩, fun h => ⟨h.1, h.2, h.3, h.4, h.5⟩⟩

/-- `smtp_log_init_err`. -/
inductive LogInitErr where
  | ok
  | nullPath
  | openFailed
  | mutexFailed
  deriving DecidableEq, Repr

/-- `g_smtp_log_init_err_strings`. -/
def LogInitErr.text : LogInitErr → Bytes
  | .ok => bytes "no error"
  | .nullPath => bytes "filepath is NULL"
  | .openFailed => bytes "failed to open log file"
  | .mutexFailed => bytes "failed to initialize log mutex"

/-- The assertions of `smtp_log_init` and of `smtp_log_emit`. -/
inductive LogAssertion where
  | initTwice
  | notReady
  | actor
  | detail
  deriving DecidableEq, Repr

/-- The globals of the logger, and what the file at its path holds. -/
structure Logger where
  file : Bytes
  ready : Bool
  lastErr : LogInitErr
  deriving DecidableEq, Repr

namespace Logger

/-- `smtp_log_init`, given whether `fopen` and `mutex_init` succeed. The file is opened to be
appended to. -/
def init (logger : Logger) (filepath : Option Bytes) (opened mutexMade : Bool) :
    Except LogAssertion (Logger × Int) :=
  if logger.ready then .error .initTwice
  else
    match filepath with
    | none => .ok ({ logger with lastErr := .nullPath }, -1)
    | some _ =>
        if !opened then .ok ({ logger with lastErr := .openFailed }, -1)
        else if !mutexMade then .ok ({ logger with lastErr := .mutexFailed }, -1)
        else .ok ({ logger with ready := true, lastErr := .ok }, 0)

def shutdown (logger : Logger) : Logger :=
  if logger.ready then { logger with ready := false } else logger

def getLastError (logger : Logger) : Bytes := logger.lastErr.text

/-- `smtp_log_emit`, given what the clock shows. A line that does not fit loses its end, line feed
and all. -/
def emit (logger : Logger) (entry : LogEntry) (ts : LogTimestamp) : Except LogAssertion Logger :=
  if !logger.ready then .error .notReady
  else if containsCrOrLf entry.actor then .error .actor
  else if containsCrOrLf entry.detail then .error .detail
  else .ok { logger with file := logger.file ++ clip lineSize (entry.text ts) }

end Logger

/-! ### Reading it back -/

/-- A line of the file. -/
structure LogRecord where
  timestamp : LogTimestamp
  entry : LogEntry
  deriving DecidableEq, Repr

def LogEvent.all : List LogEvent :=
  [.connecting, .connected, .ehlo, .reply, .capabilities, .starttls, .tlsBegin, .tlsOk, .tlsFail,
    .tlsCertWarning, .error, .timeout]

end SmtpClient
