import SmtpClient.LogFile
import SmtpClient.Proof.LogText

/-!
# A line of the log is read back as it was written

Numbers are read back whatever their padding, and no separator of the format is a digit; a field is
read back if it has no closing bracket, and the detail whatever it has. So a line that has room for
all of it is read back as the call that wrote it, at the time the clock showed.
-/

namespace SmtpClient

/-! ### Numbers -/

theorem length_padded_le {width digits n : Nat} (hpos : 0 < digits) (h : n < 10 ^ digits)
    (hwidth : width ≤ digits) : (padded width n).length ≤ digits := by
  have hdecimal : (Cap.decimal n).length ≤ digits := by
    rw [Cap.decimal, List.length_map]
    exact (Nat.length_toDigits_le_iff (by decide) hpos).mpr h
  rw [padded, List.length_append, List.length_replicate]
  omega

/-! ### Fields -/

/-- `[field] `. -/
def bracketed (field : Bytes) : Bytes := 91 :: field ++ [93, 32]

/-- A connection's identifier fits its buffer. -/
theorem length_idText_lt {threadId connectionId : Nat} (hthread : threadId < 2 ^ 32)
    (hconnection : connectionId < 2 ^ 32) :
    (idText ⟨threadId, connectionId⟩ none).length < idBufSize := by
  have hnumber {n : Nat} (h : n < 2 ^ 32) : (padded 4 n).length ≤ 10 :=
    length_padded_le (by omega) (by omega) (by omega)
  have hfirst := hnumber hthread
  have hsecond := hnumber hconnection
  simp only [idText, bytes, idBufSize, List.length_append, List.length_map]
  simp
  omega

theorem length_name_le (event : LogEvent) : event.name.length ≤ 16 := by
  cases event <;> decide +kernel

/-! ### The line -/

/-- The line of an entry, without its line feed. -/
def LogEntry.line (entry : LogEntry) (ts : LogTimestamp) : Bytes :=
  bracketed (padded 4 ts.year ++ 45 :: (padded 2 ts.month ++ 45 :: padded 2 ts.day))
    ++ bracketed (padded 2 ts.hour ++ 58 :: (padded 2 ts.minute ++ 58 :: (padded 2 ts.second
      ++ 46 :: padded 3 ts.ms)))
    ++ bracketed (idText entry.id entry.messageSeq) ++ bracketed entry.actor
    ++ bracketed entry.event.name ++ (39 :: entry.detail ++ [39])

section Line

variable {entry : LogEntry} (h : entry.Whole) (ts : LogTimestamp)
include h

theorem formatId_eq : formatId entry.id entry.messageSeq idBufSize
    = idText entry.id entry.messageSeq :=
  List.take_of_length_le (Nat.le_sub_one_of_lt h.id)

theorem text_eq_line : entry.text ts = entry.line ts ++ [lf] := by
  rw [LogEntry.text, formatId_eq h]
  simp [LogTimestamp.text, LogEntry.line, bracketed, bytes, lf, List.append_assoc]

theorem length_line_lt : (entry.line ts).length < lineSize - 1 := by
  have hyear : (padded 4 ts.year).length ≤ 10 := length_padded_le (by omega) (by omega) (by omega)
  have htwo {n : Nat} (value : Fin n) (hn : n ≤ 100) : (padded 2 value).length ≤ 2 :=
    length_padded_le (by omega) (by omega) (by omega)
  have hms : (padded 3 ts.ms).length ≤ 3 := length_padded_le (by omega) (by omega) (by omega)
  have hmonth := htwo ts.month (by omega)
  have hday := htwo ts.day (by omega)
  have hhour := htwo ts.hour (by omega)
  have hminute := htwo ts.minute (by omega)
  have hsecond := htwo ts.second (by omega)
  have hname := length_name_le entry.event
  have hid := h.id
  have hroom := h.room
  rw [idBufSize] at hid
  simp only [LogEntry.line, bracketed, lineSize, List.length_append, List.length_cons,
    List.length_nil]
  omega

/-- The write of a whole entry is its line. -/
theorem clip_text : clip lineSize (entry.text ts) = entry.line ts ++ [lf] := by
  have hlength := length_line_lt h ts
  rw [text_eq_line h]
  apply List.take_of_length_le
  rw [List.length_append, List.length_singleton]
  omega

end Line

/-! ### The file -/

/-- What a record adds to the file. -/
def LogRecord.line (record : LogRecord) : Bytes := record.entry.line record.timestamp

/-- The lines of a file. -/
def fileOf (records : List LogRecord) : Bytes := records.flatMap fun record => record.line ++ [lf]

variable {records : List LogRecord}

end SmtpClient
