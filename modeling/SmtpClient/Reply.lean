import SmtpClient.Base.Buffer

/-!
# SMTP replies

`smtp_reply_parser.c` and `smtp_reply_reader.c`, their names less the prefix: one reply line, and a
whole multi-line reply read from the front of a buffer. The thread-local "last error" and its offset
are part of a failed verdict here. Both functions take a pointer and a length, which is a list of
bytes; a NULL pointer (`SMTP_REPLY_LINE_ERR_EMPTY`) is not one.
-/

namespace SmtpClient

structure Reply where
  code : Nat
  consumed : Nat
  lineCount : Nat
  deriving DecidableEq, Repr

namespace Reply

/-- The error codes of `smtp_reply_line_err` a line can fail with. -/
inductive LineErr where
  | codeDigit
  | separator
  | textChar
  | bareCr
  | bareLf
  deriving DecidableEq, Repr

structure Line where
  code : Nat
  isFinal : Bool
  textOffset : Nat
  textLen : Nat
  consumed : Nat
  deriving DecidableEq, Repr

/-- A parsing step succeeds, wants more bytes, or fails at an offset (`smtp_reply_fail`). -/
inductive LineResult (α : Type) where
  | ok (value : α)
  | incomplete
  | fail (err : LineErr) (offset : Nat)
  deriving DecidableEq, Repr

def isTextChar (c : UInt8) : Bool := c == 9 || c == 32 || (33 ≤ c && c ≤ 126)

def parseCode (buf : Bytes) : LineResult Nat :=
  match buf with
  | d0 :: d1 :: d2 :: _ =>
      if d0 < 50 || 53 < d0 then .fail .codeDigit 0
      else if d1 < 48 || 53 < d1 then .fail .codeDigit 1
      else if d2 < 48 || 57 < d2 then .fail .codeDigit 2
      else .ok ((d0.toNat - 48) * 100 + (d1.toNat - 48) * 10 + (d2.toNat - 48))
  | _ => .incomplete

/-- `smtp_reply_parser_determine_seperator`: whether the line is final, and where its text
starts. -/
def determineSeparator (buf : Bytes) : LineResult (Bool × Nat) :=
  match buf.drop 3 with
  | [] => .incomplete
  | sep :: _ =>
      if sep = 45 then .ok (false, 4)
      else if sep = 32 then .ok (true, 4)
      else if sep = cr then .ok (true, 3)
      else .fail .separator 3

/-- The loop of `smtp_reply_parser_scan_text_and_crlf` over the bytes from offset `i` on: the offset
of the CR of the terminating CRLF. -/
def scanText : Bytes → Nat → LineResult Nat
  | [], _ => .incomplete
  | c :: rest, i =>
      if c = cr then
        match rest with
        | [] => .incomplete
        | next :: _ => if next = lf then .ok i else .fail .bareCr i
      else if c = lf then .fail .bareLf i
      else if isTextChar c then scanText rest (i + 1)
      else .fail .textChar i

/-- `smtp_reply_parser_scan_text_and_crlf`: the length of the text and the bytes consumed. -/
def scanTextAndCrlf (buf : Bytes) (textStart : Nat) : LineResult (Nat × Nat) :=
  match scanText (buf.drop textStart) textStart with
  | .ok i => .ok (i - textStart, i + 2)
  | .incomplete => .incomplete
  | .fail err offset => .fail err offset

def parseLine (buf : Bytes) : LineResult Line :=
  match parseCode buf with
  | .incomplete => .incomplete
  | .fail err offset => .fail err offset
  | .ok code =>
      match determineSeparator buf with
      | .incomplete => .incomplete
      | .fail err offset => .fail err offset
      | .ok (isFinal, textStart) =>
          match scanTextAndCrlf buf textStart with
          | .incomplete => .incomplete
          | .fail err offset => .fail err offset
          | .ok (textLen, consumed) => .ok ⟨code, isFinal, textStart, textLen, consumed⟩

/-- The verdicts of `smtp_reply_read`. -/
inductive ReadResult where
  | ok (reply : Reply)
  | incomplete
  | errLine
  | errCodeMismatch
  | errTooManyLines
  deriving DecidableEq, Repr

/-- The loop of `smtp_reply_read`, with `remaining` the lines still allowed. -/
def readLoop (buf : Bytes) : (remaining offset lineCount firstCode : Nat) → ReadResult
  | 0, _, _, _ => .errTooManyLines
  | remaining + 1, offset, lineCount, firstCode =>
      match parseLine (buf.drop offset) with
      | .incomplete => .incomplete
      | .fail _ _ => .errLine
      | .ok line =>
          let firstCode' := if lineCount = 0 then line.code else firstCode
          if lineCount ≠ 0 ∧ line.code ≠ firstCode then .errCodeMismatch
          else if line.isFinal then
            .ok ⟨firstCode', offset + line.consumed, lineCount + 1⟩
          else readLoop buf remaining (offset + line.consumed) (lineCount + 1) firstCode'

/-- `smtp_reply_read`; the caller passes `maxLines > 0`. -/
def read (buf : Bytes) (maxLines : Nat) : ReadResult := readLoop buf maxLines 0 0 0

/-- The 2xx test the greeting and the STARTTLS reply are put to. -/
def positive (code : Nat) : Bool := decide (200 ≤ code ∧ code < 300)

end Reply

end SmtpClient
