import SmtpClient.Base.Buffer

/-!
# The hex dump

`smtp_log_hex_dump`. Its four appending functions write all of their text or nothing, so that one
byte is always left for the terminating NUL, and report which; the loop over the bytes heeds the
report, and what comes after it does not.
-/

namespace SmtpClient

namespace Log

/-- `dst` and `*pos`. -/
structure Cursor (dstSize : Nat) where
  dst : Buffer dstSize
  pos : Nat
  pos_le : pos ≤ dstSize - 1

variable {dstSize : Nat}

/-- What the appending functions share; `none` if the text does not fit. -/
def Cursor.append (cursor : Cursor dstSize) (text : Bytes) : Option (Cursor dstSize) :=
  if h : dstSize - 1 < cursor.pos + text.length then none
  else
    some
      { dst := cursor.dst.blit cursor.pos text
        pos := cursor.pos + text.length
        pos_le := Nat.le_of_not_lt h }

/-- `smtp_log_append_char`. -/
def appendChar (cursor : Cursor dstSize) (c : UInt8) : Option (Cursor dstSize) := cursor.append [c]

/-- `smtp_log_append_str`. -/
def appendStr (cursor : Cursor dstSize) (s : Bytes) : Option (Cursor dstSize) := cursor.append s

/-- `g_hex_digits`. -/
def hexDigits : Bytes := bytes "0123456789ABCDEF"

/-- `smtp_log_append_hex_byte`. -/
def appendHexByte (cursor : Cursor dstSize) (b : UInt8) : Option (Cursor dstSize) :=
  cursor.append [hexDigits.getD ((b >>> 4) &&& 0xF).toNat 0, hexDigits.getD (b &&& 0xF).toNat 0]

/-- The digits of a value in a `tmp` of this size, from the last one on. -/
def tmpDigits : (size : Nat) → (value : Nat) → Bytes
  | 0, _ => []
  | size + 1, value =>
      if value = 0 then [] else UInt8.ofNat (48 + value % 10) :: tmpDigits size (value / 10)

/-- `smtp_log_append_uint`. -/
def appendUint (cursor : Cursor dstSize) (value : Nat) : Option (Cursor dstSize) :=
  cursor.append (if value = 0 then [48] else tmpDigits 24 value).reverse

/-- The loop over the bytes from the `i`-th on. -/
def dumpBytes (cursor : Cursor dstSize) (i : Nat) : Bytes → Cursor dstSize
  | [] => cursor
  | b :: rest =>
      match if 0 < i then appendChar cursor 32 else some cursor with
      | none => cursor
      | some cursor =>
          match appendHexByte cursor b with
          | none => cursor
          | some cursor => dumpBytes cursor (i + 1) rest

/-- Everything between the opening and the closing bracket, and these. -/
def dump (cursor : Cursor dstSize) (src : Bytes) (maxBytes : Nat) : Cursor dstSize :=
  let cursor := (appendChar cursor 91).getD cursor
  let dumpCount := if src.length < maxBytes then src.length else maxBytes
  let cursor := dumpBytes cursor 0 (src.take dumpCount)
  let cursor :=
    if dumpCount < src.length then
      let cursor := if 0 < dumpCount then (appendChar cursor 32).getD cursor else cursor
      let cursor := (appendChar cursor 43).getD cursor
      let cursor := (appendUint cursor (src.length - dumpCount)).getD cursor
      (appendStr cursor (bytes " more bytes")).getD cursor
    else cursor
  (appendChar cursor 93).getD cursor

/-- `smtp_log_hex_dump`: what it returns, and `dst`. A pointer may be NULL; a `src` that is counts
as empty, whatever `src_len`. That `pos < dst_size` at the end, as is asserted, is `pos_le`. -/
def hexDump (dst : Option (Buffer dstSize)) (src : Option Bytes) (maxBytes : Nat) :
    Nat × Option (Buffer dstSize) :=
  match dst with
  | none => (0, none)
  | some dst =>
      if dstSize = 0 then (0, some dst)
      else
        let cursor := dump ⟨dst, 0, Nat.zero_le _⟩ (src.getD []) maxBytes
        (cursor.pos, some (cursor.dst.blit cursor.pos [0]))

end Log

end SmtpClient
