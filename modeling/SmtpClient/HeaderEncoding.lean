import SmtpClient.Base.Buffer

/-!
# Encoded words

`smtp_header_encoding.c`, its names less the prefix: one encoded word of a header value. A failed
verdict carries the offset `smtp_hdr_fail` records; the texts of the errors, which no verdict
depends on, are left out. A NULL word is the empty one.
-/

namespace SmtpClient

namespace HeaderEncoding

def encodedWordMaxLen : Nat := 75

/-- The flags of a byte's entry in the class table. -/
structure CharClass where
  token : Bool
  enctext : Bool
  hex : Bool
  b64 : Bool
  deriving DecidableEq, Repr

/-- `smtp_hdr_build_char_class_table`, one entry. -/
def charClass (c : UInt8) : CharClass :=
  let isPrintable := 33 ≤ c && c ≤ 126
  let isTspecial := (bytes "()<>@,;:\\\"/[]?=").contains c
  { token := isPrintable && !isTspecial
    enctext := isPrintable && c != 63
    hex := 48 ≤ c && c ≤ 57 || 65 ≤ c && c ≤ 70 || 97 ≤ c && c ≤ 102
    b64 := 65 ≤ c && c ≤ 90 || 97 ≤ c && c ≤ 122 || 48 ≤ c && c ≤ 57 || c == 43 || c == 47 }

def isTokenChar (c : UInt8) : Bool := (charClass c).token
def isEnctextChar (c : UInt8) : Bool := (charClass c).enctext
def isHexDigit (c : UInt8) : Bool := (charClass c).hex
def isB64Char (c : UInt8) : Bool := (charClass c).b64

def equals : UInt8 := 61
def question : UInt8 := 63

inductive Err where
  | empty
  | tooLong
  | missingOpenDelim
  | charsetEmpty
  | charsetInvalidChar
  | missingCharsetDelim
  | encodingInvalid
  | missingEncodingDelim
  | missingCloseDelim
  | textEmpty
  | textInvalidChar
  | qBadHexEscape
  | bInvalidChar
  | bBadLength
  | bBadPadding
  deriving DecidableEq, Repr

/-- An error and the offset it is reported at. -/
abbrev Failure := Err × Nat

/-- The loop of `smtp_hdr_parse_charset` over the bytes from `i` on. -/
def parseCharsetLoop (len : Nat) : Bytes → Nat → Except Failure Nat
  | [], _ => .error (.missingCharsetDelim, len)
  | c :: rest, i =>
      if c = question then .ok i
      else if !isTokenChar c then .error (.charsetInvalidChar, i)
      else parseCharsetLoop len rest (i + 1)

/-- `smtp_hdr_parse_charset`: where the delimiter behind the charset stands. -/
def parseCharset (word : Bytes) (start : Nat) : Except Failure Nat :=
  if word.length ≤ start ∨ word[start]? = some question then .error (.charsetEmpty, start)
  else parseCharsetLoop word.length (word.drop start) start

/-- `smtp_hdr_parse_encoding`: whether the text is base64, and where the delimiter stands. -/
def parseEncoding (word : Bytes) (start : Nat) : Except Failure (Bool × Nat) :=
  match word[start]? with
  | none => .error (.encodingInvalid, start)
  | some c =>
      if c = 81 ∨ c = 113 ∨ c = 66 ∨ c = 98 then
        let delim := start + 1
        if word[delim]? = some question then .ok (c = 66 ∨ c = 98, delim)
        else .error (.missingEncodingDelim, delim)
      else .error (.encodingInvalid, start)

/-- The loop of `smtp_hdr_validate_q_text` over the bytes of the text from `i` on. -/
def validateQTextLoop : Bytes → Nat → Except Failure Unit
  | [], _ => .ok ()
  | c :: rest, i =>
      if c = equals then
        match rest with
        | first :: second :: rest =>
            if isHexDigit first && isHexDigit second then validateQTextLoop rest (i + 3)
            else .error (.qBadHexEscape, i)
        | _ => .error (.qBadHexEscape, i)
      else if isEnctextChar c then validateQTextLoop rest (i + 1)
      else .error (.textInvalidChar, i)

/-- `smtp_hdr_validate_q_text`. -/
def validateQText (word : Bytes) (start stop : Nat) : Except Failure Unit :=
  validateQTextLoop ((word.take stop).drop start) start

/-- The loop of `smtp_hdr_validate_b_text`: the number of pads. -/
def validateBTextLoop : Bytes → (i padCount : Nat) → Except Failure Nat
  | [], _, padCount => .ok padCount
  | c :: rest, i, padCount =>
      if c = equals then validateBTextLoop rest (i + 1) (padCount + 1)
      else if 0 < padCount then .error (.bBadPadding, i)
      else if !isB64Char c then .error (.bInvalidChar, i)
      else validateBTextLoop rest (i + 1) padCount

/-- `smtp_hdr_validate_b_text`. -/
def validateBText (word : Bytes) (start stop : Nat) : Except Failure Unit :=
  match validateBTextLoop ((word.take stop).drop start) start 0 with
  | .error failure => .error failure
  | .ok padCount =>
      if 2 < padCount then .error (.bBadPadding, stop - padCount)
      else if (stop - start) % 4 ≠ 0 then .error (.bBadLength, stop)
      else .ok ()

/-- `smtp_hdr_validate_encoded_word`. -/
def validateEncodedWord (word : Bytes) : Except Failure Unit :=
  let len := word.length
  if word = [] then .error (.empty, 0)
  else if encodedWordMaxLen < len then .error (.tooLong, encodedWordMaxLen)
  else if len < 2 ∨ word[0]? ≠ some equals ∨ word[1]? ≠ some question then
    .error (.missingOpenDelim, 0)
  else if word[len - 2]? ≠ some question ∨ word[len - 1]? ≠ some equals then
    .error (.missingCloseDelim, len - 2)
  else
    match parseCharset word 2 with
    | .error failure => .error failure
    | .ok charsetEnd =>
        match parseEncoding word (charsetEnd + 1) with
        | .error failure => .error failure
        | .ok (isBase64, encodingEnd) =>
            let textStart := encodingEnd + 1
            let textEnd := len - 2
            if textEnd ≤ textStart then .error (.textEmpty, textStart)
            else if isBase64 then validateBText word textStart textEnd
            else validateQText word textStart textEnd

end HeaderEncoding

end SmtpClient
