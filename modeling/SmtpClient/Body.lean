import SmtpClient.Base.Buffer

/-!
# Message bodies

`smtp_body_validator.c`, its names less the prefix. A failed verdict carries the offset
`smtp_body_fail` records; the texts of the errors, which no verdict depends on, are left out. A NULL
body is the empty one.
-/

namespace SmtpClient

namespace Body

def maxLineLen : Nat := 998

inductive Err where
  | empty
  | bareCr
  | bareLf
  | lineTooLong
  | prematureTerminator
  | controlChar
  | eightBitNotAllowed
  deriving DecidableEq, Repr

def dot : UInt8 := 46

def isDisallowedControl (c : UInt8) : Bool :=
  if c = cr ∨ c = lf ∨ c = 9 then false else c ≤ 0x1F || c == 0x7F

def isBareDotLine (body : Bytes) (lineStart lineEnd : Nat) : Bool :=
  lineEnd - lineStart == 1 && body[lineStart]? == some dot

/-- `smtp_bodyval_step_handle_crlf` at the CR at `i`, with the byte behind it. -/
def stepHandleCrlf (body : Bytes) (next : UInt8) (i lineStart : Nat) : Except (Err × Nat) Unit :=
  if next ≠ lf then .error (.bareCr, i)
  else if isBareDotLine body lineStart i then .error (.prematureTerminator, lineStart)
  else .ok ()

def stepCheckByte (c : UInt8) (i : Nat) (allow8bit : Bool) : Except (Err × Nat) Unit :=
  if isDisallowedControl c then .error (.controlChar, i)
  else if !allow8bit && 0x80 ≤ c then .error (.eightBitNotAllowed, i)
  else .ok ()

/-- The loop of `smtp_body_validate` over the bytes from `i` on: where the last line starts. -/
def validateLoop (body : Bytes) (allow8bit : Bool) :
    Bytes → (i lineStart lineLen : Nat) → Except (Err × Nat) Nat
  | [], _, lineStart, _ => .ok lineStart
  | c :: rest, i, lineStart, lineLen =>
      if c = cr then
        match rest with
        | [] => .error (.bareCr, i)
        | next :: rest =>
            match stepHandleCrlf body next i lineStart with
            | .error failure => .error failure
            | .ok () => validateLoop body allow8bit rest (i + 2) (i + 2) 0
      else if c = lf then .error (.bareLf, i)
      else
        match stepCheckByte c i allow8bit with
        | .error failure => .error failure
        | .ok () =>
            if maxLineLen < lineLen + 1 then .error (.lineTooLong, i + 1)
            else validateLoop body allow8bit rest (i + 1) lineStart (lineLen + 1)

/-- `smtp_body_validate`. -/
def validate (body : Bytes) (allow8bit : Bool) : Except (Err × Nat) Unit :=
  if body = [] then .error (.empty, 0)
  else
    match validateLoop body allow8bit body 0 0 0 with
    | .error failure => .error failure
    | .ok lineStart =>
        if isBareDotLine body lineStart body.length then .error (.prematureTerminator, lineStart)
        else .ok ()

end Body

end SmtpClient
