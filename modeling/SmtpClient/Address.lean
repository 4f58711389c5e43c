import SmtpClient.Base.Buffer

/-!
# Addresses

`smtp_address_validator.c`, its names less the prefix: an automaton over the local-part up to the
separating `@`, and one over the domain. A failed verdict carries the offset `smtp_addr_fail`
records; the texts of the errors, which no verdict depends on, are left out. A NULL address is the
empty one, and the second bound of both loops (`i < ADDRESS_MAX_LEN`) is what their assertion
`len <= ADDRESS_MAX_LEN` already says.
-/

namespace SmtpClient

namespace Address

def localPartMaxLen : Nat := 64
def domainLabelMaxLen : Nat := 63
def domainMaxLen : Nat := 255
def addressMaxLen : Nat := 256

/-- The flags of a byte's entry in the class table. -/
structure CharClass where
  atext : Bool
  alpha : Bool
  digit : Bool
  qtext : Bool
  dlit : Bool
  deriving DecidableEq, Repr

/-- `smtp_addr_build_char_class_table`, one entry. -/
def charClass (c : UInt8) : CharClass :=
  let alpha := 65 ≤ c && c ≤ 90 || 97 ≤ c && c ≤ 122
  let digit := 48 ≤ c && c ≤ 57
  { alpha, digit
    atext := alpha || digit || (bytes "!#$%&'*+-/=?^_`{|}~").contains c
    qtext := 32 ≤ c && c ≤ 126 && c != 34 && c != 92
    dlit := 33 ≤ c && c ≤ 126 && c != 91 && c != 93 && c != 92 }

def isAtext (c : UInt8) : Bool := (charClass c).atext
def isQtext (c : UInt8) : Bool := (charClass c).qtext
def isDlit (c : UInt8) : Bool := (charClass c).dlit
def isAlnum (c : UInt8) : Bool := (charClass c).alpha || (charClass c).digit

def at_ : UInt8 := 64
def dot : UInt8 := 46
def quote : UInt8 := 34
def backslash : UInt8 := 92
def hyphen : UInt8 := 45
def opening : UInt8 := 91
def closing : UInt8 := 93

inductive Err where
  | empty
  | localEmpty
  | localInvalidChar
  | localTooLong
  | localLeadingDot
  | localTrailingDot
  | localConsecutiveDots
  | localUnterminatedQuote
  | localBadEscape
  | localBadQuotedChar
  | missingAt
  | domainEmpty
  | domainInvalidChar
  | domainLabelEmpty
  | domainLabelTooLong
  | domainTooLong
  | domainLeadingHyphen
  | domainTrailingHyphen
  | domainLiteralEmpty
  | domainLiteralUnterminated
  | domainLiteralInvalid
  | totalTooLong
  deriving DecidableEq, Repr

/-- An error and the offset it is reported at. -/
abbrev Failure := Err × Nat

/-! ### The local-part -/

inductive LocalState where
  | start
  | atom
  | dot
  | quotedStart
  | quotedChar
  | quotedEscape
  deriving DecidableEq, Repr

/-- The variables of `smtp_addr_parse_local_part` a step may change. -/
structure LocalScan where
  state : LocalState
  localLen : Nat
  foundAt : Bool
  deriving DecidableEq, Repr

/-- The length check at the end of five of the six steps. -/
def LocalScan.checked (s : LocalScan) (i : Nat) : Except Failure LocalScan :=
  if localPartMaxLen < s.localLen then .error (.localTooLong, i) else .ok s

def stepLocalStart (c : UInt8) (i : Nat) (s : LocalScan) : Except Failure LocalScan :=
  if c = quote then .ok { s with state := .quotedStart }
  else if c = dot then .error (.localLeadingDot, i)
  else if c = at_ then .error (.localEmpty, i)
  else if isAtext c then .ok { s with state := .atom, localLen := 1 }
  else .error (.localInvalidChar, i)

def stepLocalAtom (c : UInt8) (i : Nat) (s : LocalScan) : Except Failure LocalScan :=
  if c = at_ then .ok { s with foundAt := true }
  else if c = dot then { s with state := .dot, localLen := s.localLen + 1 }.checked i
  else if isAtext c then { s with localLen := s.localLen + 1 }.checked i
  else .error (.localInvalidChar, i)

def stepLocalDot (c : UInt8) (i : Nat) (s : LocalScan) : Except Failure LocalScan :=
  if c = dot then .error (.localConsecutiveDots, i)
  else if c = at_ then .error (.localTrailingDot, i)
  else if isAtext c then { s with state := .atom, localLen := s.localLen + 1 }.checked i
  else .error (.localInvalidChar, i)

/-- The first byte behind the opening quote is counted without a check. -/
def stepLocalQuotedStart (c : UInt8) (i : Nat) (s : LocalScan) : Except Failure LocalScan :=
  if c = quote then .error (.localEmpty, i)
  else if c = backslash then .ok { s with state := .quotedEscape }
  else if isQtext c then .ok { s with state := .quotedChar, localLen := s.localLen + 1 }
  else .error (.localBadQuotedChar, i)

/-- The closing quote leads to the state in which an atom goes on. -/
def stepLocalQuotedChar (c : UInt8) (i : Nat) (s : LocalScan) : Except Failure LocalScan :=
  if c = quote then .ok { s with state := .atom }
  else if c = backslash then .ok { s with state := .quotedEscape }
  else if isQtext c then { s with localLen := s.localLen + 1 }.checked i
  else .error (.localBadQuotedChar, i)

def stepLocalQuotedEscape (c : UInt8) (i : Nat) (s : LocalScan) : Except Failure LocalScan :=
  if c < 32 ∨ 126 < c then .error (.localBadEscape, i)
  else { s with state := .quotedChar, localLen := s.localLen + 1 }.checked i

def stepLocal (c : UInt8) (i : Nat) (s : LocalScan) : Except Failure LocalScan :=
  match s.state with
  | .start => stepLocalStart c i s
  | .atom => stepLocalAtom c i s
  | .dot => stepLocalDot c i s
  | .quotedStart => stepLocalQuotedStart c i s
  | .quotedChar => stepLocalQuotedChar c i s
  | .quotedEscape => stepLocalQuotedEscape c i s

/-- The loop of `smtp_addr_parse_local_part` over the bytes from `i` on, and what follows it. -/
def parseLocalLoop (len : Nat) : Bytes → Nat → LocalScan → Except Failure Nat
  | [], _, s =>
      if s.state = .quotedStart ∨ s.state = .quotedChar ∨ s.state = .quotedEscape then
        .error (.localUnterminatedQuote, len)
      else .error (.missingAt, len - 1)
  | c :: rest, i, s =>
      match stepLocal c i s with
      | .error failure => .error failure
      | .ok s => if s.foundAt then .ok i else parseLocalLoop len rest (i + 1) s

/-- `smtp_addr_parse_local_part`: where the separating `@` stands. -/
def parseLocalPart (addr : Bytes) : Except Failure Nat :=
  parseLocalLoop addr.length addr 0 ⟨.start, 0, false⟩

/-! ### The domain -/

inductive DomainState where
  | labelStart
  | labelChar
  | literal
  | literalDone
  deriving DecidableEq, Repr

structure DomainScan where
  state : DomainState
  labelLen : Nat
  domainLen : Nat
  deriving DecidableEq, Repr

/-- An opening bracket is taken at the start of any label. -/
def stepDomainLabelStart (c : UInt8) (i : Nat) (s : DomainScan) : Except Failure DomainScan :=
  if c = opening then .ok { s with state := .literal }
  else if c = dot then .error (.domainLabelEmpty, i)
  else if c = hyphen then .error (.domainLeadingHyphen, i)
  else if isAlnum c then .ok ⟨.labelChar, 1, s.domainLen + 1⟩
  else .error (.domainInvalidChar, i)

/-- The length checks at the end of `smtp_addr_step_domain_label_char`. -/
def DomainScan.checked (s : DomainScan) (i : Nat) : Except Failure DomainScan :=
  if domainLabelMaxLen < s.labelLen then .error (.domainLabelTooLong, i)
  else if domainMaxLen < s.domainLen then .error (.domainTooLong, i)
  else .ok s

def stepDomainLabelChar (addr : Bytes) (c : UInt8) (i : Nat) (s : DomainScan) :
    Except Failure DomainScan :=
  if c = dot then
    if addr[i - 1]? = some hyphen then .error (.domainTrailingHyphen, i - 1)
    else (DomainScan.mk .labelStart 0 (s.domainLen + 1)).checked i
  else if c = hyphen ∨ isAlnum c then
    { s with labelLen := s.labelLen + 1, domainLen := s.domainLen + 1 }.checked i
  else .error (.domainInvalidChar, i)

def stepDomainLiteral (c : UInt8) (i len : Nat) (s : DomainScan) : Except Failure DomainScan :=
  if c = closing then
    if s.domainLen = 0 then .error (.domainLiteralEmpty, i)
    else if i ≠ len - 1 then .error (.domainLiteralInvalid, i)
    else .ok { s with state := .literalDone }
  else if isDlit c then .ok { s with domainLen := s.domainLen + 1 }
  else .error (.domainLiteralInvalid, i)

/-- The loop returns as soon as it is done with a literal: there is no step from there. -/
def stepDomain (addr : Bytes) (c : UInt8) (i : Nat) (s : DomainScan) : Except Failure DomainScan :=
  match s.state with
  | .labelStart => stepDomainLabelStart c i s
  | .labelChar => stepDomainLabelChar addr c i s
  | .literal => stepDomainLiteral c i addr.length s
  | .literalDone => .error (.domainLiteralInvalid, i)

/-- The loop of `smtp_addr_parse_domain` over the bytes from `i` on, and what follows it. -/
def parseDomainLoop (addr : Bytes) : Bytes → Nat → DomainScan → Except Failure Unit
  | [], _, s =>
      match s.state with
      | .labelStart => .error (.domainEmpty, addr.length)
      | .labelChar =>
          if addr[addr.length - 1]? = some hyphen then
            .error (.domainTrailingHyphen, addr.length - 1)
          else .ok ()
      | .literal => .error (.domainLiteralUnterminated, addr.length)
      | .literalDone => .ok ()
  | c :: rest, i, s =>
      match stepDomain addr c i s with
      | .error failure => .error failure
      | .ok s => if s.state = .literalDone then .ok () else parseDomainLoop addr rest (i + 1) s

/-- `smtp_addr_parse_domain`. -/
def parseDomain (addr : Bytes) (start : Nat) : Except Failure Unit :=
  parseDomainLoop addr (addr.drop start) start ⟨.labelStart, 0, 0⟩

/-- `smtp_address_validate`. -/
def validate (addr : Bytes) : Except Failure Unit :=
  if addr = [] then .error (.empty, 0)
  else if addressMaxLen < addr.length then .error (.totalTooLong, addressMaxLen)
  else
    match parseLocalPart addr with
    | .error failure => .error failure
    | .ok atIndex => parseDomain addr (atIndex + 1)

end Address

end SmtpClient
