import SmtpClient.Reply

/-!
# The capability set of an EHLO reply

`smtp_capabilities.c`, its names less the prefix `smtp_cap_`: keyword lines are dispatched on a
packed key, everything unrecognised goes to a bounded catch-all store, and a summary of the set is
rendered for the log. `int` flags are Booleans, a `char` array holds the bytes before its NUL, and
`unknown[0 .. unknown_count)` is a list.
-/

namespace SmtpClient

structure CapUnknown where
  keyword : Bytes
  params : Bytes
  truncated : Bool
  deriving DecidableEq, Repr

/-- `smtp_capabilities`; the default is what `smtp_cap_init` leaves. -/
structure Capabilities where
  hasPipelining : Bool := false
  hasStarttls : Bool := false
  has8bitmime : Bool := false
  hasEnhancedstatuscodes : Bool := false
  hasChunking : Bool := false
  hasDsn : Bool := false
  hasBinarymime : Bool := false
  hasSmtputf8 : Bool := false
  hasSize : Bool := false
  sizeLimitValid : Bool := false
  sizeLimit : Nat := 0
  hasAuth : Bool := false
  authMechs : Nat := 0
  authRaw : Bytes := []
  unknown : List CapUnknown := []
  unknownOverflowCount : UInt64 := 0
  deriving DecidableEq, Repr

namespace Cap

def maxUnknown : Nat := 32
def maxKeywordLen : Nat := 32
def maxParamLen : Nat := 128

/-- The locale-free `a >= 'a' && a <= 'z' ? a - 32 : a`. -/
def fold (c : UInt8) : UInt8 := if 97 ≤ c ∧ c ≤ 122 then c - 32 else c

def ciEqual : Bytes → Bytes → Bool
  | [], literal => literal.isEmpty
  | _ :: _, [] => false
  | a :: text, b :: literal => fold a == fold b && ciEqual text literal

/-- `SMTP_KW_BYTE`; the eight lanes of a key fill a `uint64_t` exactly. -/
def kwByte (c : UInt8) (lane : Nat) : Nat := c.toNat <<< (8 * lane)

/-- The packing shared by the scan below and the `SMTP_KEY_*` constants (`SMTP_KW3` to
`SMTP_KW8`). -/
def packFrom : Nat → Bytes → Nat
  | _, [] => 0
  | lane, c :: rest => kwByte c lane ||| packFrom (lane + 1) rest

/-- An `SMTP_KEY_*` constant: the first eight bytes of a keyword, packed. -/
def keyOf (keyword : Bytes) : Nat := packFrom 0 (keyword.take 8)

def tailBufLen : Nat := 24

/-- What `smtp_cap_extract_keyword_and_key` reports. -/
structure KeywordScan where
  key : Nat
  kwLen : Nat
  tail : Bytes
  deriving DecidableEq, Repr

/-- The loop of `smtp_cap_extract_keyword_and_key`. -/
def extractLoop : Bytes → KeywordScan → KeywordScan
  | [], scan => scan
  | c :: rest, scan =>
      if c = 32 then scan
      else if scan.kwLen < 8 then
        extractLoop rest
          { scan with key := scan.key ||| kwByte (fold c) scan.kwLen, kwLen := scan.kwLen + 1 }
      else if scan.tail.length < tailBufLen then
        extractLoop rest { scan with tail := scan.tail ++ [fold c], kwLen := scan.kwLen + 1 }
      else extractLoop rest { scan with kwLen := scan.kwLen + 1 }

/-- `smtp_cap_extract_keyword_and_key`: the keyword, packed, and the parameters behind the first
space. -/
def extractKeywordAndKey (text : Bytes) : KeywordScan × Bytes :=
  let scan := extractLoop text ⟨0, 0, []⟩
  (scan, if scan.kwLen < text.length then text.drop (scan.kwLen + 1) else [])

def isDigit (c : UInt8) : Bool := 48 ≤ c && c ≤ 57

def sizeMax : Nat := 2 ^ 64 - 1

/-- The digit loop of `smtp_cap_parse_size_param`; `none` on overflow. -/
def sizeLoop : Bytes → Nat → Option Nat
  | [], result => some result
  | c :: rest, result =>
      if isDigit c then
        let digit := c.toNat - 48
        if (sizeMax - digit) / 10 < result then none else sizeLoop rest (result * 10 + digit)
      else some result

/-- `smtp_cap_parse_size_param`; `none` is `*valid = 0`, which leaves `*value` as it was. -/
def parseSizeParam (text : Bytes) : Option Nat :=
  match text.dropWhile (· = 32) with
  | [] => none
  | c :: rest => if isDigit c then sizeLoop (c :: rest) 0 else none

/-- `g_smtp_cap_known_auth`. -/
def knownAuth : List (Bytes × Nat) :=
  [(bytes "PLAIN", 1 <<< 0), (bytes "LOGIN", 1 <<< 1), (bytes "CRAM-MD5", 1 <<< 2),
    (bytes "DIGEST-MD5", 1 <<< 3), (bytes "XOAUTH2", 1 <<< 4), (bytes "SCRAM-SHA-1", 1 <<< 5),
    (bytes "SCRAM-SHA-256", 1 <<< 6), (bytes "NTLM", 1 <<< 7), (bytes "GSSAPI", 1 <<< 8)]

def authMechUnknown : Nat := 1 <<< 9

def matchAuthMechanism (token : Bytes) (mask : Nat) : Nat :=
  match knownAuth.find? fun known => ciEqual token known.1 with
  | some known => mask ||| known.2
  | none => mask ||| authMechUnknown

/-- `smtp_cap_parse_auth_mechanisms`, with `token` the bytes since `token_start`. -/
def parseAuthMechanisms : Bytes → (token : Bytes) → (mask : Nat) → Nat
  | [], token, mask => if token.isEmpty then mask else matchAuthMechanism token mask
  | c :: rest, token, mask =>
      if c = 32 then
        parseAuthMechanisms rest [] (if token.isEmpty then mask else matchAuthMechanism token mask)
      else parseAuthMechanisms rest (token ++ [c]) mask

/-- `while (i < len && p(text[i])) i++`, for so many turns; `none` if they do not end it. -/
def scanWhile (p : UInt8 → Bool) (text : Bytes) : (turns i : Nat) → Option Nat
  | 0, _ => none
  | turns + 1, i =>
      match text[i]? with
      | some c => if p c then scanWhile p text turns (i + 1) else some i
      | none => some i

/-- The three loops of `smtp_cap_parse_auth_mechanisms` over indices, each for so many turns. -/
def authLoop (text : Bytes) : (turns i mask : Nat) → Option Nat
  | 0, _, _ => none
  | turns + 1, i, mask =>
      if i < text.length then do
        let tokenStart ← scanWhile (· = 32) text turns i
        let stop ← scanWhile (· ≠ 32) text turns tokenStart
        authLoop text turns stop
          (if tokenStart < stop then
            matchAuthMechanism ((text.drop tokenStart).take (stop - tokenStart)) mask
          else mask)
      else some mask

/-- `smtp_cap_bounded_copy`: what is kept, and whether anything was cut. -/
def boundedCopy (dstSize : Nat) (src : Bytes) : Bytes × Bool :=
  (clip dstSize src, decide (dstSize - 1 < src.length))

def storeUnknown (caps : Capabilities) (kw params : Bytes) : Capabilities :=
  if maxUnknown ≤ caps.unknown.length then
    { caps with unknownOverflowCount := caps.unknownOverflowCount + 1 }
  else
    let keyword := boundedCopy maxKeywordLen kw
    let params := boundedCopy maxParamLen params
    { caps with
      unknown := caps.unknown ++ [⟨keyword.1, params.1, keyword.2 || params.2⟩] }

def init : Capabilities := {}

def parseLine (caps : Capabilities) (text : Bytes) : Capabilities :=
  if text.isEmpty then caps
  else
    let scan := (extractKeywordAndKey text).1
    let params := (extractKeywordAndKey text).2
    if scan.key = keyOf (bytes "DSN") ∧ scan.kwLen = 3 then { caps with hasDsn := true }
    else if scan.key = keyOf (bytes "SIZE") ∧ scan.kwLen = 4 then
      match parseSizeParam params with
      | some value => { caps with hasSize := true, sizeLimit := value, sizeLimitValid := true }
      | none => { caps with hasSize := true, sizeLimitValid := false }
    else if scan.key = keyOf (bytes "AUTH") ∧ scan.kwLen = 4 then
      { caps with
        hasAuth := true
        authMechs := parseAuthMechanisms params [] caps.authMechs
        authRaw := (boundedCopy maxParamLen params).1 }
    else if scan.key = keyOf (bytes "STARTTLS") ∧ scan.kwLen = 8 then
      { caps with hasStarttls := true }
    else if scan.key = keyOf (bytes "8BITMIME") ∧ scan.kwLen = 8 then
      { caps with has8bitmime := true }
    else if scan.key = keyOf (bytes "CHUNKING") ∧ scan.kwLen = 8 then
      { caps with hasChunking := true }
    else if scan.key = keyOf (bytes "SMTPUTF8") ∧ scan.kwLen = 8 then
      { caps with hasSmtputf8 := true }
    else if scan.key = keyOf (bytes "PIPELINING") ∧ scan.kwLen = 10 ∧ scan.tail = bytes "NG" then
      { caps with hasPipelining := true }
    else if scan.key = keyOf (bytes "BINARYMIME") ∧ scan.kwLen = 10 ∧ scan.tail = bytes "ME" then
      { caps with hasBinarymime := true }
    else if scan.key = keyOf (bytes "ENHANCEDSTATUSCODES") ∧ scan.kwLen = 19
        ∧ scan.tail = bytes "STATUSCODES" then
      { caps with hasEnhancedstatuscodes := true }
    else storeUnknown caps (text.take scan.kwLen) params

/-- The loop of `smtp_cap_parse_ehlo_response` over the lines of an accepted reply; `none` is its
assertion that each line parses again. Line 0 is greeting text, not a capability. -/
def parseLines (buf : Bytes) : (remaining i offset : Nat) → Capabilities → Option Capabilities
  | 0, _, _, caps => some caps
  | remaining + 1, i, offset, caps =>
      match Reply.parseLine (buf.drop offset) with
      | .ok line =>
          let text := ((buf.drop offset).drop line.textOffset).take line.textLen
          parseLines buf remaining (i + 1) (offset + line.consumed)
            (if 0 < i then parseLine caps text else caps)
      | _ => none

/-- `smtp_cap_parse_ehlo_response`: the verdict it returns and what `*caps` holds afterwards. -/
def parseEhloResponse (caps : Capabilities) (buf : Bytes) (maxLines : Nat) :
    Option (Reply.ReadResult × Capabilities) :=
  match Reply.read buf maxLines with
  | .ok reply => (parseLines buf reply.lineCount 0 0 init).map fun caps => (.ok reply, caps)
  | verdict => some (verdict, caps)

theorem read_of_parseEhloResponse {caps caps' : Capabilities} {buf : Bytes} {maxLines : Nat}
    {verdict : Reply.ReadResult}
    (h : parseEhloResponse caps buf maxLines = some (verdict, caps')) :
    Reply.read buf maxLines = verdict := by
  unfold parseEhloResponse at h
  split at h
  · rename_i reply hread
    obtain ⟨parsed, -, heq⟩ := Option.map_eq_some_iff.mp h
    cases heq
    exact hread
  · cases h
    rfl

/-- What an accepted reply leaves in `*caps` does not depend on what was there. -/
theorem parseEhloResponse_congr {caps parsed : Capabilities} {buf : Bytes} {maxLines : Nat}
    {reply : Reply} (caps' : Capabilities)
    (h : parseEhloResponse caps buf maxLines = some (.ok reply, parsed)) :
    parseEhloResponse caps' buf maxLines = some (.ok reply, parsed) := by
  have hread := read_of_parseEhloResponse h
  unfold parseEhloResponse at h ⊢
  simpa only [hread] using h

/-- `%zu`. -/
def decimal (n : Nat) : Bytes := (Nat.toDigits 10 n).map fun c => UInt8.ofNat c.toNat

/-- What `smtp_cap_format_summary` carries from token to token. -/
structure Summary where
  dst : Bytes := []
  pos : Nat := 0
  any : Bool := false

/-- `smtp_cap_append_summary_token`, with the caller's `any = 1` behind it. -/
def appendSummaryToken (dstSize : Nat) (summary : Summary) (token : Bytes) : Summary :=
  let text := (if summary.any then [32] else []) ++ cstr token
  { dst :=
      if summary.pos < dstSize then
        summary.dst.take summary.pos ++ clip (dstSize - summary.pos) text
      else summary.dst
    pos := summary.pos + text.length
    any := true }

/-- The size of the scratch `tmp` the SIZE and AUTH tokens are rendered in. -/
def tmpLen : Nat := 160

/-- The tokens `smtp_cap_format_summary` appends, in its order. -/
def summaryTokens (caps : Capabilities) : List Bytes :=
  let flag (present : Bool) (name : String) : List Bytes := if present then [bytes name] else []
  flag caps.hasPipelining "PIPELINING" ++ flag caps.hasStarttls "STARTTLS"
    ++ flag caps.has8bitmime "8BITMIME" ++ flag caps.hasEnhancedstatuscodes "ENHANCEDSTATUSCODES"
    ++ flag caps.hasChunking "CHUNKING" ++ flag caps.hasDsn "DSN"
    ++ flag caps.hasBinarymime "BINARYMIME" ++ flag caps.hasSmtputf8 "SMTPUTF8"
    ++ (if caps.hasSize then
          [clip tmpLen (if caps.sizeLimitValid then bytes "SIZE=" ++ decimal caps.sizeLimit
            else bytes "SIZE")]
        else [])
    ++ (if caps.hasAuth then [clip tmpLen (bytes "AUTH=" ++ cstr caps.authRaw)] else [])
    ++ caps.unknown.map CapUnknown.keyword

/-- `smtp_cap_format_summary`: the string left in `dst`. -/
def formatSummary (caps : Capabilities) (dstSize : Nat) : Bytes :=
  let summary := (summaryTokens caps).foldl (appendSummaryToken dstSize) {}
  if summary.any then summary.dst else clip dstSize (bytes "(none)")

end Cap

end SmtpClient
