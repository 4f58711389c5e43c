import SmtpClient.Capabilities

/-!
# The capability summary in memory

`smtp_cap_format_summary` once more, on the destination itself: each token is written by a
`snprintf` behind what is there, as far as there is room, and the position goes on as if there were.
-/

namespace SmtpClient

/-- `snprintf(dst + offset, remaining, ..)`, which leaves a NUL behind what it keeps of the text. -/
def snprintf {size : Nat} (dst : Buffer size) (offset remaining : Nat) (text : Bytes) :
    Buffer size :=
  if remaining = 0 then dst else dst.blit offset (clip remaining text ++ [0])

namespace Cap

variable {dstSize : Nat}

/-- `dst`, `pos` and `any`. -/
structure SummaryBuffer (dstSize : Nat) where
  dst : Buffer dstSize
  pos : Nat
  any : Bool

namespace SummaryBuffer

/-- `smtp_cap_append_summary_token`, with the caller's `any = 1` behind it. -/
def appendToken (summary : SummaryBuffer dstSize) (token : Bytes) : SummaryBuffer dstSize :=
  let remaining := if summary.pos < dstSize then dstSize - summary.pos else 0
  let offset := if summary.pos < dstSize then summary.pos else dstSize
  let text := (if summary.any then [32] else []) ++ cstr token
  { dst := snprintf summary.dst offset remaining text
    pos := if 0 < text.length then summary.pos + text.length else summary.pos
    any := true }

end SummaryBuffer

/-- `smtp_cap_format_summary`: what it leaves in `dst`, of a size that is asserted not to be 0. -/
def formatSummaryInto (caps : Capabilities) (dst : Buffer dstSize) : Buffer dstSize :=
  let summary := (summaryTokens caps).foldl SummaryBuffer.appendToken ⟨dst, 0, false⟩
  if summary.any then summary.dst else snprintf summary.dst 0 dstSize (bytes "(none)")

end Cap

end SmtpClient
