import SmtpClient.Base.Tokens

/-!
# Fields and lines

A list cut once, at its first separator, and a list of lines, each of which ends in a separator:
what a reader makes of a file that is still being written to is a prefix of what it makes of the
file later.
-/

namespace SmtpClient

variable {α : Type} [DecidableEq α]

/-- The lines that have been ended; a last one that has not is left out. -/
def completed (sep : α) (l : List α) : List (List α) := (l.splitOn sep).dropLast

variable {sep : α}

end SmtpClient
