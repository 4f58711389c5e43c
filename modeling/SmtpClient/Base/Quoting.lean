import Mathlib.Data.List.Basic
import Mathlib.Tactic.Common

/-!
# Quoted sections

A text in which a quote opens a section that goes on to the next quote, except that an escape
character takes the one behind it along. Where a position stands is told from the elements in front
of it alone.
-/

namespace SmtpClient

/-- Where the next element stands. -/
inductive Quoting where
  | outside
  | inside
  | escaped
  deriving DecidableEq, Repr

namespace Quoting

variable {α : Type} [DecidableEq α]

def step (quote escape : α) (q : Quoting) (c : α) : Quoting :=
  match q with
  | .outside => if c = quote then .inside else .outside
  | .inside => if c = quote then .outside else if c = escape then .escaped else .inside
  | .escaped => .inside

/-- Where element `i` of a text stands. -/
def at_ (quote escape : α) (text : List α) (i : Nat) : Quoting :=
  (text.take i).foldl (step quote escape) .outside

theorem at_append {quote escape : α} {s : List α} (rest : List α) {i : Nat} (h : i ≤ s.length) :
    at_ quote escape (s ++ rest) i = at_ quote escape s i := by
  rw [at_, at_, List.take_append_of_le_length h]

theorem at_length {quote escape : α} {s : List α} (rest : List α) :
    at_ quote escape (s ++ rest) s.length = s.foldl (step quote escape) .outside := by
  rw [at_append rest (Nat.le_refl _), at_, List.take_length]

end Quoting

end SmtpClient
