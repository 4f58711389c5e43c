import Mathlib.Data.List.Induction
import Mathlib.Tactic.Common

/-!
# Logs of bounded size

A log of entries of any type that keeps the first so many of them, in their order, and only counts
those that come later. That nothing is dropped before the log is full is part of what a log is.
-/

namespace SmtpClient

@[ext]
structure BoundedLog (α : Type) (capacity : Nat) where
  entries : List α
  dropped : Nat
  length_le : entries.length ≤ capacity
  full : dropped ≠ 0 → entries.length = capacity

namespace BoundedLog

variable {α : Type} {capacity : Nat}

def empty : BoundedLog α capacity := ⟨[], 0, Nat.zero_le _, fun h => absurd rfl h⟩

/-- One more entry. -/
def push (log : BoundedLog α capacity) (entry : α) : BoundedLog α capacity :=
  if h : log.entries.length < capacity then
    { entries := log.entries ++ [entry]
      dropped := log.dropped
      length_le := by
        rw [List.length_append, List.length_singleton]
        exact h
      full := fun hdropped => absurd (log.full hdropped) (Nat.ne_of_lt h) }
  else
    { log with
      dropped := log.dropped + 1
      full := fun _ => Nat.le_antisymm log.length_le (Nat.le_of_not_lt h) }

theorem push_of_lt {log : BoundedLog α capacity} (h : log.entries.length < capacity) (entry : α) :
    (log.push entry).entries = log.entries ++ [entry] ∧ (log.push entry).dropped = log.dropped := by
  rw [push, dif_pos h]
  exact ⟨rfl, rfl⟩

theorem push_of_le {log : BoundedLog α capacity} (h : capacity ≤ log.entries.length) (entry : α) :
    (log.push entry).entries = log.entries ∧ (log.push entry).dropped = log.dropped + 1 := by
  rw [push, dif_neg (Nat.not_lt.mpr h)]
  exact ⟨rfl, rfl⟩

/-- **What a log holds** of everything that was pushed. -/
theorem foldl_push (pushed : List α) :
    (pushed.foldl push (empty : BoundedLog α capacity)).entries = pushed.take capacity
      ∧ (pushed.foldl push (empty : BoundedLog α capacity)).dropped = pushed.length - capacity := by
  induction pushed using List.reverseRecOn with
  | nil => exact ⟨List.take_nil.symm, (Nat.zero_sub capacity).symm⟩
  | append_singleton pushed entry ih =>
      rw [List.foldl_append, List.foldl_cons, List.foldl_nil, List.length_append,
        List.length_singleton]
      generalize pushed.foldl push (empty : BoundedLog α capacity) = log at ih ⊢
      obtain ⟨hentries, hdropped⟩ := ih
      have hlength : log.entries.length = min capacity pushed.length := by
        rw [hentries, List.length_take]
      rcases Nat.lt_or_ge log.entries.length capacity with hroom | hfull
      · obtain ⟨hentries', hdropped'⟩ := push_of_lt hroom entry
        have hall : (pushed ++ [entry]).take capacity = pushed ++ [entry] := by
          apply List.take_of_length_le
          rw [List.length_append, List.length_singleton]
          omega
        rw [hentries', hdropped', hentries, hdropped, hall, List.take_of_length_le (by omega)]
        exact ⟨rfl, by omega⟩
      · obtain ⟨hentries', hdropped'⟩ := push_of_le hfull entry
        rw [hentries', hdropped', hentries, hdropped,
          List.take_append_of_le_length (by omega)]
        exact ⟨rfl, by omega⟩

end BoundedLog

end SmtpClient
