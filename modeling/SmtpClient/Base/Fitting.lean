import Mathlib.Data.List.Basic
import Mathlib.Tactic.Common

/-!
# Appending what fits

A list that may not grow beyond a limit, and pieces that are appended to it one after the other:
each as a whole, or, where it does not fit, not at all.
-/

namespace SmtpClient

variable {α : Type} {limit : Nat} {text piece : List α}

/-- A piece is appended if all of it fits. -/
def fit (limit : Nat) (text piece : List α) : List α :=
  if text.length + piece.length ≤ limit then text ++ piece else text

theorem fit_of_le (h : text.length + piece.length ≤ limit) : fit limit text piece = text ++ piece :=
  if_pos h

theorem fit_of_lt (h : limit < text.length + piece.length) : fit limit text piece = text :=
  if_neg (Nat.not_le.2 h)

theorem fit_eq_or (limit : Nat) (text piece : List α) :
    fit limit text piece = text ∨ fit limit text piece = text ++ piece := by
  rw [fit]
  split
  · exact Or.inr rfl
  · exact Or.inl rfl

theorem length_fit_le (h : text.length ≤ limit) (piece : List α) :
    (fit limit text piece).length ≤ limit := by
  rw [fit]
  split
  · rwa [List.length_append]
  · exact h

theorem forall_mem_fit {p : α → Prop} (htext : ∀ c ∈ text, p c) (hpiece : ∀ c ∈ piece, p c) :
    ∀ c ∈ fit limit text piece, p c := by
  rw [fit]
  split
  · intro c hc
    rcases List.mem_append.1 hc with hc | hc
    · exact htext c hc
    · exact hpiece c hc
  · exact htext

/-- Pieces in a row. -/
def fitAll (limit : Nat) (text : List α) (pieces : List (List α)) : List α :=
  pieces.foldl (fit limit) text

theorem fitAll_append (text : List α) (pieces pieces' : List (List α)) :
    fitAll limit text (pieces ++ pieces') = fitAll limit (fitAll limit text pieces) pieces' :=
  List.foldl_append

theorem length_fitAll_le (h : text.length ≤ limit) (pieces : List (List α)) :
    (fitAll limit text pieces).length ≤ limit := by
  induction pieces generalizing text with
  | nil => exact h
  | cons piece rest ih => exact ih (length_fit_le h piece)

theorem forall_mem_fitAll {p : α → Prop} {pieces : List (List α)} (htext : ∀ c ∈ text, p c)
    (hpieces : ∀ piece ∈ pieces, ∀ c ∈ piece, p c) : ∀ c ∈ fitAll limit text pieces, p c := by
  induction pieces generalizing text with
  | nil => exact htext
  | cons piece rest ih =>
      apply ih
      · exact forall_mem_fit htext (hpieces piece List.mem_cons_self)
      · exact fun piece' hmem => hpieces piece' (List.mem_cons_of_mem piece hmem)

theorem fitAll_of_le {pieces : List (List α)} (h : text.length + pieces.flatten.length ≤ limit) :
    fitAll limit text pieces = text ++ pieces.flatten := by
  induction pieces generalizing text with
  | nil => exact (List.append_nil text).symm
  | cons piece rest ih =>
      rw [List.flatten_cons, List.length_append] at h
      calc fitAll limit text (piece :: rest) = fitAll limit (text ++ piece) rest :=
            congrArg (fitAll limit · rest) (fit_of_le (by omega))
        _ = text ++ piece ++ rest.flatten := ih (by rw [List.length_append]; omega)
        _ = text ++ (piece :: rest).flatten := List.append_assoc text piece rest.flatten

theorem fitAll_of_full {pieces : List (List α)} (h : limit ≤ text.length)
    (hpieces : ∀ piece ∈ pieces, piece ≠ []) : fitAll limit text pieces = text := by
  induction pieces with
  | nil => rfl
  | cons piece rest ih =>
      have hpos := List.length_pos_iff.2 (hpieces piece List.mem_cons_self)
      calc fitAll limit text (piece :: rest) = fitAll limit text rest :=
            congrArg (fitAll limit · rest) (fit_of_lt (by omega))
        _ = text := ih fun piece' hmem => hpieces piece' (List.mem_cons_of_mem piece hmem)

/-- What is appended comes from the pieces. -/
theorem fitAll_eq_append (limit : Nat) (text : List α) (pieces : List (List α)) :
    ∃ tail, fitAll limit text pieces = text ++ tail
      ∧ ∀ c ∈ tail, ∃ piece ∈ pieces, c ∈ piece := by
  induction pieces generalizing text with
  | nil => exact ⟨[], (List.append_nil text).symm, nofun⟩
  | cons piece rest ih =>
      obtain ⟨tail, htail, hmem⟩ := ih (fit limit text piece)
      have hrest : ∀ c ∈ tail, ∃ piece' ∈ piece :: rest, c ∈ piece' := by
        intro c hc
        obtain ⟨piece', hpiece', hc'⟩ := hmem c hc
        exact ⟨piece', List.mem_cons_of_mem piece hpiece', hc'⟩
      rcases fit_eq_or limit text piece with hfit | hfit
      · exact ⟨tail, htail.trans (congrArg (· ++ tail) hfit), hrest⟩
      · refine ⟨piece ++ tail, ?_, fun c hc => ?_⟩
        · rw [← List.append_assoc, ← hfit]
          exact htail
        · rcases List.mem_append.1 hc with hc | hc
          · exact ⟨piece, List.mem_cons_self, hc⟩
          · exact hrest c hc

end SmtpClient
