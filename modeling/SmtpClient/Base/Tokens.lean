import Mathlib.Data.List.Basic
import Mathlib.Tactic.Common

/-!
# Tokens

A list cut at a separator: its tokens are the pieces that are not empty, and these are the maximal
runs of elements other than the separator. Lists are told apart by their first separator, which
gives an induction rule of their own.
-/

namespace SmtpClient

variable {α : Type} {sep : α}

/-- A run of elements other than the separator that ends at separators or at the ends of the
list. -/
structure MaximalRun (sep : α) (l token : List α) : Prop where
  split : ∃ before after, l = before ++ token ++ after
    ∧ (before = [] ∨ ∃ front, before = front ++ [sep]) ∧ (after = [] ∨ ∃ rest, after = sep :: rest)
  nonempty : token ≠ []
  free : sep ∉ token

theorem maximalRun_of_not_mem {l token : List α} (h : sep ∉ l) :
    MaximalRun sep l token ↔ token = l ∧ l ≠ [] := by
  constructor
  · rintro ⟨⟨before, after, rfl, hbefore, hafter⟩, hne, -⟩
    obtain rfl : before = [] := by
      refine hbefore.resolve_right ?_
      rintro ⟨front, rfl⟩
      exact h (by simp)
    obtain rfl : after = [] := by
      refine hafter.resolve_right ?_
      rintro ⟨rest, rfl⟩
      exact h (by simp)
    rw [List.nil_append, List.append_nil]
    exact ⟨rfl, hne⟩
  · rintro ⟨rfl, hne⟩
    exact ⟨⟨[], [], by simp, .inl rfl, .inl rfl⟩, hne, h⟩

variable [DecidableEq α]

def tokens (sep : α) (l : List α) : List (List α) := (l.splitOn sep).filter (· ≠ [])

/-- Up to the first separator, and behind it. -/
theorem splitInduction (sep : α) {motive : List α → Prop} (hfree : ∀ l, sep ∉ l → motive l)
    (hcut : ∀ front rest, sep ∉ front → motive rest → motive (front ++ sep :: rest)) (l : List α) :
    motive l := by
  induction hlength : l.length using Nat.strongRecOn generalizing l with
  | ind n ih =>
      by_cases hmem : sep ∈ l
      · obtain ⟨front, rest, rfl, hfront⟩ := List.eq_append_cons_of_mem hmem
        refine hcut front rest hfront (ih rest.length ?_ rest rfl)
        rw [← hlength, List.length_append, List.length_cons]
        omega
      · exact hfree l hmem

theorem tokens_of_not_mem {l : List α} (h : sep ∉ l) :
    tokens sep l = if l = [] then [] else [l] := by
  rw [tokens, List.splitOn_eq_singleton h]
  by_cases hnil : l = []
  · simp [hnil]
  · simp [hnil]

theorem tokens_append_cons {front : List α} (h : sep ∉ front) (rest : List α) :
    tokens sep (front ++ sep :: rest) = (if front = [] then [] else [front]) ++ tokens sep rest := by
  rw [tokens, List.splitOn_append_cons_self_of_not_mem h, List.filter_cons]
  by_cases hnil : front = []
  · simp [hnil, tokens]
  · simp [hnil, tokens]

/-- Two lists with the same first separator have the same elements in front of it. -/
theorem append_cons_inj {left right rest rest' : List α} (hleft : sep ∉ left) (hright : sep ∉ right)
    (h : left ++ sep :: rest = right ++ sep :: rest') : left = right ∧ rest = rest' := by
  have htake {l : List α} (after : List α) (hl : sep ∉ l) :
      (l ++ sep :: after).takeWhile (· ≠ sep) = l := by
    rw [List.takeWhile_append_of_pos fun a ha => decide_eq_true (ne_of_mem_of_not_mem ha hl)]
    simp
  have hsame : left = right := by rw [← htake rest hleft, h, htake rest' hright]
  rw [hsame, List.append_cancel_left_eq] at h
  exact ⟨hsame, (List.cons.inj h).2⟩

theorem maximalRun_append_cons {front rest token : List α} (h : sep ∉ front) :
    MaximalRun sep (front ++ sep :: rest) token
      ↔ token = front ∧ front ≠ [] ∨ MaximalRun sep rest token := by
  constructor
  · rintro ⟨⟨before, after, hsplit, hbefore, hafter⟩, hne, hfree⟩
    rw [List.append_assoc] at hsplit
    rcases hbefore with rfl | ⟨lead, rfl⟩
    · -- The run starts where the list does: it is what stands in front of the separator.
      rw [List.nil_append] at hsplit
      rcases hafter with rfl | ⟨rest', rfl⟩
      · rw [List.append_nil] at hsplit
        exact absurd (hsplit ▸ List.mem_append_right _ List.mem_cons_self) hfree
      · obtain ⟨rfl, -⟩ := append_cons_inj h hfree hsplit
        exact .inl ⟨rfl, hne⟩
    · refine .inr ⟨?_, hne, hfree⟩
      rw [List.append_assoc, List.singleton_append] at hsplit
      rcases List.append_eq_append_iff.mp hsplit with ⟨more, rfl, hmore⟩ | ⟨more, rfl, hmore⟩
      · cases more with
        | nil => exact ⟨[], after, by simpa using hmore, .inl rfl, hafter⟩
        | cons a more =>
            obtain ⟨rfl, rfl⟩ := List.cons.inj hmore
            exact ⟨more ++ [sep], after, by simp, .inr ⟨more, rfl⟩, hafter⟩
      · cases more with
        | nil => exact ⟨[], after, by simpa using hmore.symm, .inl rfl, hafter⟩
        | cons a more =>
            obtain ⟨rfl, -⟩ := List.cons.inj hmore
            exact absurd (by simp) h
  · rintro (⟨rfl, hne⟩ | ⟨⟨before, after, rfl, hbefore, hafter⟩, hne, hfree⟩)
    · exact ⟨⟨[], sep :: rest, by simp, .inl rfl, .inr ⟨rest, rfl⟩⟩, hne, h⟩
    · refine ⟨⟨front ++ sep :: before, after, by simp, .inr ?_, hafter⟩, hne, hfree⟩
      rcases hbefore with rfl | ⟨lead, rfl⟩
      · exact ⟨front, rfl⟩
      · exact ⟨front ++ sep :: lead, by simp⟩

/-- **Tokens are the maximal runs.** -/
theorem mem_tokens_iff {l token : List α} : token ∈ tokens sep l ↔ MaximalRun sep l token := by
  induction l using splitInduction sep with
  | hfree l h =>
      rw [tokens_of_not_mem h, maximalRun_of_not_mem h]
      by_cases hnil : l = [] <;> simp [hnil]
  | hcut front rest h ih =>
      rw [tokens_append_cons h, maximalRun_append_cons h, List.mem_append, ih]
      by_cases hnil : front = [] <;> simp [hnil]

end SmtpClient
