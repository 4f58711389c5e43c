import SmtpClient.Base.Machine
import Mathlib.Data.List.Perm.Lattice
import Mathlib.Data.List.Induction

/-!
# Acquiring and releasing

A log of what was acquired and released, in order. Such a log is orderly if nothing is acquired
twice and only what is held is released; what it holds in the end is then all that was not released,
and an orderly log that holds nothing has released everything exactly once.
-/

namespace SmtpClient

open scoped List

inductive Use (ρ : Type) where
  | acquired (resource : ρ)
  | released (resource : ρ)
  deriving DecidableEq, Repr

variable {ρ : Type} [DecidableEq ρ]

def Use.apply (held : List ρ) : Use ρ → List ρ
  | .acquired resource => resource :: held
  | .released resource => held.erase resource

/-- What a log holds in the end. -/
def held (log : List (Use ρ)) : List ρ := log.foldl Use.apply []

theorem held_snoc (log : List (Use ρ)) (use : Use ρ) :
    held (log ++ [use]) = use.apply (held log) := by
  rw [held, List.foldl_append]
  rfl

def Use.Due (past : List (Use ρ)) : Use ρ → Prop
  | .acquired resource => .acquired resource ∉ past
  | .released resource => resource ∈ held past

def Orderly (log : List (Use ρ)) : Prop := AllJustified Use.Due log

/-- Whatever was acquired was acquired once and released once, and nothing else was released. -/
def ReleasedOnce (log : List (Use ρ)) : Prop :=
  ∀ resource, .acquired resource ∈ log ∨ .released resource ∈ log →
    log.count (.acquired resource) = 1 ∧ log.count (.released resource) = 1

/-- What is acquired is held or released, and never acquired again. -/
theorem Orderly.count {log : List (Use ρ)} (h : Orderly log) (resource : ρ) :
    log.count (.acquired resource)
        = log.count (.released resource) + (held log).count resource
      ∧ log.count (.acquired resource) ≤ 1 := by
  induction log using List.reverseRecOn with
  | nil => exact ⟨rfl, Nat.zero_le 1⟩
  | append_singleton log use ih =>
      have hlog : Orderly log := fun past e future heq =>
        h past e (future ++ [use]) (by rw [heq, List.append_assoc, List.cons_append])
      have hdue : use.Due log := h log use [] rfl
      obtain ⟨hheld, honce⟩ := ih hlog
      rw [held_snoc, List.count_append, List.count_append]
      cases use with
      | acquired other =>
          by_cases heq : other = resource
          · subst heq
            have hnone : log.count (.acquired other) = 0 := List.count_eq_zero.2 hdue
            simp only [Use.apply, List.count_cons_self, List.count_cons, List.count_nil, beq_iff_eq,
              reduceCtorEq, if_false]
            omega
          · simp only [Use.apply, List.count_cons, List.count_nil, beq_iff_eq, reduceCtorEq,
              Use.acquired.injEq, heq, if_false]
            omega
      | released other =>
          by_cases heq : other = resource
          · subst heq
            have hpos : 0 < (held log).count other := List.count_pos_iff.2 hdue
            simp only [Use.apply, List.count_erase_self, List.count_cons, List.count_nil,
              beq_iff_eq, reduceCtorEq, if_true, if_false]
            omega
          · rw [Use.apply, List.count_erase_of_ne (Ne.symm heq)]
            simp only [List.count_cons, List.count_nil, beq_iff_eq, reduceCtorEq,
              Use.released.injEq, heq, if_false]
            omega

/-! ### Who has what a log holds -/

/-- An orderly log, and all that it holds. -/
structure Custody (log : List (Use ρ)) (owned : List ρ) : Prop where
  orderly : Orderly log
  owned : held log ~ owned

namespace Custody

variable {log : List (Use ρ)} {owned owned' : List ρ} {resource : ρ}

theorem nil : Custody ([] : List (Use ρ)) [] := ⟨allJustified_nil _, .refl _⟩

theorem perm (h : Custody log owned) (hperm : owned ~ owned') : Custody log owned' :=
  ⟨h.orderly, h.owned.trans hperm⟩

theorem acquire (h : Custody log owned) (hnew : .acquired resource ∉ log) :
    Custody (log ++ [.acquired resource]) (resource :: owned) where
  orderly := h.orderly.snoc hnew
  owned := by
    rw [held_snoc]
    exact h.owned.cons resource

theorem release (h : Custody log (resource :: owned)) :
    Custody (log ++ [.released resource]) owned where
  orderly := h.orderly.snoc (h.owned.symm.subset List.mem_cons_self)
  owned := by
    rw [held_snoc]
    calc (held log).erase resource ~ (resource :: owned).erase resource := h.owned.erase resource
      _ = owned := List.erase_cons_head resource owned

theorem releaseAll {resources : List ρ} (h : Custody log (resources ++ owned)) :
    Custody (log ++ resources.map .released) owned := by
  induction resources generalizing log with
  | nil => simpa using h
  | cons resource rest ih =>
      rw [List.map_cons, List.append_cons]
      exact ih h.release

theorem releasedOnce (h : Custody log []) : ReleasedOnce log := by
  intro resource hmem
  obtain ⟨hcount, honce⟩ := h.orderly.count resource
  rw [List.eq_nil_of_length_eq_zero h.owned.length_eq, List.count_nil] at hcount
  rcases hmem with hmem | hmem
  · have hpos := List.count_pos_iff.2 hmem
    omega
  · have hpos := List.count_pos_iff.2 hmem
    omega

/-- What is owned is owned once. -/
theorem nodup (h : Custody log owned) : owned.Nodup := by
  rw [← h.owned.nodup_iff, List.nodup_iff_count_le_one]
  intro resource
  obtain ⟨hcount, honce⟩ := h.orderly.count resource
  omega

end Custody

end SmtpClient
