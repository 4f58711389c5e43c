import Mathlib.Data.List.Basic
import Mathlib.Data.List.Perm.Basic
import Mathlib.Tactic.Common

/-!
# Sources that share a log

Sources, each with a key and with what it has written, and the one log they write to. The log
interleaves them if what it has under the key of a source is what the source has written, in that
order. A new source under a key of its own, more from a source, and anything under other keys, at
any place, leave it so.
-/

namespace SmtpClient

variable {α κ : Type} [DecidableEq κ]

/-- The log has of every source, under its key, what it has written. -/
structure Interleaves (key : α → κ) (sources : List (κ × List α)) (log : List α) : Prop where
  distinct : (sources.map Prod.fst).Nodup
  recorded : ∀ s ∈ sources, log.filter (fun a => key a = s.1) = s.2

namespace Interleaves

variable {key : α → κ} {sources rest : List (κ × List α)} {log : List α} {k : κ} {own : List α}

theorem perm {sources' : List (κ × List α)} (h : Interleaves key sources log)
    (hperm : sources.Perm sources') : Interleaves key sources' log where
  distinct := (hperm.map Prod.fst).nodup_iff.mp h.distinct
  recorded s hs := h.recorded s (hperm.mem_iff.mpr hs)

theorem filter_eq_self {more : List α} (h : ∀ a ∈ more, key a = k) :
    more.filter (fun a => key a = k) = more :=
  List.filter_eq_self.mpr fun a ha => decide_eq_true (h a ha)

theorem filter_eq_nil {more : List α} (h : ∀ a ∈ more, key a ≠ k) :
    more.filter (fun a => key a = k) = [] :=
  List.filter_eq_nil_iff.mpr fun a ha => by simpa using h a ha

/-- What is written under no key of a source changes nothing, wherever it goes. -/
theorem insert {front back more : List α} (h : Interleaves key sources (front ++ back))
    (hother : ∀ a ∈ more, ∀ s ∈ sources, key a ≠ s.1) :
    Interleaves key sources (front ++ more ++ back) where
  distinct := h.distinct
  recorded s hs := by
    have hnone := filter_eq_nil fun a ha => hother a ha s hs
    rw [List.filter_append, List.filter_append, hnone, List.append_nil, ← List.filter_append]
    exact h.recorded s hs

theorem append {more : List α} (h : Interleaves key sources log)
    (hother : ∀ a ∈ more, ∀ s ∈ sources, key a ≠ s.1) : Interleaves key sources (log ++ more) := by
  rw [← List.append_nil log] at h
  simpa using h.insert hother

/-- A source that starts under a key the log does not have. -/
theorem opens (h : Interleaves key sources log) (hfresh : ∀ s ∈ sources, s.1 ≠ k)
    (hunused : ∀ a ∈ log, key a ≠ k) (hown : ∀ a ∈ own, key a = k) :
    Interleaves key ((k, own) :: sources) (log ++ own) where
  distinct := by
    rw [List.map_cons, List.nodup_cons]
    refine ⟨?_, h.distinct⟩
    intro hmem
    obtain ⟨s, hs, heq⟩ := List.mem_map.mp hmem
    exact hfresh s hs heq
  recorded s hs := by
    rcases List.mem_cons.mp hs with rfl | hs
    · rw [List.filter_append, filter_eq_nil hunused, filter_eq_self hown, List.nil_append]
    · refine (h.append fun a ha t ht => ?_).recorded s hs
      rw [hown a ha]
      exact (hfresh t ht).symm

/-- A source that goes on. -/
theorem continues {more : List α} (h : Interleaves key ((k, own) :: rest) log)
    (hmore : ∀ a ∈ more, key a = k) :
    Interleaves key ((k, own ++ more) :: rest) (log ++ more) where
  distinct := h.distinct
  recorded s hs := by
    rw [List.filter_append]
    rcases List.mem_cons.mp hs with rfl | hs
    · rw [h.recorded (k, own) List.mem_cons_self, filter_eq_self hmore]
    · have hne : k ≠ s.1 := by
        have hdistinct := List.nodup_cons.mp h.distinct
        exact fun heq => hdistinct.1 (List.mem_map.mpr ⟨s, hs, heq.symm⟩)
      rw [h.recorded s (List.mem_cons_of_mem _ hs), filter_eq_nil, List.append_nil]
      intro a ha
      rw [hmore a ha]
      exact hne

end Interleaves

end SmtpClient
