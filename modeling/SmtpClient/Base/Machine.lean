import Mathlib.Data.List.Basic
import Mathlib.Tactic.Common

/-!
# Machines that can fail, and what holds along their runs

A machine takes a state and an event to a next state or to an error. Its runs are the sequences of
admissible events it survives. An invariant is proved for one step and read off every run; what a
run does to one observation of the state, whatever the rest of it holds, is proved for one step and
folded over the events; and a run on given events can be computed.

A trace grows at its end, and a property of every effect on it in view of what came before is kept
by an append that justifies its own effects.
-/

namespace SmtpClient

/-- Two computations in a row succeed if both do. -/
theorem bind_eq_ok {ε α β : Type} {x : Except ε α} {f : α → Except ε β} {b : β} :
    x >>= f = .ok b ↔ ∃ a, x = .ok a ∧ f a = .ok b := by
  cases x <;> simp [bind, Except.bind]

structure Machine (σ ε α : Type) where
  admissible : σ → ε → Prop
  step : σ → ε → Except α σ

namespace Machine

variable {σ ε α : Type} {M : Machine σ ε α}

/-- A successful step on an admissible event. -/
def Steps (M : Machine σ ε α) (s : σ) (event : ε) (s' : σ) : Prop :=
  M.admissible s event ∧ M.step s event = .ok s'

inductive Run (M : Machine σ ε α) (s : σ) : List ε → σ → Prop where
  | nil : Run M s [] s
  | snoc {events : List ε} {t u : σ} {event : ε} (run : Run M s events t)
      (step : M.Steps t event u) : Run M s (events ++ [event]) u

/-- **Invariants.** What one step keeps, a run keeps. -/
theorem Run.invariant {I : σ → Prop} {s t : σ} {events : List ε} (run : M.Run s events t)
    (hinit : I s) (hstep : ∀ s event s', I s → M.Steps s event s' → I s') : I t := by
  induction run with
  | nil => exact hinit
  | snoc _ step ih => exact hstep _ _ _ ih step

/-- A relation between a state and the end of a run that every step extends. -/
theorem Run.relates {R : σ → Prop} {s t : σ} {events : List ε} {I : σ → Prop}
    (run : M.Run s events t) (hinv : I s) (hkeep : ∀ s event s', I s → M.Steps s event s' → I s')
    (hinit : R s) (hstep : ∀ s event s', I s → R s → M.Steps s event s' → R s') : R t :=
  (run.invariant (I := fun u => I u ∧ R u) ⟨hinv, hinit⟩
    fun u event u' h step => ⟨hkeep u event u' h.1 step, hstep u event u' h.1 h.2 step⟩).2

theorem Run.append {s t u : σ} {events events' : List ε} (first : M.Run s events t)
    (second : M.Run t events' u) : M.Run s (events ++ events') u := by
  induction second with
  | nil => simpa using first
  | snoc _ step ih =>
      rw [← List.append_assoc]
      exact ih.snoc step

/-- The machine on those events that meet a condition. -/
def restrict (M : Machine σ ε α) (C : σ → ε → Prop) : Machine σ ε α where
  admissible s event := M.admissible s event ∧ C s event
  step := M.step

instance (C : σ → ε → Prop) [∀ s event, Decidable (M.admissible s event)]
    [∀ s event, Decidable (C s event)] (s : σ) (event : ε) :
    Decidable ((M.restrict C).admissible s event) :=
  inferInstanceAs (Decidable (M.admissible s event ∧ C s event))

theorem Run.of_restrict {C : σ → ε → Prop} {s t : σ} {events : List ε}
    (run : (M.restrict C).Run s events t) : M.Run s events t := by
  induction run with
  | nil => exact .nil
  | snoc _ step ih => exact ih.snoc ⟨step.1.1, step.2⟩

/-- A condition may be replaced by one that it implies. -/
theorem Run.mono {C D : σ → ε → Prop} (hCD : ∀ s event, C s event → D s event) {s t : σ}
    {events : List ε} (run : (M.restrict C).Run s events t) : (M.restrict D).Run s events t := by
  induction run with
  | nil => exact .nil
  | snoc _ step ih => exact ih.snoc ⟨⟨step.1.1, hCD _ _ step.1.2⟩, step.2⟩

theorem Run.to_restrict {C : σ → ε → Prop} (hC : ∀ s event, C s event) {s t : σ} {events : List ε}
    (run : M.Run s events t) : (M.restrict C).Run s events t := by
  induction run with
  | nil => exact .nil
  | snoc _ step ih => exact ih.snoc ⟨⟨step.1, hC _ _⟩, step.2⟩

/-- The run on given events, computed; `none` if an event is not admissible or a step fails. -/
def exec (M : Machine σ ε α) [∀ s event, Decidable (M.admissible s event)] :
    σ → List ε → Option σ
  | s, [] => some s
  | s, event :: rest =>
      if M.admissible s event then
        match M.step s event with
        | .ok s' => exec M s' rest
        | .error _ => none
      else none

theorem steps_of_exec [∀ s event, Decidable (M.admissible s event)] {s s' : σ} {event : ε}
    (h : M.exec s [event] = some s') : M.Steps s event s' := by
  simp only [exec] at h
  split at h
  · rename_i hadmissible
    split at h
    · rename_i t hstep
      cases Option.some.inj h
      exact ⟨hadmissible, hstep⟩
    · exact absurd h (by simp)
  · exact absurd h (by simp)

theorem run_of_exec [∀ s event, Decidable (M.admissible s event)] {s t : σ} {events : List ε}
    (h : M.exec s events = some t) : M.Run s events t := by
  induction events generalizing s with
  | nil =>
      cases Option.some.inj h
      exact .nil
  | cons event rest ih =>
      rw [exec] at h
      split at h
      · rename_i hadm
        split at h
        · rename_i s' hs'
          exact (Run.snoc .nil ⟨hadm, hs'⟩).append (ih h)
        · exact absurd h (by simp)
      · exact absurd h (by simp)

end Machine

/-! ### Traces -/

variable {α : Type}

/-- Every effect of a trace is justified by what came before it. -/
def AllJustified (P : List α → α → Prop) (trace : List α) : Prop :=
  ∀ past effect future, trace = past ++ effect :: future → P past effect

theorem allJustified_nil (P : List α → α → Prop) : AllJustified P [] := by
  intro past effect future h
  simp at h

theorem AllJustified.snoc {P : List α → α → Prop} {trace : List α} {effect : α}
    (h : AllJustified P trace) (heffect : P trace effect) : AllJustified P (trace ++ [effect]) := by
  intro past e future heq
  rcases List.eq_nil_or_concat future with rfl | ⟨future', last, rfl⟩
  · obtain ⟨rfl, hlast⟩ := List.append_inj' heq rfl
    cases hlast
    exact heffect
  · have hsplit : trace ++ [effect] = (past ++ e :: future') ++ [last] := by simpa using heq
    obtain ⟨rfl, -⟩ := List.append_inj' hsplit rfl
    exact h past e future' rfl

end SmtpClient
