import Mathlib.Tactic.Common

/-!
# Two implementations of one interface

An implementation takes a state and a call to an error, or to a next state and an answer. Two of
them run in lockstep on a sequence of calls if they fail alike or answer alike at every call, and a
condition holds after it.

Both are compared with a specification. If one refines it on every call and the other on the calls
it admits, and the two part on a call it does not admit, then the sequences they run in lockstep are
those that the specification admits.

One implementation alone serves a sequence of calls if all of them return, and return what they
should.
-/

namespace SmtpClient

variable {σ τ ρ ω ε α β : Type}

/-- Two results are one error, or one answer with states in a relation. -/
inductive Meets (Q : β → σ → τ → Prop) : Except α (σ × β) → Except α (τ × β) → Prop where
  | error (a : α) : Meets Q (.error a) (.error a)
  | ok {s : σ} {t : τ} {b : β} (h : Q b s t) : Meets Q (.ok (s, b)) (.ok (t, b))

@[simp] theorem meets_ok_iff {Q : β → σ → τ → Prop} {s : σ} {t : τ} {b c : β} :
    Meets (α := α) Q (.ok (s, b)) (.ok (t, c)) ↔ b = c ∧ Q b s t := by
  constructor
  · intro h
    cases h with
    | ok h => exact ⟨rfl, h⟩
  · rintro ⟨rfl, h⟩
    exact .ok h

theorem Meets.eq_ok {F : β → σ → ρ → Prop} {x : Except α (σ × β)} {u : ρ} {b : β}
    (h : Meets F x (.ok (u, b))) : ∃ s, x = .ok (s, b) ∧ F b s u := by
  cases h with
  | ok h => exact ⟨_, rfl, h⟩

theorem Meets.join {F : β → σ → ρ → Prop} {G : β → τ → ρ → Prop} {x : Except α (σ × β)}
    {y : Except α (τ × β)} {z : Except α (ρ × β)} (hx : Meets F x z) (hy : Meets G y z) :
    Meets (fun b s t => ∃ u, z = .ok (u, b) ∧ F b s u ∧ G b t u) x y := by
  cases hx with
  | error a => cases hy with | error => exact .error a
  | ok hF => cases hy with | ok hG => exact .ok ⟨_, rfl, hF, hG⟩

theorem Meets.mono {Q R : β → σ → τ → Prop} {x : Except α (σ × β)} {y : Except α (τ × β)}
    (h : Meets Q x y) (himp : ∀ b s t, x = .ok (s, b) → Q b s t → R b s t) : Meets R x y := by
  cases h with
  | error a => exact .error a
  | ok h => exact .ok (himp _ _ _ rfl h)

/-- Every call of a sequence returns, and what it returns meets a condition. -/
def Serves (f : σ → ε → Except α (σ × β)) (P : σ → ε → β → Prop) : σ → List ε → Prop
  | _, [] => True
  | s, call :: rest => ∃ s' b, f s call = .ok (s', b) ∧ P s call b ∧ Serves f P s' rest

/-- An observer follows the calls and their answers; `Q` relates what it has seen, a call, its
answer and the states after it. -/
def Lockstep (f : σ → ε → Except α (σ × β)) (g : τ → ε → Except α (τ × β))
    (observe : ω → ε → β → ω) (Q : ω → ε → β → σ → τ → Prop) : ω → σ → τ → List ε → Prop
  | _, _, _, [] => True
  | o, s, t, call :: rest =>
      Meets (fun b s' t' => Q o call b s' t' ∧ Lockstep f g observe Q (observe o call b) s' t' rest)
        (f s call) (g t call)

/-- Every call of a run meets a condition in the state it is made in. -/
def Guarded (h : ρ → ε → Except α (ρ × β)) (A : ρ → ε → Prop) : ρ → List ε → Prop
  | _, [] => True
  | u, call :: rest => A u call ∧ ∀ u' b, h u call = .ok (u', b) → Guarded h A u' rest

theorem guarded_of_forall {h : ρ → ε → Except α (ρ × β)} {A : ρ → ε → Prop} (hA : ∀ u call, A u call)
    (u : ρ) (calls : List ε) : Guarded h A u calls := by
  induction calls generalizing u with
  | nil => trivial
  | cons call rest ih => exact ⟨hA u call, fun u' _ _ => ih u'⟩

instance Guarded.decidable (h : ρ → ε → Except α (ρ × β)) (A : ρ → ε → Prop)
    [∀ u call, Decidable (A u call)] : (u : ρ) → (calls : List ε) → Decidable (Guarded h A u calls)
  | _, [] => inferInstanceAs (Decidable True)
  | u, call :: rest =>
      match hcall : h u call with
      | .error _ => decidable_of_iff (A u call) (by simp [Guarded, hcall])
      | .ok (u', _) =>
          have := Guarded.decidable h A u' rest
          decidable_of_iff (A u call ∧ Guarded h A u' rest) (by simp [Guarded, hcall])

/-- Where an invariant keeps every call from failing, and a call meets its condition exactly if it
meets the guard, so do sequences of calls. -/
theorem serves_iff_guarded {f : σ → ε → Except α (σ × β)} {P : σ → ε → β → Prop}
    {A : σ → ε → Prop} {I : σ → Prop}
    (hstep : ∀ s call, I s → ∃ s' b, f s call = .ok (s', b) ∧ I s' ∧ (P s call b ↔ A s call))
    {s : σ} (hI : I s) (calls : List ε) : Serves f P s calls ↔ Guarded f A s calls := by
  induction calls generalizing s with
  | nil => exact Iff.rfl
  | cons call rest ih =>
      obtain ⟨s', b, hcall, hI', hiff⟩ := hstep s call hI
      rw [Serves, Guarded]
      constructor
      · rintro ⟨t, c, hcall', hP, hrest⟩
        rw [hcall] at hcall'
        cases hcall'
        refine ⟨hiff.1 hP, fun u d hcall'' => ?_⟩
        rw [hcall] at hcall''
        cases hcall''
        exact (ih hI').1 hrest
      · rintro ⟨hA, hrest⟩
        exact ⟨s', b, hcall, hiff.2 hA, (ih hI').2 (hrest s' b hcall)⟩

/-- **Lockstep.** The observer sees what the specification knows, by `view`. -/
theorem lockstep_iff_guarded {f : σ → ε → Except α (σ × β)} {g : τ → ε → Except α (τ × β)}
    {h : ρ → ε → Except α (ρ × β)} {observe : ω → ε → β → ω} {Q : ω → ε → β → σ → τ → Prop}
    {A : ρ → ε → Prop} {view : ρ → ω} {F : σ → ρ → Prop} {G : τ → ρ → Prop}
    (hf : ∀ s u call, F s u → Meets (fun _ s' u' => F s' u') (f s call) (h u call))
    (hg : ∀ t u call, G t u → A u call → Meets (fun _ t' u' => G t' u') (g t call) (h u call))
    (hview : ∀ u call u' b, h u call = .ok (u', b) → observe (view u) call b = view u')
    (hQ : ∀ u call u' b s' t', A u call → h u call = .ok (u', b) → F s' u' → G t' u' →
      Q (view u) call b s' t')
    (hpart : ∀ s t u call, F s u → G t u → ¬ A u call →
      ¬ Meets (Q (view u) call) (f s call) (g t call))
    {s : σ} {t : τ} {u : ρ} (hF : F s u) (hG : G t u) (calls : List ε) :
    Lockstep f g observe Q (view u) s t calls ↔ Guarded h A u calls := by
  induction calls generalizing s t u with
  | nil => exact Iff.rfl
  | cons call rest ih =>
      by_cases hA : A u call
      · have hrefines := hf s u call hF
        have hrefines' := hg t u call hG hA
        constructor
        · intro hlock
          refine ⟨hA, fun u' b hu => ?_⟩
          rw [hu] at hrefines hrefines'
          obtain ⟨s', hs, hF'⟩ := hrefines.eq_ok
          obtain ⟨t', ht, hG'⟩ := hrefines'.eq_ok
          rw [Lockstep, hs, ht, meets_ok_iff, hview u call u' b hu] at hlock
          exact (ih hF' hG').1 hlock.2.2
        · rintro ⟨-, hrest⟩
          apply (hrefines.join hrefines').mono
          rintro b s' t' - ⟨u', hu, hF', hG'⟩
          refine ⟨hQ u call u' b s' t' hA hu hF' hG', ?_⟩
          rw [hview u call u' b hu]
          exact (ih hF' hG').2 (hrest u' b hu)
      · constructor
        · intro hlock
          exact absurd (Meets.mono hlock fun b s' t' _ h => h.1) (hpart s t u call hF hG hA)
        · rintro ⟨hadmits, -⟩
          exact absurd hadmits hA

end SmtpClient
