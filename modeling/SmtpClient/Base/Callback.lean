/-!
# Computations that call back

A computation that calls a function of its caller on the way and goes on with what it answers. Run
with a callback that has a state of its own, it goes along one of its traces; whatever one call of
the callback keeps, the whole computation keeps.
-/

namespace SmtpClient

inductive Callback (ι ο ρ : Type) where
  | returns (result : ρ)
  | calls (call : ι) (next : ο → Callback ι ο ρ)

namespace Callback

variable {ι ο ρ σ : Type}

/-- What the computation returns, and the state the callback is left in. -/
def run (callback : σ → ι → ο × σ) : σ → Callback ι ο ρ → ρ × σ
  | s, .returns result => (result, s)
  | s, .calls call next => run callback (callback s call).2 (next (callback s call).1)

/-- The calls on the way to a result, with their answers. -/
inductive Traces : Callback ι ο ρ → List (ι × ο) → ρ → Prop where
  | returns (result : ρ) : Traces (.returns result) [] result
  | calls {call : ι} {next : ο → Callback ι ο ρ} {answer : ο} {trace : List (ι × ο)} {result : ρ}
      (rest : Traces (next answer) trace result) :
      Traces (.calls call next) ((call, answer) :: trace) result

/-- **Invariants.** What one call keeps, a computation keeps. -/
theorem run_invariant {callback : σ → ι → ο × σ} {I : List (ι × ο) → σ → Prop}
    (hstep : ∀ past s call, I past s →
      I (past ++ [(call, (callback s call).1)]) (callback s call).2)
    (computation : Callback ι ο ρ) (past : List (ι × ο)) (s : σ) (h : I past s) :
    ∃ trace, Traces computation trace (computation.run callback s).1
      ∧ I (past ++ trace) (computation.run callback s).2 := by
  induction computation generalizing past s with
  | returns result =>
      refine ⟨[], .returns result, ?_⟩
      rwa [List.append_nil]
  | calls call next ih =>
      obtain ⟨trace, htrace, hkept⟩ := ih _ _ _ (hstep past s call h)
      refine ⟨_ :: trace, .calls htrace, ?_⟩
      rwa [List.append_cons]

end Callback

end SmtpClient
