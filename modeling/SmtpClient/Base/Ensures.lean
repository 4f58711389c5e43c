import SmtpClient.Base.Machine

/-!
# What a computation ensures if it returns

Postconditions of computations that can fail: one rule for each way a computation is put together,
so that what a function ensures follows from what the functions it calls ensure.
-/

namespace SmtpClient

variable {ε α β : Type}

/-- What `x` returns, if it returns, satisfies `P`. -/
structure Ensures (x : Except ε α) (P : α → Prop) : Prop where
  of_ok : ∀ a, x = .ok a → P a

namespace Ensures

variable {P : α → Prop} {x y : Except ε α}

theorem ok {a : α} (h : P a) : Ensures (.ok a : Except ε α) P where
  of_ok _ hb := Except.ok.inj hb ▸ h

theorem error (e : ε) : Ensures (.error e : Except ε α) P where
  of_ok _ ha := absurd ha (by simp)

theorem bind {f : α → Except ε β} {R : β → Prop} (h : Ensures x P)
    (hf : ∀ a, P a → Ensures (f a) R) : Ensures (x >>= f) R where
  of_ok b hb := by
    obtain ⟨a, ha, hfa⟩ := bind_eq_ok.mp hb
    exact (hf a (h.of_ok a ha)).of_ok b hfa

theorem ite {c : Prop} [Decidable c] (hthen : c → Ensures x P) (helse : ¬c → Ensures y P) :
    Ensures (if c then x else y) P := by
  by_cases hc : c
  · rw [if_pos hc]
    exact hthen hc
  · rw [if_neg hc]
    exact helse hc

end Ensures

end SmtpClient
