import SmtpClient.Base.Machine
import Mathlib.Algebra.Order.BigOperators.Group.List
import Mathlib.Algebra.Order.Group.Nat
import Mathlib.Algebra.GroupWithZero.Nat

/-!
# What a run can afford

A potential that pays for every step of a machine bounds what a run costs, whatever its events are:
what is left of it and what was spent never exceed what there was.
-/

namespace SmtpClient

namespace Machine

variable {σ ε α : Type} {M : Machine σ ε α} {I : σ → Prop} {potential : σ → Nat} {s t : σ}
  {events : List ε}

end Machine

/-! ### Sums over a list of which one element is replaced -/

/-- What one element of a list weighs less, the sum weighs less. -/
theorem sum_map_set {α : Type} {l : List α} {i : Nat} {a : α} (b : α) (weight : α → Nat)
    (h : l[i]? = some a) :
    weight a + ((l.set i b).map weight).sum = weight b + (l.map weight).sum := by
  induction l generalizing i with
  | nil => simp at h
  | cons x rest ih =>
      cases i with
      | zero =>
          obtain rfl : x = a := by simpa using h
          simp only [List.set_cons_zero, List.map_cons, List.sum_cons]
          omega
      | succ i =>
          have hrest := ih (i := i) (by simpa using h)
          simp only [List.set_cons_succ, List.map_cons, List.sum_cons]
          omega

end SmtpClient
