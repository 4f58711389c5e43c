import SmtpClient.Base.Machine

/-!
# Labelled transitions, and what comes before what

The paths of a labelled transition relation, an invariant along them, and two rules that read the
order of the labels off the states they are taken in: a label that is only taken in some states
comes behind a label that leads there, and a label that leads to states no step leaves again comes
at most once.
-/

namespace SmtpClient

variable {σ α : Type} {step : σ → α → σ → Prop} {s t u : σ} {labels before after : List α} {a : α}

inductive Path (step : σ → α → σ → Prop) (s : σ) : List α → σ → Prop where
  | nil : Path step s [] s
  | snoc {labels : List α} {t u : σ} {a : α} (path : Path step s labels t) (h : step t a u) :
      Path step s (labels ++ [a]) u

namespace Path

theorem invariant {I : σ → Prop} (path : Path step s labels u) (hinit : I s)
    (hstep : ∀ t a u, I t → step t a u → I u) : I u := by
  induction path with
  | nil => exact hinit
  | snoc _ h ih => exact hstep _ _ _ ih h

/-- The states before and behind one label. -/
theorem split (path : Path step s (before ++ a :: after) u) :
    ∃ t t', Path step s before t ∧ step t a t' := by
  generalize hlabels : before ++ a :: after = labels at path
  induction path generalizing after with
  | nil => simp at hlabels
  | snoc path h ih =>
      rcases List.eq_nil_or_concat after with rfl | ⟨after', last, rfl⟩
      · obtain ⟨rfl, heq⟩ := List.append_inj' hlabels rfl
        obtain rfl := List.singleton_inj.mp heq
        exact ⟨_, _, path, h⟩
      · rw [List.concat_eq_append, ← List.cons_append, ← List.append_assoc] at hlabels
        obtain ⟨heq, -⟩ := List.append_inj' hlabels rfl
        exact ih heq

/-- Where a path has come to states it did not start in, a label has led there. -/
theorem entered {Q : σ → Prop} {R : α → Prop} (path : Path step s labels u) (hinit : ¬Q s)
    (henters : ∀ t a u, step t a u → ¬Q t → Q u → R a) (hQ : Q u) : ∃ b ∈ labels, R b := by
  induction path with
  | nil => exact absurd hQ hinit
  | @snoc labels t u a path h ih =>
      by_cases ht : Q t
      · obtain ⟨b, hb, hR⟩ := ih ht
        exact ⟨b, List.mem_append_left _ hb, hR⟩
      · refine ⟨a, List.mem_append_right _ (List.mem_singleton_self a), ?_⟩
        exact henters t a u h ht hQ

/-- **Precedence.** What is only done in some states is done behind what leads there. -/
theorem precedes {Q : σ → Prop} {P R : α → Prop} (path : Path step s labels u) (hinit : ¬Q s)
    (henters : ∀ t a u, step t a u → ¬Q t → Q u → R a)
    (hneeds : ∀ t a u, step t a u → P a → Q t) :
    AllJustified (fun past a => P a → ∃ b ∈ past, R b) labels := by
  intro past a future heq hP
  rw [heq] at path
  obtain ⟨t, t', hpast, h⟩ := path.split
  exact hpast.entered hinit henters (hneeds t a t' h hP)

/-- **At most once.** What leads to states that no step leaves is not done again. -/
theorem once {Q : σ → Prop} {R : α → Bool} (path : Path step s labels u)
    (hstays : ∀ t a u, step t a u → Q t → Q u)
    (henters : ∀ t a u, step t a u → R a = true → ¬Q t ∧ Q u) :
    (labels.filter R).length ≤ 1 := by
  have hkept : (labels.filter R).length ≤ 1 ∧ (labels.filter R ≠ [] → Q u) := by
    induction path with
    | nil => exact ⟨Nat.zero_le 1, fun hne => absurd rfl hne⟩
    | @snoc labels t u a path h ih =>
        obtain ⟨hle, hbehind⟩ := ih
        rw [List.filter_append]
        cases ha : R a with
        | false =>
            rw [List.filter_cons_of_neg (by simp [ha]), List.filter_nil, List.append_nil]
            exact ⟨hle, fun hne => hstays t a u h (hbehind hne)⟩
        | true =>
            obtain ⟨hnot, hQ⟩ := henters t a u h ha
            have hfirst : labels.filter R = [] := by
              by_contra hne
              exact hnot (hbehind hne)
            rw [hfirst, List.nil_append, List.filter_cons_of_pos ha, List.filter_nil]
            exact ⟨Nat.le_refl 1, fun _ => hQ⟩
  exact hkept.1

end Path

end SmtpClient
