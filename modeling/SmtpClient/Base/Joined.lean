import Mathlib.Data.List.Basic
import Mathlib.Tactic.Common

/-!
# Joined pieces

Lists that consist of one or more pieces with a separator between each two of them, over any type
and any notion of piece. Where a piece is a non-empty run of elements of one class, such a list can
be told element by element.
-/

namespace SmtpClient

variable {α : Type} {sep : α}

/-- One or more pieces, a separator between each two. -/
inductive Joined (sep : α) (piece : List α → Prop) : List α → Prop where
  | one {p : List α} (h : piece p) : Joined sep piece p
  | more {p s : List α} (h : piece p) (hs : Joined sep piece s) : Joined sep piece (p ++ sep :: s)

namespace Joined

variable {piece : List α → Prop}

theorem imp {piece' : List α → Prop} (himp : ∀ p, piece p → piece' p) {s : List α}
    (h : Joined sep piece s) : Joined sep piece' s := by
  induction h with
  | one h => exact .one (himp _ h)
  | more h _ ih => exact .more (himp _ h) ih

theorem forall_mem {q : α → Prop} (hpiece : ∀ p, piece p → ∀ c ∈ p, q c) (hsep : q sep)
    {s : List α} (h : Joined sep piece s) : ∀ c ∈ s, q c := by
  induction h with
  | one h => exact hpiece _ h
  | more h _ ih =>
      intro c hc
      rcases List.mem_append.mp hc with hc | hc
      · exact hpiece _ h c hc
      · rcases List.mem_cons.mp hc with rfl | hc
        · exact hsep
        · exact ih c hc

theorem exists_cons {q : α → Prop} (hpiece : ∀ p, piece p → ∃ c t, p = c :: t ∧ q c)
    {s : List α} (h : Joined sep piece s) : ∃ c t, s = c :: t ∧ q c := by
  cases h with
  | one h => exact hpiece _ h
  | more h hs =>
      obtain ⟨c, t, rfl, hc⟩ := hpiece _ h
      exact ⟨c, _, rfl, hc⟩

end Joined

/-- Joined pieces are a first piece, alone or in front of a separator and joined pieces. -/
theorem joined_iff {piece : List α → Prop} {s : List α} :
    Joined sep piece s
      ↔ ∃ p, piece p ∧ (s = p ∨ ∃ rest, Joined sep piece rest ∧ s = p ++ sep :: rest) := by
  constructor
  · intro h
    cases h with
    | one h => exact ⟨_, h, .inl rfl⟩
    | more h hs => exact ⟨_, h, .inr ⟨_, hs, rfl⟩⟩
  · rintro ⟨p, h, rfl | ⟨rest, hs, rfl⟩⟩
    · exact .one h
    · exact .more h hs

/-! ### Runs of one class -/

/-- A non-empty run of elements of a class. -/
def Run1 (p : α → Bool) (s : List α) : Prop := s ≠ [] ∧ ∀ c ∈ s, p c = true

/-- What may follow an element of a run: the rest of the run, and joined runs behind a separator. -/
def Trailer (sep : α) (p : α → Bool) (t : List α) : Prop :=
  ∃ run, (∀ c ∈ run, p c = true)
    ∧ (t = run ∨ ∃ rest, Joined sep (Run1 p) rest ∧ t = run ++ sep :: rest)

variable {p : α → Bool}

theorem trailer_nil : Trailer sep p [] := ⟨[], by simp, .inl rfl⟩

theorem trailer_cons {c : α} {t : List α} :
    Trailer sep p (c :: t)
      ↔ p c = true ∧ Trailer sep p t ∨ c = sep ∧ Joined sep (Run1 p) t := by
  constructor
  · rintro ⟨run, hrun, h⟩
    cases run with
    | nil =>
        obtain ⟨rest, hrest, heq⟩ := h.resolve_left (by simp)
        obtain ⟨rfl, rfl⟩ := List.cons.inj heq
        exact .inr ⟨rfl, hrest⟩
    | cons d run =>
        obtain ⟨hd, hmore⟩ := List.forall_mem_cons.mp hrun
        rcases h with heq | ⟨rest, hrest, heq⟩ <;> obtain ⟨rfl, rfl⟩ := List.cons.inj heq
        · exact .inl ⟨hd, _, hmore, .inl rfl⟩
        · exact .inl ⟨hd, _, hmore, .inr ⟨rest, hrest, rfl⟩⟩
  · rintro (⟨hc, run, hrun, h⟩ | ⟨rfl, h⟩)
    · refine ⟨c :: run, List.forall_mem_cons.mpr ⟨hc, hrun⟩, ?_⟩
      rcases h with rfl | ⟨rest, hrest, rfl⟩
      · exact .inl rfl
      · exact .inr ⟨rest, hrest, rfl⟩
    · exact ⟨[], by simp, .inr ⟨t, h, rfl⟩⟩

theorem joined_run_nil : ¬Joined sep (Run1 p) [] := by
  intro h
  obtain ⟨run, hrun, heq | ⟨rest, -, heq⟩⟩ := joined_iff.mp h
  · exact hrun.1 heq.symm
  · simp at heq

theorem joined_run_cons {c : α} {t : List α} :
    Joined sep (Run1 p) (c :: t) ↔ p c = true ∧ Trailer sep p t := by
  constructor
  · intro h
    obtain ⟨run, ⟨hne, hrun⟩, h⟩ := joined_iff.mp h
    obtain ⟨d, run, rfl⟩ := List.exists_cons_of_ne_nil hne
    obtain ⟨hd, hmore⟩ := List.forall_mem_cons.mp hrun
    rcases h with heq | ⟨rest, hrest, heq⟩ <;> obtain ⟨rfl, rfl⟩ := List.cons.inj heq
    · exact ⟨hd, _, hmore, .inl rfl⟩
    · exact ⟨hd, _, hmore, .inr ⟨rest, hrest, rfl⟩⟩
  · rintro ⟨hc, run, hrun, h⟩
    have hrun' : Run1 p (c :: run) :=
      ⟨List.cons_ne_nil c run, List.forall_mem_cons.mpr ⟨hc, hrun⟩⟩
    rcases h with rfl | ⟨rest, hrest, rfl⟩
    · exact .one hrun'
    · exact .more hrun' hrest

/-- A piece more behind others. -/
theorem intercalate_concat {α : Type} (between : List α) (pieces : List (List α)) (piece : List α) :
    between.intercalate (pieces ++ [piece]) = between.intercalate pieces
      ++ ((if pieces.isEmpty then [] else between) ++ piece) := by
  induction pieces with
  | nil => simp
  | cons first rest ih =>
      cases rest with
      | nil => simp
      | cons second rest =>
          rw [List.cons_append, List.cons_append, List.intercalate_cons_cons, ← List.cons_append, ih,
            List.intercalate_cons_cons]
          simp only [List.isEmpty_cons, Bool.false_eq_true, if_false, List.append_assoc]

end SmtpClient
