import Mathlib.Data.List.Nodup
import Mathlib.Tactic.Common

/-!
# What a completion-based interface owes its caller

A submission that is accepted is pending until one report answers it or the caller has it forgotten.
The history of an interface is what its caller sees of it; a history is served if every report in it
answers a submission that was pending when it was made, and that is pending no more afterwards.
-/

namespace SmtpClient

variable {σ ρ κ : Type}

/-- What a caller sees: its submissions accepted or refused, the reports of a poll, and what it has
had forgotten. -/
inductive Happening (σ ρ κ : Type) where
  | accepted (submission : σ)
  | refused
  | reported (reports : List ρ)
  | forgot (key : κ)

/-- Each report answers one of the pending submissions, and leaves the rest of them pending. -/
inductive Answers [DecidableEq σ] (Fits : ρ → σ → Prop) : List ρ → List σ → List σ → Prop where
  | nil (pending : List σ) : Answers Fits [] pending pending
  | cons {report : ρ} {reports : List ρ} {pending rest : List σ} (submission : σ)
      (hpending : submission ∈ pending) (hfits : Fits report submission)
      (hrest : Answers Fits reports (pending.erase submission) rest) :
      Answers Fits (report :: reports) pending rest

/-- A history in which every report is owed, with the submissions still pending at its end. -/
inductive Served [DecidableEq σ] [DecidableEq κ] (Fits : ρ → σ → Prop) (key : σ → κ) :
    List (Happening σ ρ κ) → List σ → Prop where
  | nil : Served Fits key [] []
  | accepted {history : List (Happening σ ρ κ)} {pending : List σ}
      (h : Served Fits key history pending) (submission : σ) :
      Served Fits key (history ++ [.accepted submission]) (submission :: pending)
  | refused {history : List (Happening σ ρ κ)} {pending : List σ}
      (h : Served Fits key history pending) :
      Served Fits key (history ++ [.refused]) pending
  | reported {history : List (Happening σ ρ κ)} {pending rest : List σ} {reports : List ρ}
      (h : Served Fits key history pending) (hanswers : Answers Fits reports pending rest) :
      Served Fits key (history ++ [.reported reports]) rest
  | forgot {history : List (Happening σ ρ κ)} {pending : List σ}
      (h : Served Fits key history pending) (k : κ) :
      Served Fits key (history ++ [.forgot k]) (pending.filter fun s => key s ≠ k)

/-- Among submissions told apart by a label, dropping a label drops the submission that has it. -/
theorem filter_label_eq_erase [DecidableEq σ] [DecidableEq κ] {label : σ → κ} {pending : List σ}
    (hnodup : (pending.map label).Nodup) {s : σ} (hs : s ∈ pending) :
    (pending.filter fun t => label t ≠ label s) = pending.erase s := by
  have hpending : pending.Nodup := List.Nodup.of_map label hnodup
  rw [hpending.erase_eq_filter]
  apply List.filter_congr
  intro t ht
  have hinj := List.inj_on_of_nodup_map hnodup ht hs
  by_cases hts : t = s
  · simp [hts]
  · simp [hts, mt hinj hts]

/-! ### Reports told apart by a label -/

/-- Where reports and submissions are told apart by the same label, a batch names no submission
twice, and leaves those pending that it does not name. -/
theorem Answers.labelled [DecidableEq σ] {Fits : ρ → σ → Prop} {label : σ → κ} {name : ρ → κ}
    {reports : List ρ} {pending rest : List σ} (h : Answers Fits reports pending rest)
    (hname : ∀ report submission, Fits report submission → name report = label submission)
    (hnodup : (pending.map label).Nodup) :
    (reports.map name).Nodup ∧ (∀ report ∈ reports, ∃ s ∈ pending, Fits report s)
      ∧ ∀ s, s ∈ rest ↔ s ∈ pending ∧ label s ∉ reports.map name := by
  induction h with
  | nil pending => exact ⟨List.nodup_nil, by simp, by simp⟩
  | @cons report reports pending rest submission hpending hfits _ ih =>
      have hmem {s : σ} : s ∈ pending.erase submission ↔ s ≠ submission ∧ s ∈ pending :=
        (List.Nodup.of_map label hnodup).mem_erase_iff
      obtain ⟨honce, howed, hrest⟩ := ih (hnodup.sublist ((List.erase_sublist ..).map label))
      have hlabel := hname report submission hfits
      refine ⟨?_, ?_, ?_⟩
      · rw [List.map_cons, List.nodup_cons]
        refine ⟨?_, honce⟩
        intro hin
        obtain ⟨other, hother, heq⟩ := List.mem_map.1 hin
        obtain ⟨s, hs, hfits'⟩ := howed other hother
        obtain ⟨hne, hs⟩ := hmem.1 hs
        apply hne
        apply List.inj_on_of_nodup_map hnodup hs hpending
        rw [← hname other s hfits', heq, hlabel]
      · intro other hother
        rcases List.mem_cons.1 hother with rfl | hother
        · exact ⟨submission, hpending, hfits⟩
        · obtain ⟨s, hs, hfits'⟩ := howed other hother
          exact ⟨s, (hmem.1 hs).2, hfits'⟩
      · intro s
        rw [hrest, hmem, List.map_cons, List.mem_cons, not_or, hlabel]
        constructor
        · rintro ⟨⟨hne, hs⟩, hnot⟩
          exact ⟨hs, fun heq => hne (List.inj_on_of_nodup_map hnodup hs hpending heq), hnot⟩
        · rintro ⟨hs, hne, hnot⟩
          exact ⟨⟨fun heq => hne (heq ▸ rfl), hs⟩, hnot⟩

end SmtpClient
