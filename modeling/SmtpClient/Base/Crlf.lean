import SmtpClient.Base.Buffer

/-!
# Lines ended by CRLF

A text in which CR and LF occur only as pairs, said of all its splits and by recursion, and the
lines between the pairs.
-/

namespace SmtpClient

/-- Every CR has an LF behind it, and every LF a CR in front of it. -/
inductive Paired : Bytes → Prop where
  | nil : Paired []
  | crlf {rest : Bytes} (h : Paired rest) : Paired (cr :: lf :: rest)
  | plain {c : UInt8} {rest : Bytes} (hcr : c ≠ cr) (hlf : c ≠ lf) (h : Paired rest) :
      Paired (c :: rest)

theorem Paired.append {line rest : Bytes} (hline : ∀ c ∈ line, c ≠ cr ∧ c ≠ lf)
    (h : Paired rest) : Paired (line ++ rest) := by
  induction line with
  | nil => exact h
  | cons c line ih =>
      obtain ⟨hc, hmore⟩ := List.forall_mem_cons.mp hline
      exact .plain hc.1 hc.2 (ih hmore)

theorem Paired.behind_cr {text : Bytes} (h : Paired text) :
    ∀ front back, text = front ++ cr :: back → ∃ more, back = lf :: more := by
  induction h with
  | nil => simp
  | @crlf rest _ ih =>
      intro front back heq
      match front with
      | [] => exact ⟨rest, (List.cons.inj heq).2.symm⟩
      | [_] => exact absurd (List.cons.inj (List.cons.inj heq).2).1 (by decide)
      | _ :: _ :: front => exact ih front back (List.cons.inj (List.cons.inj heq).2).2
  | plain hcr _ _ ih =>
      intro front back heq
      cases front with
      | nil => exact absurd (List.cons.inj heq).1 hcr
      | cons _ front => exact ih front back (List.cons.inj heq).2

theorem Paired.before_lf {text : Bytes} (h : Paired text) :
    ∀ front back, text = front ++ lf :: back → ∃ before, front = before ++ [cr] := by
  induction h with
  | nil => simp
  | crlf _ ih =>
      intro front back heq
      match front with
      | [] => exact absurd (List.cons.inj heq).1 (by decide)
      | [c] =>
          obtain rfl : cr = c := (List.cons.inj heq).1
          exact ⟨[], rfl⟩
      | c :: d :: front =>
          obtain ⟨before, rfl⟩ := ih front back (List.cons.inj (List.cons.inj heq).2).2
          exact ⟨c :: d :: before, rfl⟩
  | plain _ hlf _ ih =>
      intro front back heq
      cases front with
      | nil => exact absurd (List.cons.inj heq).1 hlf
      | cons c front =>
          obtain ⟨before, rfl⟩ := ih front back (List.cons.inj heq).2
          exact ⟨c :: before, rfl⟩

/-- **Pairs.** The splits of a text at its CRs and LFs say that they are paired. -/
theorem paired_iff {text : Bytes} :
    Paired text
      ↔ (∀ front back, text = front ++ cr :: back → ∃ more, back = lf :: more)
        ∧ ∀ front back, text = front ++ lf :: back → ∃ before, front = before ++ [cr] := by
  refine ⟨fun h => ⟨h.behind_cr, h.before_lf⟩, ?_⟩
  induction hn : text.length using Nat.strongRecOn generalizing text with
  | ind n ih =>
      rintro ⟨hbehind, hbefore⟩
      cases text with
      | nil => exact .nil
      | cons c rest =>
          have hlf : c ≠ lf := by
            rintro rfl
            obtain ⟨before, hfront⟩ := hbefore [] rest rfl
            simp at hfront
          by_cases hcr : c = cr
          · subst hcr
            obtain ⟨more, rfl⟩ := hbehind [] rest rfl
            refine .crlf (ih more.length ?_ rfl ⟨?_, ?_⟩)
            · simp only [List.length_cons] at hn
              omega
            · exact fun front back heq => hbehind (cr :: lf :: front) back (by rw [heq]; rfl)
            · intro front back heq
              obtain ⟨before, hfront⟩ := hbefore (cr :: lf :: front) back (by rw [heq]; rfl)
              match before with
              | [] => simp at hfront
              | [_] => exact absurd (List.cons.inj (List.cons.inj hfront).2).1 (by decide)
              | _ :: _ :: before => exact ⟨before, (List.cons.inj (List.cons.inj hfront).2).2⟩
          · refine .plain hcr hlf (ih rest.length ?_ rfl ⟨?_, ?_⟩)
            · simp only [List.length_cons] at hn
              omega
            · exact fun front back heq => hbehind (c :: front) back (by rw [heq]; rfl)
            · intro front back heq
              obtain ⟨before, hfront⟩ := hbefore (c :: front) back (by rw [heq]; rfl)
              cases before with
              | nil => exact absurd (List.cons.inj hfront).1 hcr
              | cons _ before => exact ⟨before, (List.cons.inj hfront).2⟩

/-! ### Lines -/

/-- The stretches of a text between its CRLF pairs, the last one included. -/
def splitCrlf : Bytes → List Bytes
  | [] => [[]]
  | [c] => [[c]]
  | c :: next :: rest =>
      if c = cr ∧ next = lf then [] :: splitCrlf rest
      else (splitCrlf (next :: rest)).modifyHead (c :: ·)

theorem splitCrlf_crlf (rest : Bytes) : splitCrlf (cr :: lf :: rest) = [] :: splitCrlf rest := rfl

theorem splitCrlf_cons {c : UInt8} (h : c ≠ cr) (rest : Bytes) :
    splitCrlf (c :: rest) = (splitCrlf rest).modifyHead (c :: ·) := by
  cases rest with
  | nil => rfl
  | cons next rest => rw [splitCrlf, if_neg fun hc => h hc.1]

theorem splitCrlf_ne_nil (text : Bytes) : splitCrlf text ≠ [] := by
  induction text using splitCrlf.induct with
  | case1 | case2 => exact List.cons_ne_nil _ _
  | case3 c next rest hcrlf =>
      rw [splitCrlf, if_pos hcrlf]
      exact List.cons_ne_nil _ _
  | case4 c next rest hcrlf ih =>
      rw [splitCrlf, if_neg hcrlf]
      exact fun h => ih (List.modifyHead_eq_nil_iff.mp h)

theorem splitCrlf_append {line : Bytes} (h : cr ∉ line) (rest : Bytes) :
    splitCrlf (line ++ rest) = (splitCrlf rest).modifyHead (line ++ ·) := by
  induction line with
  | nil =>
      show splitCrlf rest = (splitCrlf rest).modifyHead id
      rw [List.modifyHead_id, id]
  | cons c line ih =>
      rw [List.mem_cons, not_or] at h
      obtain ⟨hc, hline⟩ := h
      rw [List.cons_append, splitCrlf_cons (Ne.symm hc), ih hline, List.modifyHead_modifyHead]
      rfl

theorem splitCrlf_line {line : Bytes} (h : cr ∉ line) : splitCrlf line = [line] := by
  have happend := splitCrlf_append h []
  rwa [List.append_nil, splitCrlf, List.modifyHead_cons, List.append_nil] at happend

theorem splitCrlf_line_crlf {line : Bytes} (h : cr ∉ line) (rest : Bytes) :
    splitCrlf (line ++ cr :: lf :: rest) = line :: splitCrlf rest := by
  rw [splitCrlf_append h, splitCrlf_crlf, List.modifyHead_cons, List.append_nil]

/-- The first line goes on from any part of it. -/
theorem exists_mem_splitCrlf {line : Bytes} (h : cr ∉ line) (rest : Bytes) :
    ∃ more, line ++ more ∈ splitCrlf (line ++ rest) := by
  obtain ⟨first, others, hsplit⟩ := List.exists_cons_of_ne_nil (splitCrlf_ne_nil rest)
  rw [splitCrlf_append h, hsplit, List.modifyHead_cons]
  exact ⟨first, List.mem_cons_self⟩

end SmtpClient
