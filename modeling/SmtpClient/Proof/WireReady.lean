import SmtpClient.Base.Crlf
import SmtpClient.Proof.EndOfData

/-!
# The bodies the validator accepts

An accepted body is a sequence of lines between CRLF pairs, which are the lines it splits into. In
the other direction the three cursors of the loop say how the current line continues the body read
so far.
-/

namespace SmtpClient

namespace Body

/-- A body that may go on the wire as it is. -/
structure WireReady (allow8bit : Bool) (body : Bytes) : Prop where
  behindCr : ∀ front back, body = front ++ cr :: back → ∃ more, back = lf :: more
  beforeLf : ∀ front back, body = front ++ lf :: back → ∃ before, front = before ++ [cr]
  byte : ∀ c ∈ body, c = cr ∨ c = lf ∨ c = 9 ∨ 0x20 ≤ c ∧ c ≠ 0x7F
  eightBit : ∀ c ∈ body, 0x80 ≤ c → allow8bit = true
  line : ∀ l ∈ splitCrlf body, l.length ≤ 998 ∧ l ≠ [dot]

/-- What a body is made of, byte by byte. -/
def Permitted (allow8bit : Bool) (c : UInt8) : Prop :=
  isDisallowedControl c = false ∧ (allow8bit = true ∨ c < 0x80)

theorem permitted_iff {allow8bit : Bool} {c : UInt8} (hcr : c ≠ cr) (hlf : c ≠ lf) :
    Permitted allow8bit c
      ↔ (c = cr ∨ c = lf ∨ c = 9 ∨ 0x20 ≤ c ∧ c ≠ 0x7F) ∧ (0x80 ≤ c → allow8bit = true) := by
  have height : (allow8bit = true ∨ c < 0x80) ↔ (0x80 ≤ c → allow8bit = true) := by
    rw [← UInt8.not_lt]
    cases allow8bit <;> simp
  have hcontrol : isDisallowedControl c = false ↔ c = 9 ∨ 0x20 ≤ c ∧ c ≠ 0x7F := by
    unfold isDisallowedControl
    by_cases htab : c = 9
    · simp [htab]
    · simp only [hcr, hlf, htab, or_self, if_false, false_or, Bool.or_eq_false_iff,
        decide_eq_false_iff_not, beq_eq_false_iff_ne, ne_eq, UInt8.le_iff_toNat_le]
      change ¬c.toNat ≤ 31 ∧ ¬c = 0x7F ↔ 32 ≤ c.toNat ∧ ¬c = 0x7F
      rw [Nat.not_le]
      rfl
  rw [Permitted, hcontrol, height]
  simp only [hcr, hlf, false_or]

theorem splitCrlf_ended {lines : List Bytes} (hlines : ∀ l ∈ lines, cr ∉ l) {last : Bytes}
    (hlast : cr ∉ last) : splitCrlf (ended lines ++ last) = lines ++ [last] := by
  induction lines with
  | nil => exact splitCrlf_line hlast
  | cons line lines ih =>
      obtain ⟨hline, hmore⟩ := List.forall_mem_cons.mp hlines
      rw [ended_cons, splitCrlf_line_crlf hline, ih hmore]
      rfl

/-! ### From the loop -/

theorem paired_ended {allow8bit : Bool} {lines : List Bytes} {last : Bytes}
    (hlines : ∀ l ∈ lines, Content allow8bit l) (hlast : Content allow8bit last) :
    Paired (ended lines ++ last) := by
  induction lines with
  | nil =>
      have h := Paired.append hlast.ne_crLf .nil
      rwa [List.append_nil] at h
  | cons line lines ih =>
      obtain ⟨hline, hmore⟩ := List.forall_mem_cons.mp hlines
      rw [ended_cons]
      exact .append hline.ne_crLf (.crlf (ih hmore))

theorem wireReady_of_validate {body : Bytes} {allow8bit : Bool}
    (h : validate body allow8bit = .ok ()) : WireReady allow8bit body := by
  obtain ⟨-, lines, last, rfl, hlines, hlast, hdot⟩ := lines_of_validate h
  obtain ⟨hbehind, hbefore⟩ := paired_iff.mp (paired_ended (fun l hl => (hlines l hl).1) hlast)
  have hfree {line : Bytes} (hline : Content allow8bit line) : cr ∉ line :=
    fun hmem => (hline.ne_crLf cr hmem).1 rfl
  have hbyte : ∀ c ∈ ended lines ++ last,
      c = cr ∨ c = lf ∨ (c ≠ cr ∧ c ≠ lf ∧ Permitted allow8bit c) := by
    have hcontent {line : Bytes} (hline : Content allow8bit line) :
        ∀ c ∈ line, c ≠ cr ∧ c ≠ lf ∧ Permitted allow8bit c := fun c hc =>
      ⟨(hline.ne_crLf c hc).1, (hline.ne_crLf c hc).2, hline.permitted c hc⟩
    intro c hc
    rcases List.mem_append.mp hc with hc | hc
    · obtain ⟨line, hline, hc⟩ := List.mem_flatMap.mp hc
      rcases List.mem_append.mp hc with hc | hc
      · exact .inr (.inr (hcontent (hlines line hline).1 c hc))
      · rcases List.mem_pair.mp hc with rfl | rfl
        · exact .inl rfl
        · exact .inr (.inl rfl)
    · exact .inr (.inr (hcontent hlast c hc))
  refine ⟨hbehind, hbefore, ?_, ?_, ?_⟩
  · intro c hc
    rcases hbyte c hc with rfl | rfl | ⟨hcr, hlf, hpermitted⟩
    · exact .inl rfl
    · exact .inr (.inl rfl)
    · exact ((permitted_iff hcr hlf).mp hpermitted).1
  · intro c hc height
    rcases hbyte c hc with rfl | rfl | ⟨hcr, hlf, hpermitted⟩
    · exact absurd height (by decide)
    · exact absurd height (by decide)
    · exact ((permitted_iff hcr hlf).mp hpermitted).2 height
  · rw [splitCrlf_ended (fun l hl => hfree (hlines l hl).1) (hfree hlast)]
    intro l hl
    rcases List.mem_append.mp hl with hl | hl
    · exact ⟨(hlines l hl).1.length_le, (hlines l hl).2⟩
    · rw [List.mem_singleton.mp hl]
      exact ⟨hlast.length_le, hdot⟩

/-! ### To the loop -/

theorem stepCheckByte_of_permitted {c : UInt8} {i : Nat} {allow8bit : Bool}
    (h : Permitted allow8bit c) : stepCheckByte c i allow8bit = .ok () := by
  have height : ¬(!allow8bit && decide (0x80 ≤ c)) = true := by
    rcases h.2 with rfl | hlt
    · simp
    · simp only [Bool.and_eq_true, decide_eq_true_eq, not_and]
      exact fun _ => UInt8.not_le.mpr hlt
  rw [stepCheckByte, h.1, if_neg Bool.false_ne_true, if_neg height]

/-- The loop in the middle of a line of a wire-ready body: it goes through, and the last line is no
single dot. -/
theorem validateLoop_of_paired {allow8bit : Bool} {rest : Bytes} (h : Paired rest)
    (front line : Bytes) (hbyte : ∀ c ∈ rest, c = cr ∨ c = lf ∨ Permitted allow8bit c)
    (hline : cr ∉ line) (hlines : ∀ l ∈ splitCrlf (line ++ rest), l.length ≤ 998 ∧ l ≠ [dot]) :
    ∃ before last, front ++ line ++ rest = before ++ last ∧ last ≠ [dot]
      ∧ validateLoop (front ++ line ++ rest) allow8bit rest (front.length + line.length)
        front.length line.length = .ok before.length := by
  induction h generalizing front line with
  | nil =>
      rw [List.append_nil, splitCrlf_line hline] at hlines
      exact ⟨front, line, List.append_nil _, (hlines line List.mem_cons_self).2, rfl⟩
  | @crlf rest _ ih =>
      rw [splitCrlf_line_crlf hline] at hlines
      obtain ⟨hfirst, hmore⟩ := List.forall_mem_cons.mp hlines
      have hstep : stepHandleCrlf (front ++ line ++ cr :: lf :: rest) lf
          (front.length + line.length) front.length = .ok () := by
        rw [stepHandleCrlf, if_neg (not_not.mpr rfl), if_neg (mt isBareDotLine_iff.mp hfirst.2)]
      obtain ⟨before, last, heq, hdot, hloop⟩ := ih (front ++ line ++ [cr, lf]) []
        (fun c hc => hbyte c (List.mem_cons_of_mem _ (List.mem_cons_of_mem _ hc))) (by simp) hmore
      have hbody : front ++ line ++ [cr, lf] ++ [] ++ rest = front ++ line ++ cr :: lf :: rest := by
        simp
      have hlength : (front ++ line ++ [cr, lf]).length = front.length + line.length + 2 := by
        simp only [List.length_append, List.length_cons, List.length_nil]
      rw [hbody] at heq hloop
      rw [hlength] at hloop
      refine ⟨before, last, heq, hdot, ?_⟩
      rw [validateLoop.eq_def]
      dsimp only
      rw [if_pos rfl, hstep]
      exact hloop
  | @plain c rest hcr hlf _ ih =>
      have hc : Permitted allow8bit c :=
        ((hbyte c List.mem_cons_self).resolve_left hcr).resolve_left hlf
      have hbody : line ++ c :: rest = line ++ [c] ++ rest := by simp
      have hfree : cr ∉ line ++ [c] := by
        rw [List.mem_append, List.mem_singleton]
        exact not_or.mpr ⟨hline, fun heq => hcr heq.symm⟩
      rw [hbody] at hlines
      have hlength : (line ++ [c]).length = line.length + 1 := by simp
      have hshort : ¬maxLineLen < line.length + 1 := by
        obtain ⟨more, hmem⟩ := exists_mem_splitCrlf hfree rest
        have hle := (hlines _ hmem).1
        rw [List.length_append, hlength] at hle
        unfold maxLineLen
        omega
      obtain ⟨before, last, heq, hdot, hloop⟩ := ih front (line ++ [c])
        (fun d hd => hbyte d (List.mem_cons_of_mem c hd)) hfree hlines
      rw [hlength, ← List.append_assoc, List.append_assoc _ [c]] at hloop
      rw [← List.append_assoc, List.append_assoc _ [c]] at heq
      refine ⟨before, last, heq, hdot, ?_⟩
      rw [validateLoop.eq_def]
      dsimp only
      rw [if_neg hcr, if_neg hlf, stepCheckByte_of_permitted hc, if_neg hshort]
      exact hloop

/-- **The accepted bodies** are the wire-ready ones. -/
theorem validate_wireReady_iff (body : Bytes) (allow8bit : Bool) :
    validate body allow8bit = .ok () ↔ body ≠ [] ∧ WireReady allow8bit body := by
  refine ⟨fun h => ⟨(lines_of_validate h).1, wireReady_of_validate h⟩, ?_⟩
  rintro ⟨hne, h⟩
  have hbyte : ∀ c ∈ body, c = cr ∨ c = lf ∨ Permitted allow8bit c := by
    intro c hc
    by_cases hcr : c = cr
    · exact .inl hcr
    by_cases hlf : c = lf
    · exact .inr (.inl hlf)
    exact .inr (.inr ((permitted_iff hcr hlf).mpr ⟨h.byte c hc, h.eightBit c hc⟩))
  obtain ⟨before, last, heq, hdot, hloop⟩ := validateLoop_of_paired
    (paired_iff.mpr ⟨h.behindCr, h.beforeLf⟩) [] [] hbyte (by simp) h.line
  obtain rfl : body = before ++ last := heq
  have hloop' : validateLoop (before ++ last) allow8bit (before ++ last) 0 0 0
      = .ok before.length := hloop
  have hlast : ¬isBareDotLine (before ++ last) before.length (before ++ last).length = true := by
    have hiff := @isBareDotLine_iff before last []
    rw [List.append_nil, ← List.length_append] at hiff
    exact mt hiff.mp hdot
  rw [validate, if_neg hne, hloop']
  dsimp only
  rw [if_neg hlast]

end Body

end SmtpClient
