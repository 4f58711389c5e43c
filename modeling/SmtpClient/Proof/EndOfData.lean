import SmtpClient.Body

/-!
# The end of the message data

A body the validator accepts is a sequence of lines that hold no CR and no LF, each ended by CRLF
but the last, and none of them is a single dot. A receiver of the message data therefore sees these
same lines whatever else it takes for a line end, and the first one it can take for the end of the
data is the one the sender appended.
-/

namespace SmtpClient

namespace Body

/-- What the bytes of an accepted line are, as far as it has come. -/
structure Content (allow8bit : Bool) (line : Bytes) : Prop where
  ne_crLf : ∀ c ∈ line, c ≠ cr ∧ c ≠ lf
  permitted : ∀ c ∈ line, isDisallowedControl c = false ∧ (allow8bit = true ∨ c < 0x80)
  length_le : line.length ≤ maxLineLen

/-- Lines ended by CRLF. -/
def ended (lines : List Bytes) : Bytes := lines.flatMap (· ++ [cr, lf])

theorem ended_cons (line : Bytes) (lines : List Bytes) (rest : Bytes) :
    ended (line :: lines) ++ rest = line ++ cr :: lf :: (ended lines ++ rest) := by
  simp [ended]

theorem Content.nil {allow8bit : Bool} : Content allow8bit [] :=
  ⟨by simp, by simp, Nat.zero_le _⟩

theorem Content.concat {allow8bit : Bool} {line : Bytes} {c : UInt8} (h : Content allow8bit line)
    (hne : c ≠ cr ∧ c ≠ lf)
    (hc : isDisallowedControl c = false ∧ (allow8bit = true ∨ c < 0x80))
    (hlen : line.length + 1 ≤ maxLineLen) : Content allow8bit (line ++ [c]) := by
  refine ⟨?_, ?_, by simpa using hlen⟩
  · intro d hd
    rcases List.mem_append.mp hd with hd | hd
    · exact h.ne_crLf d hd
    · rwa [List.mem_singleton.mp hd]
  · intro d hd
    rcases List.mem_append.mp hd with hd | hd
    · exact h.permitted d hd
    · rwa [List.mem_singleton.mp hd]

theorem isBareDotLine_iff {front line rest : Bytes} :
    isBareDotLine (front ++ line ++ rest) front.length (front.length + line.length) = true
      ↔ line = [dot] := by
  rw [isBareDotLine, List.append_assoc, List.getElem?_append_right (Nat.le_refl _), Nat.sub_self,
    Nat.add_sub_cancel_left, Bool.and_eq_true, beq_iff_eq, beq_iff_eq]
  constructor
  · rintro ⟨hlength, hfirst⟩
    obtain ⟨c, rfl⟩ := List.length_eq_one_iff.mp hlength
    simpa using hfirst
  · rintro rfl
    exact ⟨rfl, rfl⟩

theorem stepHandleCrlf_ok {front line rest : Bytes} {next : UInt8}
    (h : stepHandleCrlf (front ++ line ++ rest) next (front.length + line.length) front.length
      = .ok ()) : next = lf ∧ line ≠ [dot] := by
  unfold stepHandleCrlf at h
  split at h
  · exact absurd h (by simp)
  rename_i hlf
  split at h
  · exact absurd h (by simp)
  rename_i hdot
  exact ⟨by simpa using hlf, fun heq => hdot (isBareDotLine_iff.mpr heq)⟩

theorem stepCheckByte_ok {c : UInt8} {i : Nat} {allow8bit : Bool}
    (h : stepCheckByte c i allow8bit = .ok ()) :
    isDisallowedControl c = false ∧ (allow8bit = true ∨ c < 0x80) := by
  unfold stepCheckByte at h
  split at h
  · exact absurd h (by simp)
  rename_i hcontrol
  split at h
  · exact absurd h (by simp)
  rename_i height
  refine ⟨by simpa using hcontrol, ?_⟩
  cases allow8bit with
  | true => exact .inl rfl
  | false => exact .inr (by simpa using height)

/-- The loop in the middle of a line: with the rest of the body the line splits into lines, the last
of which starts where the loop says. -/
theorem split_of_validateLoop {allow8bit : Bool} {start : Nat} (rest front line : Bytes)
    (hline : Content allow8bit line)
    (h : validateLoop (front ++ line ++ rest) allow8bit rest (front.length + line.length)
      front.length line.length = .ok start) :
    ∃ lines last, line ++ rest = ended lines ++ last
      ∧ (∀ l ∈ lines, Content allow8bit l ∧ l ≠ [dot]) ∧ Content allow8bit last
      ∧ start = front.length + (ended lines).length := by
  induction hn : rest.length using Nat.strongRecOn generalizing rest front line with
  | ind n ih =>
      cases rest with
      | nil =>
          cases Except.ok.inj h
          exact ⟨[], line, by simp [ended], by simp, hline, by simp [ended]⟩
      | cons c rest =>
          rw [validateLoop.eq_def] at h
          dsimp only at h
          by_cases hcr : c = cr
          · rw [if_pos hcr] at h
            cases rest with
            | nil => exact absurd h (by simp)
            | cons next rest =>
                dsimp only at h
                split at h
                · exact absurd h (by simp)
                rename_i hstep
                obtain ⟨hlf, hdot⟩ := stepHandleCrlf_ok hstep
                subst hcr hlf
                have hbody : front ++ line ++ cr :: lf :: rest
                    = (front ++ line ++ [cr, lf]) ++ [] ++ rest := by simp
                have hfront : front.length + line.length + 2
                    = (front ++ line ++ [cr, lf]).length := by simp; omega
                rw [hbody, hfront] at h
                obtain ⟨lines, last, hsplit, hlines, hlast, hstart⟩ :=
                  ih rest.length (by simp at hn; omega) rest _ [] .nil h rfl
                refine ⟨line :: lines, last, ?_, ?_, hlast, ?_⟩
                · rw [ended_cons, ← hsplit, List.nil_append]
                · exact List.forall_mem_cons.mpr ⟨⟨hline, hdot⟩, hlines⟩
                · have hcons := congrArg List.length (ended_cons line lines [])
                  simp only [List.append_nil, List.length_append, List.length_cons] at hcons
                  rw [hstart, ← hfront]
                  omega
          · rw [if_neg hcr] at h
            split at h
            · exact absurd h (by simp)
            rename_i hlf
            split at h
            · exact absurd h (by simp)
            rename_i hbyte
            split at h
            · exact absurd h (by simp)
            rename_i hlen
            have hbody : front ++ line ++ c :: rest = front ++ (line ++ [c]) ++ rest := by simp
            have hi : front.length + line.length + 1 = front.length + (line ++ [c]).length := by
              simp; omega
            have hcount : line.length + 1 = (line ++ [c]).length := by simp
            rw [hbody, hi, hcount] at h
            obtain ⟨lines, last, hsplit, hrest⟩ :=
              ih rest.length (by simp at hn; omega) rest front (line ++ [c])
                (hline.concat ⟨hcr, hlf⟩ (stepCheckByte_ok hbyte) (by omega)) h rfl
            exact ⟨lines, last, by rw [← hsplit]; simp, hrest⟩

/-- **The lines of an accepted body.** -/
theorem lines_of_validate {body : Bytes} {allow8bit : Bool}
    (h : validate body allow8bit = .ok ()) :
    body ≠ [] ∧ ∃ lines last, body = ended lines ++ last
      ∧ (∀ l ∈ lines, Content allow8bit l ∧ l ≠ [dot]) ∧ Content allow8bit last
      ∧ last ≠ [dot] := by
  unfold validate at h
  split at h
  · exact absurd h (by simp)
  rename_i hne
  split at h
  · exact absurd h (by simp)
  rename_i start hloop
  obtain ⟨lines, last, hsplit, hlines, hlast, hstart⟩ :=
    split_of_validateLoop body [] [] Content.nil hloop
  split at h
  · exact absurd h (by simp)
  rename_i hdot
  rw [List.nil_append] at hsplit
  refine ⟨hne, lines, last, hsplit, hlines, hlast, fun heq => hdot ?_⟩
  have hbare : isBareDotLine (ended lines ++ last ++ []) (ended lines).length
      ((ended lines).length + last.length) = true := isBareDotLine_iff.mpr heq
  rw [List.append_nil, ← List.length_append, ← hsplit] at hbare
  rwa [hstart, List.length_nil, Nat.zero_add]

end Body

/-! ### The receiver -/

/-- What a receiver takes for a line end besides CRLF. -/
structure Dialect where
  bareLf : Bool
  bareCr : Bool
  deriving DecidableEq, Repr

namespace Dialect

def ends (d : Dialect) (c : UInt8) : Bool := c == lf && d.bareLf || c == cr && d.bareCr

/-- Reads on at an offset, with the line read so far: where the first line that is a single dot
starts, and where what follows it does. -/
def findDot (d : Dialect) : (stream line : Bytes) → (offset : Nat) → Option (Nat × Nat)
  | [], _, _ => none
  | [c], line, offset =>
      if d.ends c ∧ line = [Body.dot] then some (offset - 1, offset + 1) else none
  | c :: next :: rest, line, offset =>
      if c = cr ∧ next = lf then
        if line = [Body.dot] then some (offset - 1, offset + 2)
        else findDot d rest [] (offset + 2)
      else if d.ends c then
        if line = [Body.dot] then some (offset - 1, offset + 1)
        else findDot d (next :: rest) [] (offset + 1)
      else findDot d (next :: rest) (line ++ [c]) (offset + 1)

def endOfData (d : Dialect) (stream : Bytes) : Option (Nat × Nat) := d.findDot stream [] 0

variable {d : Dialect}

theorem findDot_crLf (rest line : Bytes) (offset : Nat) :
    d.findDot (cr :: lf :: rest) line offset
      = if line = [Body.dot] then some (offset - 1, offset + 2)
        else d.findDot rest [] (offset + 2) := by
  rw [findDot, if_pos ⟨rfl, rfl⟩]

theorem findDot_line {text : Bytes} (htext : ∀ c ∈ text, c ≠ cr ∧ c ≠ lf) (rest line : Bytes)
    (offset : Nat) :
    d.findDot (text ++ cr :: lf :: rest) line offset
      = d.findDot (cr :: lf :: rest) (line ++ text) (offset + text.length) := by
  induction text generalizing line offset with
  | nil => simp
  | cons c text ih =>
      obtain ⟨hcr, hlf⟩ := htext c List.mem_cons_self
      have htail := ih (fun e he => htext e (List.mem_cons_of_mem c he)) (line ++ [c]) (offset + 1)
      obtain ⟨next, after, hnext⟩ : ∃ next after, text ++ cr :: lf :: rest = next :: after := by
        cases text with
        | nil => exact ⟨_, _, rfl⟩
        | cons next text => exact ⟨_, _, rfl⟩
      have hends : d.ends c = false := by simp [ends, hcr, hlf]
      rw [List.cons_append, hnext, findDot, if_neg (fun h => hcr h.1), hends, ← hnext, htail]
      simp only [Bool.false_eq_true, if_false, List.append_assoc, List.singleton_append,
        List.length_cons]
      congr 1
      omega

theorem findDot_ended {allow8bit : Bool} {lines : List Bytes}
    (hlines : ∀ l ∈ lines, Body.Content allow8bit l ∧ l ≠ [Body.dot]) (rest : Bytes)
    (offset : Nat) :
    d.findDot (Body.ended lines ++ rest) [] offset
      = d.findDot rest [] (offset + (Body.ended lines).length) := by
  induction lines generalizing offset with
  | nil => simp [Body.ended]
  | cons line lines ih =>
      obtain ⟨⟨hcontent, hdot⟩, hlines⟩ := List.forall_mem_cons.mp hlines
      have hcons := congrArg List.length (Body.ended_cons line lines [])
      simp only [List.append_nil, List.length_append, List.length_cons] at hcons
      rw [Body.ended_cons, findDot_line hcontent.ne_crLf, findDot_crLf, List.nil_append,
        if_neg hdot, ih hlines]
      congr 1
      omega

end Dialect

namespace Body

/-- The end-of-data sequence, with the line end the body may lack. -/
def terminator (body : Bytes) : Bytes :=
  if [cr, lf] <:+ body then [dot, cr, lf] else [cr, lf, dot, cr, lf]

theorem crLf_suffix_iff {allow8bit : Bool} (lines : List Bytes) {last : Bytes}
    (hlast : Content allow8bit last) :
    [cr, lf] <:+ ended lines ++ last ↔ last = [] ∧ lines ≠ [] := by
  constructor
  · rintro ⟨front, h⟩
    have hempty : last = [] := by
      by_contra hne
      have hend := congrArg List.getLast? h
      rw [List.getLast?_append_of_ne_nil _ hne] at hend
      have hmem : lf ∈ last := List.mem_of_getLast? (by simpa using hend.symm)
      exact (hlast.ne_crLf lf hmem).2 rfl
    refine ⟨hempty, ?_⟩
    rintro rfl
    simp [ended, hempty] at h
  · rintro ⟨rfl, hne⟩
    obtain ⟨front, line, rfl⟩ := List.eq_nil_or_concat lines |>.resolve_left hne
    exact ⟨ended front ++ line, by simp [ended]⟩

/-- **The end of the data is where the sender put it.** Whatever the receiver takes for a line end
and whatever it is sent behind the data. -/
theorem endOfData_of_validate {body : Bytes} {allow8bit : Bool}
    (h : validate body allow8bit = .ok ()) (d : Dialect) (rest : Bytes) :
    d.endOfData (body ++ terminator body ++ rest)
      = some (body.length + (terminator body).length - 3,
          body.length + (terminator body).length) := by
  obtain ⟨hne, lines, last, rfl, hlines, hlast, hdot⟩ := lines_of_validate h
  have hsuffix := crLf_suffix_iff lines hlast
  have hfound (offset : Nat) :
      d.findDot ([dot, cr, lf] ++ rest) [] offset = some (offset, offset + 3) := by
    have hdotLine := @Dialect.findDot_line d [dot] (by simp [dot, cr, lf]) rest [] offset
    rw [Dialect.findDot_crLf] at hdotLine
    simpa using hdotLine
  rw [Dialect.endOfData, List.append_assoc, List.append_assoc, Dialect.findDot_ended hlines]
  by_cases hend : last = []
  · have hlinesNe : lines ≠ [] := by
      rintro rfl
      simp [ended, hend] at hne
    rw [terminator, if_pos (hsuffix.mpr ⟨hend, hlinesNe⟩), hend, List.nil_append, hfound]
    simp
  · rw [terminator, if_neg (fun hcrLf => hend (hsuffix.mp hcrLf).1)]
    have hline := Dialect.findDot_line (d := d) hlast.ne_crLf ([dot, cr, lf] ++ rest) []
      (0 + (ended lines).length)
    rw [Dialect.findDot_crLf, List.nil_append, if_neg hdot, hfound] at hline
    refine Eq.trans hline ?_
    simp

/-- A stuffed dot, an unended last line, and a receiver that takes either byte for a line end. -/
theorem endOfData_of_stuffed :
    validate [dot, dot, cr, lf, 97] false = .ok ()
      ∧ (Dialect.mk true true).endOfData
          ([dot, dot, cr, lf, 97] ++ terminator [dot, dot, cr, lf, 97] ++ [dot, lf])
        = some (5 + 5 - 3, 5 + 5) :=
  ⟨rfl, @endOfData_of_validate [dot, dot, cr, lf, 97] false rfl ⟨true, true⟩ [dot, lf]⟩

end Body

end SmtpClient
