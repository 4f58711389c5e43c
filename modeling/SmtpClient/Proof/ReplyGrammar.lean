import SmtpClient.Proof.ReplyLines

/-!
# The reply grammar

A reply as its grammar has it: a code, the texts of the continuation lines, and the text of the
final line, which may have none. The reader accepts a buffer exactly when such a reply, of few
enough lines, is spelled at its front, and then returns that reply. A verdict other than
"incomplete" does not depend on the bytes that follow.
-/

namespace SmtpClient

namespace Reply

/-- Three digits, in 2-5, 0-5 and 0-9. -/
structure Code where
  d0 : UInt8
  d1 : UInt8
  d2 : UInt8
  h0 : 50 ≤ d0 ∧ d0 ≤ 53
  h1 : 48 ≤ d1 ∧ d1 ≤ 53
  h2 : 48 ≤ d2 ∧ d2 ≤ 57

namespace Code

def digits (code : Code) : Bytes := [code.d0, code.d1, code.d2]

def value (code : Code) : Nat :=
  (code.d0.toNat - 48) * 100 + (code.d1.toNat - 48) * 10 + (code.d2.toNat - 48)

theorem value_injective : Function.Injective value := by
  intro left right h
  obtain ⟨a0, a1, a2, ha0, ha1, ha2⟩ := left
  obtain ⟨b0, b1, b2, hb0, hb1, hb2⟩ := right
  simp only [value, UInt8.le_iff_toNat_le, UInt8.reduceToNat] at h ha0 ha1 ha2 hb0 hb1 hb2
  obtain rfl : a0 = b0 := UInt8.toNat_inj.mp (by omega)
  obtain rfl : a1 = b1 := UInt8.toNat_inj.mp (by omega)
  obtain rfl : a2 = b2 := UInt8.toNat_inj.mp (by omega)
  rfl

end Code

/-- HTAB and 0x20-0x7E. -/
abbrev Text := {text : Bytes // ∀ c ∈ text, c = 9 ∨ 32 ≤ c ∧ c ≤ 126}

theorem isTextChar_iff {c : UInt8} : isTextChar c = true ↔ c = 9 ∨ 32 ≤ c ∧ c ≤ 126 := by
  simp only [isTextChar, Bool.or_eq_true, Bool.and_eq_true, beq_iff_eq, decide_eq_true_eq,
    UInt8.le_iff_toNat_le, UInt8.reduceToNat, ← UInt8.toNat_inj]
  omega

def continuationLine (code : Code) (text : Text) : Bytes :=
  code.digits ++ 45 :: (text.val ++ [cr, lf])

def finalLine (code : Code) : Option Text → Bytes
  | some text => code.digits ++ 32 :: (text.val ++ [cr, lf])
  | none => code.digits ++ [cr, lf]

/-- A reply of any number of lines. -/
structure MultiLine where
  code : Code
  continuations : List Text
  final : Option Text

namespace MultiLine

def render (m : MultiLine) : Bytes :=
  m.continuations.flatMap (continuationLine m.code) ++ finalLine m.code m.final

def lineCount (m : MultiLine) : Nat := m.continuations.length + 1

/-- What the reader reports of it. -/
def reply (m : MultiLine) : Reply := ⟨m.code.value, m.render.length, m.lineCount⟩

end MultiLine

/-! ### One line -/

theorem scanText_text {text : Bytes} (htext : ∀ c ∈ text, isTextChar c = true) (rest : Bytes)
    (i : Nat) : scanText (text ++ cr :: lf :: rest) i = .ok (i + text.length) := by
  induction text generalizing i with
  | nil => simp [scanText]
  | cons c text ih =>
      have hc : isTextChar c = true := htext c List.mem_cons_self
      have hne : c ≠ cr ∧ c ≠ lf := ne_crLf_of_isTextChar hc
      have htail := ih (fun d hd => htext d (List.mem_cons_of_mem c hd)) (i + 1)
      rw [List.cons_append, scanText.eq_def]
      simp only [hne.1, hne.2, hc, if_false, if_true, htail, List.length_cons]
      congr 1
      omega

theorem parseCode_digits (code : Code) (rest : Bytes) :
    parseCode (code.digits ++ rest) = .ok code.value := by
  obtain ⟨d0, d1, d2, h0, h1, h2⟩ := code
  have h0' : ¬(d0 < 50 || 53 < d0) = true := by simpa using h0
  have h1' : ¬(d1 < 48 || 53 < d1) = true := by simpa using h1
  have h2' : ¬(d2 < 48 || 57 < d2) = true := by simpa using h2
  simp only [Code.digits, List.cons_append, List.nil_append, parseCode, if_neg h0', if_neg h1',
    if_neg h2', Code.value]

theorem parseLine_continuation (code : Code) (text : Text) (rest : Bytes) :
    parseLine (continuationLine code text ++ rest)
      = .ok ⟨code.value, false, 4, text.val.length, (continuationLine code text).length⟩ := by
  have htext : ∀ c ∈ text.val, isTextChar c = true := fun c hc =>
    isTextChar_iff.mpr (text.property c hc)
  have hsplit : continuationLine code text ++ rest
      = code.digits ++ 45 :: (text.val ++ cr :: lf :: rest) := by simp [continuationLine]
  have hscan : scanTextAndCrlf (continuationLine code text ++ rest) 4
      = .ok (text.val.length, (continuationLine code text).length) := by
    rw [scanTextAndCrlf, hsplit]
    have hdrop : (code.digits ++ 45 :: (text.val ++ cr :: lf :: rest)).drop 4
        = text.val ++ cr :: lf :: rest := rfl
    rw [hdrop, scanText_text htext]
    simp [continuationLine, Code.digits]
    omega
  have hsep : determineSeparator (continuationLine code text ++ rest) = .ok (false, 4) := rfl
  have hcode : parseCode (continuationLine code text ++ rest) = .ok code.value := by
    rw [hsplit, parseCode_digits]
  simp only [parseLine, hcode, hsep, hscan]

/-- Where the text of a final line starts, and its text. -/
def finalShape : Option Text → Nat × Bytes
  | some text => (4, text.val)
  | none => (3, [])

theorem parseLine_finalLine (code : Code) (final : Option Text) (rest : Bytes) :
    parseLine (finalLine code final ++ rest)
      = .ok ⟨code.value, true, (finalShape final).1, (finalShape final).2.length,
          (finalLine code final).length⟩ := by
  have hcode : parseCode (finalLine code final ++ rest) = .ok code.value := by
    cases final <;> exact (parseCode_digits code _)
  cases final with
  | none =>
      have hsep : determineSeparator (finalLine code none ++ rest) = .ok (true, 3) := rfl
      have hscan : scanTextAndCrlf (finalLine code none ++ rest) 3
          = .ok (0, (finalLine code none).length) := rfl
      simp only [parseLine, hcode, hsep, hscan, finalShape, List.length_nil]
  | some text =>
      have htext : ∀ c ∈ text.val, isTextChar c = true := fun c hc =>
        isTextChar_iff.mpr (text.property c hc)
      have hsep : determineSeparator (finalLine code (some text) ++ rest) = .ok (true, 4) := rfl
      have hscan : scanTextAndCrlf (finalLine code (some text) ++ rest) 4
          = .ok (text.val.length, (finalLine code (some text)).length) := by
        have hdrop : (finalLine code (some text) ++ rest).drop 4
            = text.val ++ cr :: lf :: rest := by simp [finalLine, Code.digits]
        rw [scanTextAndCrlf, hdrop, scanText_text htext]
        simp [finalLine, Code.digits]
        omega
      simp only [parseLine, hcode, hsep, hscan, finalShape]

theorem exists_code_of_parseCode {buf : Bytes} {value : Nat} (h : parseCode buf = .ok value) :
    ∃ (code : Code) (rest : Bytes), buf = code.digits ++ rest ∧ value = code.value := by
  unfold parseCode at h
  split at h
  swap
  · exact absurd h (by simp)
  rename_i d0 d1 d2 rest
  split at h
  · exact absurd h (by simp)
  rename_i h0
  split at h
  · exact absurd h (by simp)
  rename_i h1
  split at h
  · exact absurd h (by simp)
  rename_i h2
  cases LineResult.ok.inj h
  exact ⟨⟨d0, d1, d2, by simpa using h0, by simpa using h1, by simpa using h2⟩, rest, rfl, rfl⟩

/-- A line the parser accepts is spelled as the grammar has it. -/
theorem spelled_of_parseLine {buf : Bytes} {line : Line} (h : parseLine buf = .ok line) :
    ∃ (code : Code) (rest : Bytes), line.code = code.value
      ∧ ((∃ text : Text, line.isFinal = false ∧ buf = continuationLine code text ++ rest)
        ∨ ∃ final : Option Text, line.isFinal = true ∧ buf = finalLine code final ++ rest) := by
  obtain ⟨body, behind, hbuf, htext, -, -⟩ := parseLine_ok h
  obtain ⟨hcode, hsep, -⟩ := parseLine_parts h
  obtain ⟨value, isFinal, start, textLen, consumed⟩ := line
  obtain ⟨code, after, rfl, rfl⟩ := exists_code_of_parseCode hcode
  dsimp only at hbuf
  let text : Text := ⟨body, fun c hc => isTextChar_iff.mp (htext c hc)⟩
  have hdrop : (code.digits ++ after).drop 3 = after := rfl
  rw [determineSeparator, hdrop] at hsep
  refine ⟨code, behind, rfl, ?_⟩
  obtain _ | ⟨sep, after⟩ := after
  · exact absurd hsep (by simp)
  dsimp only at hsep
  have hfour : (code.digits ++ sep :: after).drop 4 = after := rfl
  split at hsep
  · rename_i hdash
    cases LineResult.ok.inj hsep
    rw [hfour] at hbuf
    exact .inl ⟨text, rfl, by simp [continuationLine, text, hdash, hbuf]⟩
  split at hsep
  · rename_i hblank
    cases LineResult.ok.inj hsep
    rw [hfour] at hbuf
    exact .inr ⟨some text, rfl, by simp [finalLine, text, hblank, hbuf]⟩
  split at hsep
  · rename_i hcr
    cases LineResult.ok.inj hsep
    rw [hdrop, hcr] at hbuf
    -- The text of such a line ends where it starts: its first byte would be the CR.
    have hempty : body = [] := by
      cases body with
      | nil => rfl
      | cons c body =>
          have hc : c = cr := (List.cons.inj hbuf).1.symm
          exact absurd hc (ne_crLf_of_isTextChar (htext c List.mem_cons_self)).1
    rw [hempty, List.nil_append] at hbuf
    exact .inr ⟨none, rfl, by simp [finalLine, hcr, (List.cons.inj hbuf).2]⟩
  · exact absurd hsep (by simp)

/-! ### A whole reply -/

theorem drop_of_eq_append {buf front rest : Bytes} {offset : Nat}
    (h : buf.drop offset = front ++ rest) : buf.drop (offset + front.length) = rest := by
  rw [← List.drop_drop, h, List.drop_left]

theorem readLoop_render {buf rest : Bytes} {code : Code} {final : Option Text}
    (continuations : List Text) {remaining offset lineCount firstCode : Nat}
    (hbuf : buf.drop offset
      = continuations.flatMap (continuationLine code) ++ finalLine code final ++ rest)
    (hlines : continuations.length + 1 ≤ remaining)
    (hfirst : lineCount ≠ 0 → firstCode = code.value) :
    readLoop buf remaining offset lineCount firstCode
      = .ok ⟨code.value, offset
          + (continuations.flatMap (continuationLine code) ++ finalLine code final).length,
          lineCount + (continuations.length + 1)⟩ := by
  obtain ⟨remaining, rfl⟩ : ∃ n, remaining = n + 1 := ⟨remaining - 1, by omega⟩
  have hmatch : ¬(lineCount ≠ 0 ∧ code.value ≠ firstCode) := fun h => h.2 (hfirst h.1).symm
  have hcode : (if lineCount = 0 then code.value else firstCode) = code.value := by
    by_cases hcount : lineCount = 0
    · simp [hcount]
    · simp [hcount, hfirst hcount]
  induction continuations generalizing offset lineCount firstCode remaining with
  | nil =>
      rw [List.flatMap_nil, List.nil_append] at hbuf ⊢
      rw [readLoop, hbuf, parseLine_finalLine]
      simp only [if_neg hmatch, hcode, if_true, List.length_nil, Nat.zero_add]
  | cons text continuations ih =>
      rw [List.flatMap_cons, List.append_assoc, List.append_assoc] at hbuf
      have hnext := drop_of_eq_append hbuf
      rw [← List.append_assoc] at hnext
      obtain ⟨remaining, rfl⟩ : ∃ n, remaining = n + 1 := ⟨remaining - 1, by
        simp only [List.length_cons] at hlines
        omega⟩
      rw [readLoop, hbuf, parseLine_continuation]
      simp only [if_neg hmatch, hcode, Bool.false_eq_true, if_false]
      rw [ih hnext (fun _ => rfl) remaining (by simpa using hlines) (by simp) (by simp)]
      simp only [List.flatMap_cons, List.length_append, List.length_cons, ReadResult.ok.injEq,
        Reply.mk.injEq, true_and]
      omega

/-- **Reading a spelled reply.** Whatever bytes follow it. -/
theorem read_render (m : MultiLine) (rest : Bytes) {maxLines : Nat} (h : m.lineCount ≤ maxLines) :
    read (m.render ++ rest) maxLines = .ok m.reply := by
  have hloop := @readLoop_render (m.render ++ rest) rest m.code m.final m.continuations maxLines 0 0 0
    rfl h (by simp)
  rw [read, hloop]
  simp [MultiLine.reply, MultiLine.render, MultiLine.lineCount]

theorem spelled_of_readLoop {buf : Bytes} {remaining offset lineCount firstCode : Nat}
    {reply : Reply} (h : readLoop buf remaining offset lineCount firstCode = .ok reply) :
    ∃ m : MultiLine, m.render <+: buf.drop offset ∧ m.lineCount ≤ remaining
      ∧ m.code.value = reply.code := by
  induction remaining generalizing offset lineCount firstCode with
  | zero => exact absurd h (by simp [readLoop])
  | succ remaining ih =>
      obtain ⟨line, hparse, -, hrest⟩ := readLoop_succ_ok h
      obtain ⟨code, rest, hcode, hspelled⟩ := spelled_of_parseLine hparse
      rcases hspelled with ⟨text, hmore, hbuf⟩ | ⟨final, hfinal, hbuf⟩
      · have hnext : readLoop buf remaining (offset + line.consumed) (lineCount + 1) line.code
            = .ok reply := by simpa [hmore] using hrest
        obtain ⟨-, -, -, -, hlater⟩ := lines_of_readLoop hnext
        obtain ⟨m, hprefix, hcount, hvalue⟩ := ih hnext
        have hsame : m.code = code :=
          Code.value_injective (hvalue.trans ((hlater (Nat.succ_ne_zero _)).trans hcode))
        have hlen : line.consumed = (continuationLine code text).length := by
          rw [hbuf, parseLine_continuation] at hparse
          exact (congrArg Line.consumed (LineResult.ok.inj hparse)).symm
        rw [hlen, drop_of_eq_append hbuf] at hprefix
        refine ⟨⟨code, text :: m.continuations, m.final⟩, ?_, ?_, ?_⟩
        · rw [MultiLine.render, List.flatMap_cons, List.append_assoc, hbuf]
          rw [MultiLine.render, hsame] at hprefix
          exact (List.prefix_append_right_inj _).mpr hprefix
        · simpa [MultiLine.lineCount] using hcount
        · rw [← hsame, hvalue]
      · have hlast : reply = ⟨line.code, offset + line.consumed, lineCount + 1⟩ := by
          simpa [hfinal] using hrest
        refine ⟨⟨code, [], final⟩, ?_, ?_, hcode.symm.trans (by rw [hlast])⟩
        · simp [MultiLine.render, hbuf]
        · simp [MultiLine.lineCount]

/-! ### What is spelled at the front of a buffer is spelled in one way -/

theorem digits_inj {code code' : Code} {rest rest' : Bytes}
    (h : code.digits ++ rest = code'.digits ++ rest') : code = code' ∧ rest = rest' := by
  obtain ⟨hdigits, hrest⟩ := List.append_inj h rfl
  obtain ⟨d0, d1, d2, _, _, _⟩ := code
  obtain ⟨e0, e1, e2, _, _, _⟩ := code'
  simp only [Code.digits, List.cons.injEq, and_true] at hdigits
  obtain ⟨rfl, rfl, rfl⟩ := hdigits
  exact ⟨rfl, hrest⟩

theorem text_inj {text text' : Text} {rest rest' : Bytes}
    (h : text.val ++ [cr, lf] ++ rest = text'.val ++ [cr, lf] ++ rest') :
    text = text' ∧ rest = rest' := by
  have htake (t : Text) (after : Bytes) :
      (t.val ++ [cr, lf] ++ after).takeWhile (· ≠ cr) = t.val := by
    have hstop : ∀ c ∈ t.val, decide (c ≠ cr) = true := fun c hc =>
      decide_eq_true (ne_crLf_of_isTextChar (isTextChar_iff.mpr (t.property c hc))).1
    rw [List.append_assoc, List.takeWhile_append_of_pos hstop]
    simp
  have hval : text.val = text'.val := by rw [← htake text rest, h, htake]
  rw [hval, List.append_cancel_left_eq] at h
  exact ⟨Subtype.ext hval, h⟩

theorem continuationLine_inj {code code' : Code} {text text' : Text} {rest rest' : Bytes}
    (h : continuationLine code text ++ rest = continuationLine code' text' ++ rest') :
    code = code' ∧ text = text' ∧ rest = rest' := by
  simp only [continuationLine, List.append_assoc] at h
  obtain ⟨hcode, hline⟩ := digits_inj h
  exact ⟨hcode, text_inj (List.cons.inj hline).2⟩

theorem finalLine_inj {code code' : Code} {final final' : Option Text} {rest rest' : Bytes}
    (h : finalLine code final ++ rest = finalLine code' final' ++ rest') :
    code = code' ∧ final = final' ∧ rest = rest' := by
  cases final <;> cases final' <;> simp only [finalLine, List.append_assoc] at h <;>
    obtain ⟨hcode, hline⟩ := digits_inj h
  · exact ⟨hcode, rfl, by simpa using hline⟩
  · exact absurd (List.cons.inj hline).1 (by decide)
  · exact absurd (List.cons.inj hline).1 (by decide)
  · obtain ⟨rfl, hrest⟩ := text_inj (List.cons.inj hline).2
    exact ⟨hcode, rfl, hrest⟩

theorem continuationLine_ne_finalLine {code code' : Code} {text : Text} {final : Option Text}
    {rest rest' : Bytes} : continuationLine code text ++ rest ≠ finalLine code' final ++ rest' := by
  intro h
  cases final <;> simp only [continuationLine, finalLine, List.append_assoc] at h <;>
    exact absurd (List.cons.inj (digits_inj h).2).1 (by decide)

theorem render_inj {m m' : MultiLine} {rest rest' : Bytes}
    (h : m.render ++ rest = m'.render ++ rest') : m = m' := by
  obtain ⟨code, continuations, final⟩ := m
  obtain ⟨code', continuations', final'⟩ := m'
  simp only [MultiLine.render, List.append_assoc] at h
  suffices hall : code = code' ∧ continuations = continuations' ∧ final = final' by
    obtain ⟨rfl, rfl, rfl⟩ := hall
    rfl
  induction continuations generalizing continuations' with
  | nil =>
      cases continuations' with
      | nil =>
          obtain ⟨hcode, hfinal, -⟩ := finalLine_inj h
          exact ⟨hcode, rfl, hfinal⟩
      | cons text' _ =>
          rw [List.flatMap_cons, List.append_assoc] at h
          exact absurd h.symm continuationLine_ne_finalLine
  | cons text continuations ih =>
      rw [List.flatMap_cons, List.append_assoc] at h
      cases continuations' with
      | nil => exact absurd h continuationLine_ne_finalLine
      | cons text' continuations' =>
          rw [List.flatMap_cons, List.append_assoc] at h
          obtain ⟨-, rfl, hrest⟩ := continuationLine_inj h
          obtain ⟨hcode, rfl, hfinal⟩ := ih continuations' hrest
          exact ⟨hcode, rfl, hfinal⟩

/-- **The reader accepts the reply grammar.** It answers OK when a reply of at most `maxLines` lines
is spelled at the front of the buffer and at no other time, with the code, the length and the number
of lines of that reply. At most one reply is spelled there, and no bytes behind it change the
answer. -/
theorem read_ok_iff (buf : Bytes) (maxLines : Nat) :
    (∀ reply, read buf maxLines = .ok reply
      ↔ ∃ m : MultiLine, m.render <+: buf ∧ m.lineCount ≤ maxLines ∧ m.reply = reply)
    ∧ (∀ m m' : MultiLine, m.render <+: buf → m'.render <+: buf → m = m')
    ∧ ∀ (m : MultiLine) (rest : Bytes), m.lineCount ≤ maxLines →
      read (m.render ++ rest) maxLines = .ok m.reply := by
  refine ⟨?_, ?_, fun m rest h => read_render m rest h⟩
  · intro reply
    constructor
    · intro h
      obtain ⟨m, ⟨rest, hbuf⟩, hcount, -⟩ := spelled_of_readLoop h
      rw [List.drop_zero] at hbuf
      refine ⟨m, ⟨rest, hbuf⟩, hcount, ?_⟩
      have hread := read_render m rest hcount
      rw [hbuf, h] at hread
      exact (ReadResult.ok.inj hread).symm
    · rintro ⟨m, ⟨rest, rfl⟩, hcount, rfl⟩
      exact read_render m rest hcount
  · rintro m m' ⟨rest, rfl⟩ ⟨rest', h⟩
    exact (render_inj h).symm

/-! ### More bytes -/

theorem scanText_append {buf : Bytes} {i : Nat} (h : scanText buf i ≠ .incomplete)
    (rest : Bytes) : scanText (buf ++ rest) i = scanText buf i := by
  induction buf generalizing i with
  | nil => exact absurd rfl h
  | cons c buf ih =>
      rw [List.cons_append, scanText.eq_def, scanText.eq_def (c :: buf)]
      rw [scanText.eq_def] at h
      dsimp only at h ⊢
      by_cases hcr : c = cr
      · rw [if_pos hcr] at h ⊢
        rw [if_pos hcr]
        cases buf with
        | nil => exact absurd rfl h
        | cons next buf => rfl
      · rw [if_neg hcr] at h ⊢
        rw [if_neg hcr]
        split <;> rename_i hlf
        · rfl
        rw [if_neg hlf] at h
        split <;> rename_i htext
        · rw [if_pos htext] at h
          exact ih h
        · rfl

theorem parseLine_append {buf : Bytes} (h : parseLine buf ≠ .incomplete) (rest : Bytes) :
    parseLine (buf ++ rest) = parseLine buf := by
  obtain _ | ⟨d0, _ | ⟨d1, _ | ⟨d2, after⟩⟩⟩ := buf
  · exact absurd rfl h
  · exact absurd rfl h
  · exact absurd rfl h
  have hcode : parseCode (d0 :: d1 :: d2 :: after ++ rest) = parseCode (d0 :: d1 :: d2 :: after) :=
    rfl
  unfold parseLine at h ⊢
  rw [hcode]
  split
  · rfl
  · rfl
  rename_i code hparsed
  rw [hparsed] at h
  cases after with
  | nil => exact absurd rfl h
  | cons sep after =>
      have hsep : determineSeparator (d0 :: d1 :: d2 :: sep :: after ++ rest)
          = determineSeparator (d0 :: d1 :: d2 :: sep :: after) := rfl
      dsimp only at h
      rw [hsep]
      split
      · rfl
      · rfl
      rename_i isFinal start hstart
      rw [hstart] at h
      have hbound : start ≤ (d0 :: d1 :: d2 :: sep :: after).length := by
        rcases determineSeparator_ok hstart with rfl | ⟨rfl, -⟩ <;> simp
      have hscan : scanText ((d0 :: d1 :: d2 :: sep :: after).drop start) start ≠ .incomplete := by
        intro hstop
        simp only [scanTextAndCrlf, hstop, ne_eq, not_true_eq_false] at h
      simp only [scanTextAndCrlf]
      rw [List.drop_append_of_le_length hbound, scanText_append hscan]

theorem readLoop_append {buf : Bytes} {remaining offset lineCount firstCode : Nat}
    (hoffset : offset ≤ buf.length)
    (h : readLoop buf remaining offset lineCount firstCode ≠ .incomplete) (rest : Bytes) :
    readLoop (buf ++ rest) remaining offset lineCount firstCode
      = readLoop buf remaining offset lineCount firstCode := by
  induction remaining generalizing offset lineCount firstCode with
  | zero => rfl
  | succ remaining ih =>
      have hline : parseLine (buf.drop offset) ≠ .incomplete := by
        intro hstop
        rw [readLoop, hstop] at h
        exact h rfl
      rw [readLoop] at h
      rw [readLoop, readLoop, List.drop_append_of_le_length hoffset, parseLine_append hline]
      split
      · rfl
      · rfl
      rename_i line hparse
      rw [hparse] at h
      dsimp only at h ⊢
      split <;> rename_i hmatch
      · rfl
      rw [if_neg hmatch] at h
      split <;> rename_i hfinal
      · rfl
      rw [if_neg hfinal] at h
      obtain ⟨body, after, hbody, hconsumed, -⟩ := parseLine_body hparse
      have hlength := congrArg List.length hbody
      simp only [List.length_drop, List.length_append, List.length_cons] at hlength
      exact ih (by omega) h

/-- **A verdict stands.** Once the reader has made up its mind, bytes that arrive later do not
change it. -/
theorem read_append {buf : Bytes} {maxLines : Nat} (h : read buf maxLines ≠ .incomplete)
    (rest : Bytes) : read (buf ++ rest) maxLines = read buf maxLines :=
  readLoop_append (Nat.zero_le _) h rest

end Reply

end SmtpClient
