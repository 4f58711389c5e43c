import SmtpClient.Proof.ReplyGrammar

/-!
# The lines an EHLO reply is read from

The capability parser goes over the buffer a second time, with offsets of its own. On a reply the
reader has accepted they are those of the lines the grammar has, so what is read is the text of each
line behind the first, and nothing else; on any other verdict the set is left alone.
-/

namespace SmtpClient

namespace Reply

namespace MultiLine

/-- The texts of all lines; a final line without a text has the empty one. -/
def texts (m : MultiLine) : List Bytes :=
  m.continuations.map Subtype.val ++ [(finalShape m.final).2]

end MultiLine

theorem lineText_of_drop {buf text : Bytes} (behind : Bytes) {offset : Nat} {line : Line}
    (htext : (buf.drop offset).drop line.textOffset = text ++ behind)
    (hlen : line.textLen = text.length) : lineText buf (offset, line) = text := by
  rw [lineText, htext, hlen, List.take_left]

theorem lineText_continuation {buf rest : Bytes} {offset : Nat} {line : Line} {code : Code}
    {text : Text} (hbuf : buf.drop offset = continuationLine code text ++ rest)
    (hparse : parseLine (buf.drop offset) = .ok line) :
    lineText buf (offset, line) = text.val ∧ line.isFinal = false
      ∧ line.consumed = (continuationLine code text).length := by
  rw [hbuf, parseLine_continuation] at hparse
  obtain rfl := LineResult.ok.inj hparse
  refine ⟨lineText_of_drop ([cr, lf] ++ rest) ?_ rfl, rfl, rfl⟩
  rw [hbuf]
  simp [continuationLine, Code.digits]

theorem lineText_final {buf rest : Bytes} {offset : Nat} {line : Line} {code : Code}
    {final : Option Text} (hbuf : buf.drop offset = finalLine code final ++ rest)
    (hparse : parseLine (buf.drop offset) = .ok line) :
    lineText buf (offset, line) = (finalShape final).2 ∧ line.isFinal = true := by
  rw [hbuf, parseLine_finalLine] at hparse
  obtain rfl := LineResult.ok.inj hparse
  refine ⟨lineText_of_drop ([cr, lf] ++ rest) ?_ rfl, rfl⟩
  rw [hbuf]
  cases final <;> simp [finalLine, finalShape, Code.digits]

/-- **The second walk keeps step** with the lines that are spelled. -/
theorem Lines.texts_eq {buf rest : Bytes} {offset : Nat} {lines : List (Nat × Line)}
    (h : Lines buf offset lines) {m : MultiLine} (hbuf : buf.drop offset = m.render ++ rest) :
    lines.map (lineText buf) = m.texts := by
  obtain ⟨code, continuations, final⟩ := m
  rw [MultiLine.render, List.append_assoc] at hbuf
  induction continuations generalizing offset lines with
  | nil =>
      rw [List.flatMap_nil, List.nil_append] at hbuf
      cases h with
      | final hparse => simp [MultiLine.texts, (lineText_final hbuf hparse).1]
      | more hparse hmore =>
          have hfinal := (lineText_final hbuf hparse).2
          exact absurd (hmore.symm.trans hfinal) (by decide)
  | cons text continuations ih =>
      rw [List.flatMap_cons, List.append_assoc] at hbuf
      cases h with
      | final hparse hfinal =>
          have hmore := (lineText_continuation hbuf hparse).2.1
          exact absurd (hmore.symm.trans hfinal) (by decide)
      | more hparse _ hrest =>
          obtain ⟨htext, -, hconsumed⟩ := lineText_continuation hbuf hparse
          rw [hconsumed] at hrest
          have htexts := ih hrest (drop_of_eq_append hbuf)
          rw [List.map_cons, htext, htexts]
          rfl

end Reply

namespace Cap

open Reply

/-- **EHLO parsing is all or nothing.** The second walk always ends, with the reader's verdict.
Unless that is OK the set is as it was; if it is, the set is read from the texts behind the first of
the one reply at the front of the buffer, starting from the empty set. -/
theorem parseEhloResponse_spec (caps : Capabilities) (buf : Bytes) (maxLines : Nat) :
    ∃ verdict caps', parseEhloResponse caps buf maxLines = some (verdict, caps')
      ∧ verdict = Reply.read buf maxLines
      ∧ ((∀ reply, verdict ≠ .ok reply) → caps' = caps)
      ∧ ∀ reply, verdict = .ok reply → ∃ m : MultiLine, m.render <+: buf
        ∧ m.lineCount ≤ maxLines ∧ m.reply = reply ∧ caps' = m.texts.tail.foldl parseLine init := by
  cases hread : Reply.read buf maxLines with
  | ok reply =>
      obtain ⟨lines, hlines, -, hparse⟩ := parseEhloResponse_eq hread caps
      obtain ⟨m, ⟨rest, hbuf⟩, hcount, -⟩ := spelled_of_readLoop hread
      rw [List.drop_zero] at hbuf
      have hreply : m.reply = reply := by
        have hrender := read_render m rest hcount
        rw [hbuf, hread] at hrender
        exact (ReadResult.ok.inj hrender).symm
      refine ⟨_, _, hparse, rfl, fun hnot => absurd rfl (hnot reply), ?_⟩
      intro reply' heq
      obtain rfl := ReadResult.ok.inj heq
      refine ⟨m, ⟨rest, hbuf⟩, hcount, hreply, ?_⟩
      have hdrop : buf.drop 0 = m.render ++ rest := by rw [List.drop_zero, hbuf]
      rw [hlines.texts_eq hdrop]
  | incomplete | errLine | errCodeMismatch | errTooManyLines =>
      refine ⟨_, caps, ?_, rfl, fun _ => rfl, by simp⟩
      simp only [parseEhloResponse, hread]

end Cap

end SmtpClient
