import SmtpClient.Capabilities

/-!
# The lines of an accepted reply

An accepted reply is a sequence of well-formed lines with one code, the last of them final. The
capability parser goes over the same lines again, so its assertion never fires, and what it leaves
is a fold over the texts of all lines but the first. These texts hold printable characters, blanks
and tabs only.
-/

namespace SmtpClient

namespace Reply

/-- The lines of a reply that starts at an offset: each with where it starts, the last one final and
no other. -/
inductive Lines (buf : Bytes) : Nat → List (Nat × Line) → Prop where
  | final {offset : Nat} {line : Line} (hparse : parseLine (buf.drop offset) = .ok line)
      (hfinal : line.isFinal = true) : Lines buf offset [(offset, line)]
  | more {offset : Nat} {line : Line} {rest : List (Nat × Line)}
      (hparse : parseLine (buf.drop offset) = .ok line) (hfinal : line.isFinal = false)
      (hrest : Lines buf (offset + line.consumed) rest) : Lines buf offset ((offset, line) :: rest)

/-- The text of the line at an offset. -/
def lineText (buf : Bytes) (line : Nat × Line) : Bytes :=
  ((buf.drop line.1).drop line.2.textOffset).take line.2.textLen

/-- A turn of the loop of a reader that accepts. -/
theorem readLoop_succ_ok {buf : Bytes} {remaining offset lineCount firstCode : Nat} {reply : Reply}
    (h : readLoop buf (remaining + 1) offset lineCount firstCode = .ok reply) :
    ∃ line, parseLine (buf.drop offset) = .ok line ∧ (lineCount ≠ 0 → line.code = firstCode)
      ∧ (line.isFinal = true ∧ reply = ⟨line.code, offset + line.consumed, lineCount + 1⟩
        ∨ line.isFinal = false
          ∧ readLoop buf remaining (offset + line.consumed) (lineCount + 1) line.code
            = .ok reply) := by
  rw [readLoop] at h
  split at h
  · cases h
  · cases h
  rename_i line hparse
  dsimp only at h
  by_cases hmatch : lineCount ≠ 0 ∧ line.code ≠ firstCode
  · rw [if_pos hmatch] at h
    cases h
  rw [if_neg hmatch] at h
  have hcode : lineCount ≠ 0 → line.code = firstCode := by simpa using hmatch
  have hfirst : (if lineCount = 0 then line.code else firstCode) = line.code := by
    by_cases hcount : lineCount = 0
    · rw [if_pos hcount]
    · rw [if_neg hcount, hcode hcount]
  rw [hfirst] at h
  refine ⟨line, hparse, hcode, ?_⟩
  cases hfinal : line.isFinal with
  | true =>
      rw [if_pos hfinal] at h
      exact .inl ⟨rfl, (ReadResult.ok.inj h).symm⟩
  | false =>
      rw [if_neg (by simp [hfinal])] at h
      exact .inr ⟨rfl, h⟩

theorem lines_of_readLoop {buf : Bytes} {remaining offset lineCount firstCode : Nat} {reply : Reply}
    (h : readLoop buf remaining offset lineCount firstCode = .ok reply) :
    ∃ lines, Lines buf offset lines ∧ reply.lineCount = lineCount + lines.length
      ∧ (∀ line ∈ lines, line.2.code = reply.code) ∧ (lineCount ≠ 0 → reply.code = firstCode) := by
  induction remaining generalizing offset lineCount firstCode with
  | zero => exact absurd h (by simp [readLoop])
  | succ remaining ih =>
      obtain ⟨line, hparse, hcode, ⟨hfinal, rfl⟩ | ⟨hmore, hrest⟩⟩ := readLoop_succ_ok h
      · exact ⟨_, .final hparse hfinal, by simp, by simp, hcode⟩
      · obtain ⟨lines, hlines, hcount, hall, hreply⟩ := ih hrest
        have hsame : reply.code = line.code := hreply (by omega)
        refine ⟨_, .more hparse hmore hlines, ?_, ?_, fun hne => hsame.trans (hcode hne)⟩
        · simp only [hcount, List.length_cons]
          omega
        · simpa [hsame] using hall

/-! ### The text of a line -/

theorem scanText_ok {buf : Bytes} {i j : Nat} (h : scanText buf i = .ok j) :
    ∃ text rest, buf = text ++ cr :: lf :: rest ∧ (∀ c ∈ text, isTextChar c = true)
      ∧ j = i + text.length := by
  induction buf generalizing i with
  | nil => exact absurd h (by simp [scanText])
  | cons c buf ih =>
      rw [scanText.eq_def] at h
      dsimp only at h
      by_cases hcr : c = cr
      · rw [if_pos hcr] at h
        split at h
        · exact absurd h (by simp)
        rename_i next rest
        split at h
        · rename_i hlf
          cases LineResult.ok.inj h
          exact ⟨[], rest, by simp [hcr, hlf], by simp, by simp⟩
        · exact absurd h (by simp)
      rw [if_neg hcr] at h
      split at h
      · exact absurd h (by simp)
      split at h
      · rename_i htext
        obtain ⟨text, rest, rfl, hall, hj⟩ := ih h
        exact ⟨c :: text, rest, rfl, by simpa [htext] using hall, by
          simp only [hj, List.length_cons]
          omega⟩
      · exact absurd h (by simp)

theorem parseLine_parts {buf : Bytes} {line : Line} (h : parseLine buf = .ok line) :
    parseCode buf = .ok line.code ∧ determineSeparator buf = .ok (line.isFinal, line.textOffset)
      ∧ scanTextAndCrlf buf line.textOffset = .ok (line.textLen, line.consumed) := by
  unfold parseLine at h
  split at h
  · cases h
  · cases h
  rename_i hcode
  split at h
  · cases h
  · cases h
  rename_i hsep
  split at h
  · cases h
  · cases h
  rename_i hscan
  cases h
  exact ⟨hcode, hsep, hscan⟩

theorem parseLine_ok {buf : Bytes} {line : Line} (h : parseLine buf = .ok line) :
    ∃ text rest, buf.drop line.textOffset = text ++ cr :: lf :: rest
      ∧ (∀ c ∈ text, isTextChar c = true) ∧ line.textLen = text.length
      ∧ line.consumed = line.textOffset + text.length + 2 := by
  obtain ⟨-, -, hscan⟩ := parseLine_parts h
  unfold scanTextAndCrlf at hscan
  split at hscan
  · rename_i i hi
    obtain ⟨text, rest, hbuf, hall, rfl⟩ := scanText_ok hi
    obtain ⟨hlen, hconsumed⟩ := Prod.mk.inj (LineResult.ok.inj hscan)
    exact ⟨text, rest, hbuf, hall, by omega, by omega⟩
  · cases hscan
  · cases hscan

theorem isTextChar_of_mem_lineText {buf : Bytes} {offset : Nat} {line : Line}
    (hparse : parseLine (buf.drop offset) = .ok line) {c : UInt8}
    (hc : c ∈ lineText buf (offset, line)) : isTextChar c = true := by
  obtain ⟨text, rest, hbuf, hall, hlen, -⟩ := parseLine_ok hparse
  refine hall c ?_
  rwa [lineText, hbuf, hlen, List.take_left] at hc

theorem Lines.isTextChar {buf : Bytes} {offset : Nat} {lines : List (Nat × Line)}
    (h : Lines buf offset lines) :
    ∀ line ∈ lines, ∀ c ∈ lineText buf line, Reply.isTextChar c = true := by
  induction h with
  | final hparse =>
      intro line hline c hc
      obtain rfl := List.mem_singleton.mp hline
      exact isTextChar_of_mem_lineText hparse hc
  | more hparse _ _ ih =>
      intro line hline c hc
      rcases List.mem_cons.mp hline with rfl | hline
      · exact isTextChar_of_mem_lineText hparse hc
      · exact ih line hline c hc

theorem ne_crLf_of_isTextChar {c : UInt8} (h : isTextChar c = true) : c ≠ 13 ∧ c ≠ 10 := by
  constructor <;> rintro rfl <;> exact absurd h (by decide)

theorem parseCode_ok {buf : Bytes} {code : Nat} (h : parseCode buf = .ok code) :
    ∃ digits rest, buf = digits ++ rest ∧ digits.length = 3 ∧ ∀ c ∈ digits, c ≠ 13 ∧ c ≠ 10 := by
  unfold parseCode at h
  split at h
  swap
  · exact absurd h (by simp)
  rename_i d0 d1 d2 rest
  split at h
  · exact absurd h (by simp)
  split at h
  · exact absurd h (by simp)
  split at h
  · exact absurd h (by simp)
  refine ⟨[d0, d1, d2], rest, rfl, rfl, ?_⟩
  intro c hc
  simp only [List.mem_cons, List.not_mem_nil, or_false] at hc
  constructor <;>
  · rintro rfl
    rcases hc with rfl | rfl | rfl <;> simp_all

theorem determineSeparator_ok {buf : Bytes} {isFinal : Bool} {start : Nat}
    (h : determineSeparator buf = .ok (isFinal, start)) :
    start = 3 ∨ start = 4 ∧ ∃ sep rest, buf.drop 3 = sep :: rest ∧ sep ≠ 13 ∧ sep ≠ 10 := by
  unfold determineSeparator at h
  split at h
  · exact absurd h (by simp)
  rename_i sep rest hdrop
  split at h
  · rename_i hdash
    cases LineResult.ok.inj h
    exact .inr ⟨rfl, sep, rest, hdrop, by rw [hdash]; decide⟩
  split at h
  · rename_i hblank
    cases LineResult.ok.inj h
    exact .inr ⟨rfl, sep, rest, hdrop, by rw [hblank]; decide⟩
  split at h
  · cases LineResult.ok.inj h
    exact .inl rfl
  · exact absurd h (by simp)

theorem take_textOffset {buf : Bytes} {line : Line} (h : parseLine buf = .ok line) :
    ∀ c ∈ buf.take line.textOffset, c ≠ 13 ∧ c ≠ 10 := by
  obtain ⟨hcode, hsep, -⟩ := parseLine_parts h
  obtain ⟨digits, rest, rfl, hlen, hdigits⟩ := parseCode_ok hcode
  have htake : (digits ++ rest).take 3 = digits := by rw [← hlen, List.take_left]
  have hdrop : (digits ++ rest).drop 3 = rest := by rw [← hlen, List.drop_left]
  rcases determineSeparator_ok hsep with hstart | ⟨hstart, sep, rest', hrest, hne⟩
  · intro c hc
    rw [hstart, htake] at hc
    exact hdigits c hc
  · rw [hdrop] at hrest
    subst hrest
    intro c hc
    have hfour : (digits ++ sep :: rest').take 4 = digits ++ [sep] := by
      rw [List.append_cons]
      exact List.take_left' (by simp [hlen])
    rw [hstart, hfour, List.mem_append, List.mem_singleton] at hc
    rcases hc with hc | rfl
    · exact hdigits c hc
    · exact hne

theorem parseLine_body {buf : Bytes} {line : Line} (h : parseLine buf = .ok line) :
    ∃ body rest, buf = body ++ cr :: lf :: rest ∧ line.consumed = body.length + 2
      ∧ ∀ c ∈ body, c ≠ 13 ∧ c ≠ 10 := by
  obtain ⟨text, rest, hbuf, htext, -, hconsumed⟩ := parseLine_ok h
  have hle : line.textOffset ≤ buf.length := by
    by_contra hlong
    rw [List.drop_of_length_le (by omega)] at hbuf
    exact absurd hbuf (by simp)
  refine ⟨buf.take line.textOffset ++ text, rest, ?_, ?_, ?_⟩
  · rw [List.append_assoc, ← hbuf, List.take_append_drop]
  · rw [hconsumed, List.length_append, List.length_take, Nat.min_eq_left hle]
  · intro c hc
    rcases List.mem_append.mp hc with hc | hc
    · exact take_textOffset h c hc
    · exact ne_crLf_of_isTextChar (htext c hc)

theorem readLoop_bounds {buf : Bytes} {remaining offset lineCount firstCode : Nat} {reply : Reply}
    (h : readLoop buf remaining offset lineCount firstCode = .ok reply) :
    offset + 2 ≤ reply.consumed ∧ reply.consumed ≤ buf.length ∧ lineCount < reply.lineCount := by
  induction remaining generalizing offset lineCount firstCode with
  | zero => exact absurd h (by simp [readLoop])
  | succ remaining ih =>
      obtain ⟨line, hparse, -, hrest⟩ := readLoop_succ_ok h
      obtain ⟨body, rest, hbuf, hconsumed, -⟩ := parseLine_body hparse
      have hlength := congrArg List.length hbuf
      simp only [List.length_drop, List.length_append, List.length_cons] at hlength
      rcases hrest with ⟨-, rfl⟩ | ⟨-, hrest⟩
      · simp only
        omega
      · obtain ⟨hend, hlast, hcount⟩ := ih hrest
        omega

/-- The first line of a text, without the bytes it ends with. -/
def firstLine (text : Bytes) : Bytes := text.takeWhile (· ≠ cr)

/-- The bytes of an accepted reply in front of its last CRLF: its only line, or its first line and
more. -/
theorem take_of_read {text : Bytes} {maxLines : Nat} {reply : Reply}
    (h : read text maxLines = .ok reply) :
    (∀ c ∈ firstLine text, c ≠ 13 ∧ c ≠ 10)
      ∧ (reply.lineCount = 1 → text.take (reply.consumed - 2) = firstLine text)
      ∧ (reply.lineCount ≠ 1 → (firstLine text ++ [cr]) <+: text.take (reply.consumed - 2)) := by
  unfold read at h
  cases maxLines with
  | zero => exact absurd h (by simp [readLoop])
  | succ remaining =>
      obtain ⟨line, hparse, -, hrest⟩ := readLoop_succ_ok h
      rw [List.drop_zero] at hparse
      obtain ⟨body, rest, hbuf, hconsumed, hbody⟩ := parseLine_body hparse
      have hfirst : firstLine text = body := by
        have hstop : ∀ c ∈ body, decide (c ≠ cr) = true := fun c hc =>
          decide_eq_true (hbody c hc).1
        rw [firstLine, hbuf, List.takeWhile_append_of_pos hstop]
        simp
      refine ⟨hfirst ▸ hbody, ?_⟩
      rcases hrest with ⟨-, rfl⟩ | ⟨-, hrest⟩
      · refine ⟨?_, fun hne => absurd rfl hne⟩
        intro _
        rw [hfirst, hconsumed, hbuf, Nat.zero_add, Nat.add_sub_cancel, List.take_left]
      · obtain ⟨hend, -, hcount⟩ := readLoop_bounds hrest
        refine ⟨fun hone => absurd hone (by omega), ?_⟩
        intro _
        have hmore : body.length + 1 ≤ reply.consumed - 2 := by omega
        have hstarts : (body ++ [cr]) <+: text := ⟨lf :: rest, by simp [hbuf]⟩
        rw [hfirst]
        exact List.prefix_take_iff.mpr ⟨hstarts, by simpa using hmore⟩

end Reply

namespace Cap

open Reply

theorem parseLines_of_lines {buf : Bytes} {offset : Nat} {lines : List (Nat × Line)}
    (h : Lines buf offset lines) {i : Nat} (hi : 0 < i) (caps : Capabilities) :
    parseLines buf lines.length i offset caps
      = some ((lines.map (lineText buf)).foldl parseLine caps) := by
  induction h generalizing i caps with
  | final hparse => simp [parseLines, hparse, hi, lineText]
  | more hparse _ _ ih =>
      simp only [List.length_cons, parseLines, hparse, if_pos hi, List.map_cons, List.foldl_cons]
      exact ih (Nat.succ_pos i) _

/-- **An accepted EHLO reply.** The set is built afresh from the lines behind the first. -/
theorem parseEhloResponse_eq {buf : Bytes} {maxLines : Nat} {reply : Reply}
    (h : Reply.read buf maxLines = .ok reply) (caps : Capabilities) :
    ∃ lines, Lines buf 0 lines ∧ (∀ line ∈ lines, line.2.code = reply.code)
      ∧ parseEhloResponse caps buf maxLines
        = some (.ok reply, (lines.map (lineText buf)).tail.foldl parseLine init) := by
  obtain ⟨lines, hlines, hcount, hcodes, -⟩ := lines_of_readLoop h
  refine ⟨lines, hlines, hcodes, ?_⟩
  have hparsed : parseLines buf lines.length 0 0 init
      = some ((lines.map (lineText buf)).tail.foldl parseLine init) := by
    cases hlines with
    | final hparse =>
        simp only [List.length_singleton, parseLines, hparse, Nat.lt_irrefl, if_false, List.map_cons,
          List.map_nil, List.tail_cons, List.foldl_nil]
    | more hparse _ hrest =>
        simp only [List.length_cons, parseLines, hparse, Nat.lt_irrefl, if_false, List.map_cons,
          List.tail_cons]
        exact parseLines_of_lines hrest Nat.one_pos _
  unfold parseEhloResponse
  simp only [h]
  rw [show reply.lineCount = lines.length by omega, hparsed]
  rfl

theorem parseEhloResponse_ne_none (caps : Capabilities) (buf : Bytes) (maxLines : Nat) :
    parseEhloResponse caps buf maxLines ≠ none := by
  cases h : Reply.read buf maxLines with
  | ok reply =>
      obtain ⟨lines, -, -, heq⟩ := parseEhloResponse_eq h caps
      simp [heq]
  | _ => simp [parseEhloResponse, h]

end Cap

end SmtpClient
