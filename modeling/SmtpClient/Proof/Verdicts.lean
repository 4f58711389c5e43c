import SmtpClient.Proof.ReplyGrammar

/-!
# When a reply line is incomplete

A buffer can still become a line when it is a proper prefix of one, and nothing can be made of it
when no bytes behind it complete a line. The parser's three verdicts are these cases, but for one:
it does not look at the digits of a code before it has all three, so that one or two bytes of which
no line can begin are taken for an unfinished line. A verdict other than "incomplete" stands
whatever bytes follow.
-/

namespace SmtpClient

namespace Reply

/-- `Reply-code "-" [text] CRLF / Reply-code [SP text] CRLF`. -/
inductive ValidLine : Bytes → Prop where
  | continuation (code : Code) (text : Text) : ValidLine (continuationLine code text)
  | final (code : Code) (final : Option Text) : ValidLine (finalLine code final)

/-- A proper prefix of a line. -/
def Completable (buf : Bytes) : Prop := ∃ line, ValidLine line ∧ buf <+: line ∧ buf ≠ line

/-- No continuation has a line at its front. -/
def Hopeless (buf : Bytes) : Prop := ∀ rest line, ValidLine line → ¬ line <+: buf ++ rest

theorem ValidLine.parseLine {line : Bytes} (h : ValidLine line) (rest : Bytes) :
    ∃ parsed, Reply.parseLine (line ++ rest) = .ok parsed ∧ parsed.consumed = line.length := by
  cases h with
  | continuation code text => exact ⟨_, parseLine_continuation code text rest, rfl⟩
  | final code final => exact ⟨_, parseLine_finalLine code final rest, rfl⟩

/-- What is accepted has a line at its front, of the length consumed. -/
theorem validLine_of_parseLine {buf : Bytes} {parsed : Line} (h : parseLine buf = .ok parsed) :
    ∃ line, ValidLine line ∧ line <+: buf ∧ parsed.consumed = line.length := by
  obtain ⟨code, rest, -, ⟨text, -, rfl⟩ | ⟨final, -, rfl⟩⟩ := spelled_of_parseLine h
  · rw [parseLine_continuation] at h
    obtain rfl := LineResult.ok.inj h
    exact ⟨_, .continuation code text, List.prefix_append _ _, rfl⟩
  · rw [parseLine_finalLine] at h
    obtain rfl := LineResult.ok.inj h
    exact ⟨_, .final code final, List.prefix_append _ _, rfl⟩

theorem incomplete_of_completable {buf : Bytes} (h : Completable buf) :
    parseLine buf = .incomplete := by
  obtain ⟨_, hvalid, ⟨rest, rfl⟩, hne⟩ := h
  by_contra hverdict
  -- The verdict would be that on the whole line, which is longer than what there is to consume.
  obtain ⟨parsed, hparsed, hconsumed⟩ := hvalid.parseLine []
  rw [List.append_nil, parseLine_append hverdict] at hparsed
  obtain ⟨front, -, hfront, hlen⟩ := validLine_of_parseLine hparsed
  have hle := hfront.length_le
  rw [← hlen, hconsumed, List.length_append] at hle
  have hrest : rest = [] := List.eq_nil_of_length_eq_zero (by omega)
  exact hne (by rw [hrest, List.append_nil])

theorem hopeless_of_fail {buf : Bytes} {err : LineErr} {offset : Nat}
    (h : parseLine buf = .fail err offset) : Hopeless buf := by
  intro rest line hvalid hfront
  obtain ⟨behind, hbuf⟩ := hfront
  obtain ⟨parsed, hparsed, -⟩ := hvalid.parseLine behind
  rw [hbuf, parseLine_append (by simp [h]), h] at hparsed
  exact absurd hparsed (by simp)

theorem Completable.not_hopeless {buf : Bytes} (h : Completable buf) : ¬Hopeless buf := by
  obtain ⟨_, hvalid, ⟨rest, rfl⟩, -⟩ := h
  intro hopeless
  exact hopeless rest _ hvalid (List.prefix_refl _)

/-! ### The five places an unfinished line can end at -/

theorem scanText_incomplete {buf : Bytes} {i : Nat} (h : scanText buf i = .incomplete) :
    ∃ text, (∀ c ∈ text, isTextChar c = true) ∧ (buf = text ∨ buf = text ++ [cr]) := by
  induction buf generalizing i with
  | nil => exact ⟨[], by simp, .inl rfl⟩
  | cons c buf ih =>
      rw [scanText.eq_def] at h
      dsimp only at h
      by_cases hcr : c = cr
      · rw [if_pos hcr] at h
        cases buf with
        | nil => exact ⟨[], by simp, .inr (by rw [hcr]; rfl)⟩
        | cons next buf =>
            dsimp only at h
            split at h <;> exact absurd h (by simp)
      rw [if_neg hcr] at h
      split at h
      · exact absurd h (by simp)
      split at h
      · rename_i htext
        obtain ⟨text, hall, hbuf⟩ := ih h
        refine ⟨c :: text, List.forall_mem_cons.mpr ⟨htext, hall⟩, ?_⟩
        rcases hbuf with rfl | rfl
        · exact .inl rfl
        · exact .inr rfl
      · exact absurd h (by simp)

/-- A code, alone or with a separator behind it and what the scan has seen of the text. -/
theorem unfinished_of_parseLine {buf : Bytes} (hlen : 3 ≤ buf.length)
    (h : parseLine buf = .incomplete) :
    ∃ code : Code, buf = code.digits ∨ buf = code.digits ++ [cr]
      ∨ ∃ (sep : UInt8) (text : Text), (sep = 45 ∨ sep = 32)
        ∧ (buf = code.digits ++ sep :: text.val ∨ buf = code.digits ++ sep :: (text.val ++ [cr])) := by
  unfold parseLine at h
  split at h
  · rename_i hcode
    obtain ⟨d0, d1, d2, rest, rfl⟩ : ∃ d0 d1 d2 rest, buf = d0 :: d1 :: d2 :: rest := by
      match buf, hlen with
      | d0 :: d1 :: d2 :: rest, _ => exact ⟨d0, d1, d2, rest, rfl⟩
    unfold parseCode at hcode
    dsimp only at hcode
    split at hcode
    · exact absurd hcode (by simp)
    split at hcode
    · exact absurd hcode (by simp)
    split at hcode <;> exact absurd hcode (by simp)
  · exact absurd h (by simp)
  rename_i value hcode
  obtain ⟨code, after, rfl, -⟩ := exists_code_of_parseCode hcode
  refine ⟨code, ?_⟩
  have hthree : (code.digits ++ after).drop 3 = after := rfl
  cases after with
  | nil => exact .inl (List.append_nil _)
  | cons sep after =>
      have hfour : (code.digits ++ sep :: after).drop 4 = after := rfl
      -- What the scan from the text's start leaves undecided.
      have hscan {start : Nat} {rest : Bytes}
          (hdrop : (code.digits ++ sep :: after).drop start = rest)
          (hstop : scanTextAndCrlf (code.digits ++ sep :: after) start = .incomplete) :
          scanText rest start = .incomplete := by
        unfold scanTextAndCrlf at hstop
        rw [hdrop] at hstop
        cases hresult : scanText rest start with
        | incomplete => rfl
        | ok i => simp [hresult] at hstop
        | fail err offset => simp [hresult] at hstop
      have htext {sep' : UInt8} (hsep' : sep' = 45 ∨ sep' = 32) (heq : sep = sep')
          (hstop : scanText after 4 = .incomplete) :
          ∃ (sep' : UInt8) (text : Text), (sep' = 45 ∨ sep' = 32)
            ∧ (code.digits ++ sep :: after = code.digits ++ sep' :: text.val
              ∨ code.digits ++ sep :: after = code.digits ++ sep' :: (text.val ++ [cr])) := by
        obtain ⟨text, hall, hafter⟩ := scanText_incomplete hstop
        refine ⟨sep', ⟨text, fun c hc => isTextChar_iff.mp (hall c hc)⟩, hsep', ?_⟩
        rw [heq]
        rcases hafter with rfl | rfl
        · exact .inl rfl
        · exact .inr rfl
      have hsep : determineSeparator (code.digits ++ sep :: after)
          = if sep = 45 then .ok (false, 4) else if sep = 32 then .ok (true, 4)
            else if sep = cr then .ok (true, 3) else .fail .separator 3 := rfl
      rw [hsep] at h
      by_cases hdash : sep = 45
      · simp only [if_pos hdash] at h
        refine .inr (.inr (htext (.inl rfl) hdash (hscan hfour ?_)))
        split at h
        · assumption
        · exact absurd h (by simp)
        · exact absurd h (by simp)
      by_cases hblank : sep = 32
      · simp only [if_neg hdash, if_pos hblank] at h
        refine .inr (.inr (htext (.inr rfl) hblank (hscan hfour ?_)))
        split at h
        · assumption
        · exact absurd h (by simp)
        · exact absurd h (by simp)
      by_cases hcr : sep = cr
      · simp only [if_neg hdash, if_neg hblank, if_pos hcr] at h
        have hstop : scanText (sep :: after) 3 = .incomplete := by
          refine hscan hthree ?_
          split at h
          · assumption
          · exact absurd h (by simp)
          · exact absurd h (by simp)
        -- The scan starts at the CR, and would decide if a byte followed.
        rw [scanText.eq_def] at hstop
        dsimp only at hstop
        rw [if_pos hcr] at hstop
        cases after with
        | nil => exact .inr (.inl (by rw [hcr]))
        | cons next after =>
            dsimp only at hstop
            split at hstop <;> exact absurd hstop (by simp)
      · simp only [if_neg hdash, if_neg hblank, if_neg hcr] at h
        exact absurd h (by simp)

theorem completable_of_append {buf rest line : Bytes} (hvalid : ValidLine line)
    (hline : buf ++ rest = line) (hne : rest ≠ []) : Completable buf := by
  refine ⟨line, hvalid, ⟨rest, hline⟩, ?_⟩
  rw [← hline]
  exact fun heq => hne (List.append_right_eq_self.mp heq.symm)

theorem completable_of_unfinished {buf : Bytes} (hlen : 3 ≤ buf.length)
    (h : parseLine buf = .incomplete) : Completable buf := by
  obtain ⟨code, rfl | rfl | ⟨sep, text, hsep, hbuf⟩⟩ := unfinished_of_parseLine hlen h
  · exact completable_of_append (.final code none) rfl (List.cons_ne_nil cr [lf])
  · refine completable_of_append (.final code none) ?_ (List.cons_ne_nil lf [])
    simp [finalLine]
  obtain ⟨line, hvalid, hline⟩ : ∃ line, ValidLine line
      ∧ line = code.digits ++ sep :: (text.val ++ [cr, lf]) := by
    rcases hsep with rfl | rfl
    · exact ⟨_, .continuation code text, rfl⟩
    · exact ⟨_, .final code (some text), rfl⟩
  rcases hbuf with rfl | rfl
  · exact completable_of_append hvalid (by simp [hline]) (List.cons_ne_nil cr [lf])
  · exact completable_of_append hvalid (by simp [hline]) (List.cons_ne_nil lf [])

/-! ### A code of which not all digits are there -/

/-- The digits that are present are in their ranges, as far as the first two go. -/
structure DigitsSoFar (buf : Bytes) : Prop where
  first : ∀ d, buf[0]? = some d → 50 ≤ d ∧ d ≤ 53
  second : ∀ d, buf[1]? = some d → 48 ≤ d ∧ d ≤ 53

theorem completable_of_digitsSoFar {buf : Bytes} (hlen : buf.length < 3) (h : DigitsSoFar buf) :
    Completable buf := by
  have hzero : (48 : UInt8) ≤ 48 ∧ (48 : UInt8) ≤ 53 := by decide
  have hlast : (48 : UInt8) ≤ 48 ∧ (48 : UInt8) ≤ 57 := by decide
  match buf, hlen with
  | [], _ =>
      exact completable_of_append (.final ⟨50, 48, 48, by decide, hzero, hlast⟩ none) rfl
        (List.cons_ne_nil _ _)
  | [d0], _ =>
      exact completable_of_append (.final ⟨d0, 48, 48, h.first d0 rfl, hzero, hlast⟩ none) rfl
        (List.cons_ne_nil _ _)
  | [d0, d1], _ =>
      exact completable_of_append (.final ⟨d0, d1, 48, h.first d0 rfl, h.second d1 rfl, hlast⟩ none)
        rfl (List.cons_ne_nil _ _)

theorem ValidLine.exists_code {line : Bytes} (h : ValidLine line) :
    ∃ (code : Code) (rest : Bytes), line = code.digits ++ rest := by
  cases h with
  | continuation code text => exact ⟨code, _, rfl⟩
  | final code final => cases final <;> exact ⟨code, _, rfl⟩

theorem Completable.digitsSoFar {buf : Bytes} (h : Completable buf) : DigitsSoFar buf := by
  obtain ⟨_, hvalid, hprefix, -⟩ := h
  obtain ⟨code, rest, rfl⟩ := hvalid.exists_code
  have hkept {i : Nat} {d : UInt8} (hd : buf[i]? = some d) : (code.digits ++ rest)[i]? = some d := by
    obtain ⟨hi, rfl⟩ := List.getElem?_eq_some_iff.mp hd
    exact List.prefix_iff_getElem?.mp hprefix i hi
  refine ⟨fun d hd => ?_, fun d hd => ?_⟩
  · obtain rfl : code.d0 = d := Option.some.inj (hkept hd)
    exact code.h0
  · obtain rfl : code.d1 = d := Option.some.inj (hkept hd)
    exact code.h1

/-- **When "incomplete" is the right verdict.** From the third byte on, and before it as long as the
digits there are in range, a buffer is called incomplete exactly if it can still become a line, and
malformed exactly if it cannot and has none at its front. -/
theorem incomplete_iff_completable (buf : Bytes) :
    ((parseLine buf = .incomplete ↔ Completable buf)
        ∧ ((∃ err offset, parseLine buf = .fail err offset) ↔ Hopeless buf))
      ↔ 3 ≤ buf.length ∨ DigitsSoFar buf := by
  constructor
  · rintro ⟨hincomplete, -⟩
    by_contra hnot
    obtain ⟨hshort, hdigits⟩ := not_or.mp hnot
    have hverdict : parseLine buf = .incomplete := by
      match buf, Nat.lt_of_not_le hshort with
      | [], _ => rfl
      | [_], _ => rfl
      | [_, _], _ => rfl
    exact hdigits (hincomplete.mp hverdict).digitsSoFar
  · intro hcondition
    have hcompletable (h : parseLine buf = .incomplete) : Completable buf := by
      rcases Nat.lt_or_ge buf.length 3 with hshort | hlen
      · exact completable_of_digitsSoFar hshort (hcondition.resolve_left (Nat.not_le_of_lt hshort))
      · exact completable_of_unfinished hlen h
    refine ⟨⟨hcompletable, incomplete_of_completable⟩, ?_, fun hopeless => ?_⟩
    · rintro ⟨err, offset, h⟩
      exact hopeless_of_fail h
    · cases h : parseLine buf with
      | ok parsed =>
          obtain ⟨line, hvalid, hfront, -⟩ := validLine_of_parseLine h
          exact absurd (hfront.trans (List.prefix_append buf [])) (hopeless [] line hvalid)
      | incomplete => exact absurd hopeless (hcompletable h).not_hopeless
      | fail err offset => exact ⟨err, offset, rfl⟩

/-- A single "9" is called incomplete. -/
theorem nine_incomplete :
    ¬((parseLine [57] = .incomplete ↔ Completable [57])
      ∧ ((∃ err offset, parseLine [57] = .fail err offset) ↔ Hopeless [57])) := by
  rintro ⟨hincomplete, -⟩
  have hdigit := (hincomplete.mp rfl).digitsSoFar.first 57 rfl
  exact absurd hdigit (by decide)

/-- **Verdicts stand.** A reply that is accepted or refused, and a line that is parsed or malformed,
stay so with the same particulars whatever bytes follow. -/
theorem verdict_append (p t : Bytes) (maxLines : Nat) :
    (read p maxLines ≠ .incomplete → read (p ++ t) maxLines = read p maxLines)
      ∧ (parseLine p ≠ .incomplete → parseLine (p ++ t) = parseLine p) :=
  ⟨fun h => read_append h t, fun h => parseLine_append h t⟩

end Reply

end SmtpClient
