import SmtpClient.Base.Crlf
import SmtpClient.HeaderValue
import SmtpClient.Proof.EncodedWord
import Mathlib.Data.List.TakeWhile

/-!
# The header values the validator accepts

The loop takes folds as pairs and encoded words as wholes, whose bytes it does not look at. What it
lets through is text all the same: a word is skipped only when the word validator has accepted it,
and such a word is printable.
-/

namespace SmtpClient

namespace HeaderValue

open HeaderEncoding (equals question assembled validateEncodedWord EncodedWord)

/-! ### Folded values -/

def IsText (c : UInt8) : Prop := c = 9 ∨ 32 ≤ c ∧ c ≤ 126

/-- What may follow a CRLF pair: nothing, or a space or a tab. -/
def Continues (back : Bytes) : Prop := back = [] ∨ ∃ c more, back = c :: more ∧ (c = 32 ∨ c = 9)

/-- `"=?" run "?" byte "?" run "?="`, the runs free of `?` and CR. -/
def Candidate (w : Bytes) : Prop :=
  ∃ first e second, w = assembled first e second ∧ (∀ c ∈ first, c ≠ question ∧ c ≠ cr)
    ∧ ∀ c ∈ second, c ≠ question ∧ c ≠ cr

/-- The candidates a scan from the left meets that goes on behind each of them. -/
inductive Candidates : Bytes → List Bytes → Prop where
  | nil : Candidates [] []
  | word {w rest : Bytes} {words : List Bytes} (hw : Candidate w) (h : Candidates rest words) :
      Candidates (w ++ rest) (w :: words)
  | skip {c : UInt8} {rest : Bytes} {words : List Bytes}
      (hnone : ∀ w more, c :: rest = w ++ more → ¬Candidate w) (h : Candidates rest words) :
      Candidates (c :: rest) words

def WordsAccepted (value : Bytes) : Prop :=
  ∃ words, Candidates value words ∧ ∀ w ∈ words, validateEncodedWord w = .ok ()

def LinesShort (value : Bytes) : Prop := ∀ l ∈ splitCrlf value, l.length ≤ 998

structure Folded (value : Bytes) : Prop where
  byte : ∀ front c back, value = front ++ c :: back → IsText c
    ∨ c = cr ∧ (∃ more, back = lf :: more) ∨ c = lf ∧ ∃ before, front = before ++ [cr]
  fold : ∀ front back, value = front ++ cr :: lf :: back → Continues back
  line : LinesShort value
  word : WordsAccepted value

/-- The first two conditions, by recursion. -/
inductive FoldedText : Bytes → Prop where
  | nil : FoldedText []
  | text {c : UInt8} {rest : Bytes} (hc : IsText c) (h : FoldedText rest) : FoldedText (c :: rest)
  | fold {rest : Bytes} (hrest : Continues rest) (h : FoldedText rest) :
      FoldedText (cr :: lf :: rest)

theorem IsText.ne {c : UInt8} (h : IsText c) : c ≠ cr ∧ c ≠ lf := by
  constructor <;> rintro rfl <;> revert h <;> unfold IsText <;> decide

theorem foldedText_fold {rest : Bytes} :
    FoldedText (cr :: lf :: rest) ↔ Continues rest ∧ FoldedText rest := by
  constructor
  · intro h
    cases h with
    | text hc => exact absurd rfl hc.ne.1
    | fold hrest h => exact ⟨hrest, h⟩
  · exact fun h => .fold h.1 h.2

theorem foldedText_text {c : UInt8} {rest : Bytes} (hc : IsText c) :
    FoldedText (c :: rest) ↔ FoldedText rest := by
  constructor
  · intro h
    cases h with
    | text _ h => exact h
    | fold => exact absurd rfl hc.ne.1
  · exact .text hc

theorem foldedText_append {text : Bytes} (htext : ∀ c ∈ text, IsText c) (rest : Bytes) :
    FoldedText (text ++ rest) ↔ FoldedText rest := by
  induction text with
  | nil => rfl
  | cons c text ih =>
      obtain ⟨hc, htext⟩ := List.forall_mem_cons.mp htext
      rw [List.cons_append, foldedText_text hc, ih htext]

theorem FoldedText.paired {value : Bytes} (h : FoldedText value) : Paired value := by
  induction h with
  | nil => exact .nil
  | text hc _ ih => exact .plain hc.ne.1 hc.ne.2 ih
  | fold _ _ ih => exact .crlf ih

theorem FoldedText.byte {value : Bytes} (h : FoldedText value) :
    ∀ c ∈ value, IsText c ∨ c = cr ∨ c = lf := by
  induction h with
  | nil => simp
  | text hc _ ih => exact List.forall_mem_cons.mpr ⟨.inl hc, ih⟩
  | fold _ _ ih =>
      refine List.forall_mem_cons.mpr ⟨.inr (.inl rfl), ?_⟩
      exact List.forall_mem_cons.mpr ⟨.inr (.inr rfl), ih⟩

theorem FoldedText.continues {value : Bytes} (h : FoldedText value) :
    ∀ front back, value = front ++ cr :: lf :: back → Continues back := by
  induction h with
  | nil => simp
  | text hc _ ih =>
      intro front back heq
      cases front with
      | nil => exact absurd (List.cons.inj heq).1 hc.ne.1
      | cons _ front => exact ih front back (List.cons.inj heq).2
  | @fold rest hrest _ ih =>
      intro front back heq
      match front with
      | [] =>
          obtain rfl : rest = back := (List.cons.inj (List.cons.inj heq).2).2
          exact hrest
      | [_] => exact absurd (List.cons.inj (List.cons.inj heq).2).1 (by decide)
      | _ :: _ :: front => exact ih front back (List.cons.inj (List.cons.inj heq).2).2

theorem foldedText_of_paired {value : Bytes} (h : Paired value)
    (hbyte : ∀ c ∈ value, IsText c ∨ c = cr ∨ c = lf)
    (hfold : ∀ front back, value = front ++ cr :: lf :: back → Continues back) :
    FoldedText value := by
  induction h with
  | nil => exact .nil
  | @crlf rest _ ih =>
      refine .fold (hfold [] rest rfl) (ih ?_ ?_)
      · exact fun c hc => hbyte c (List.mem_cons_of_mem _ (List.mem_cons_of_mem _ hc))
      · exact fun front back heq => hfold (cr :: lf :: front) back (by rw [heq]; rfl)
  | @plain c rest hcr hlf _ ih =>
      have hc : IsText c := (hbyte c List.mem_cons_self).resolve_right (not_or.mpr ⟨hcr, hlf⟩)
      refine .text hc (ih ?_ ?_)
      · exact fun d hd => hbyte d (List.mem_cons_of_mem c hd)
      · exact fun front back heq => hfold (c :: front) back (by rw [heq]; rfl)

theorem foldedText_iff {value : Bytes} :
    FoldedText value
      ↔ (∀ front c back, value = front ++ c :: back → IsText c
          ∨ c = cr ∧ (∃ more, back = lf :: more) ∨ c = lf ∧ ∃ before, front = before ++ [cr])
        ∧ ∀ front back, value = front ++ cr :: lf :: back → Continues back := by
  constructor
  · intro h
    refine ⟨?_, h.continues⟩
    intro front c back heq
    rcases h.byte c (by simp [heq]) with hc | rfl | rfl
    · exact .inl hc
    · exact .inr (.inl ⟨rfl, h.paired.behind_cr front back heq⟩)
    · exact .inr (.inr ⟨rfl, h.paired.before_lf front back heq⟩)
  · rintro ⟨hbyte, hfold⟩
    refine foldedText_of_paired (paired_iff.mpr ⟨?_, ?_⟩) ?_ hfold
    · intro front back heq
      rcases hbyte front cr back heq with hc | ⟨-, h⟩ | ⟨hne, -⟩
      · exact absurd rfl hc.ne.1
      · exact h
      · exact absurd hne (by decide)
    · intro front back heq
      rcases hbyte front lf back heq with hc | ⟨hne, -⟩ | ⟨-, h⟩
      · exact absurd rfl hc.ne.2
      · exact absurd hne (by decide)
      · exact h
    · intro c hc
      obtain ⟨front, back, heq⟩ := List.append_of_mem hc
      exact (hbyte front c back heq).imp_right (Or.imp And.left And.left)

/-! ### Candidates -/

/-- A run free of `?` ends at the first one. -/
theorem run_inj {run run' rest rest' : Bytes} (hrun : ∀ c ∈ run, c ≠ question ∧ c ≠ cr)
    (hrun' : ∀ c ∈ run', c ≠ question ∧ c ≠ cr)
    (heq : run ++ question :: rest = run' ++ question :: rest') : run = run' ∧ rest = rest' := by
  induction run generalizing run' with
  | nil =>
      cases run' with
      | nil => exact ⟨rfl, (List.cons.inj heq).2⟩
      | cons c run' => exact absurd (List.cons.inj heq).1.symm (hrun' c List.mem_cons_self).1
  | cons c run ih =>
      cases run' with
      | nil => exact absurd (List.cons.inj heq).1 (hrun c List.mem_cons_self).1
      | cons d run' =>
          obtain ⟨rfl, hmore⟩ := List.cons.inj heq
          obtain ⟨rfl, hrest⟩ := ih (List.forall_mem_cons.mp hrun).2
            (List.forall_mem_cons.mp hrun').2 hmore
          exact ⟨rfl, hrest⟩

theorem assembled_append (first : Bytes) (e : UInt8) (second rest : Bytes) :
    assembled first e second ++ rest
      = equals :: question :: (first ++ question :: e :: question :: (second
        ++ question :: equals :: rest)) := by
  simp [assembled]

theorem candidate_inj {w w' rest rest' : Bytes} (hw : Candidate w) (hw' : Candidate w')
    (heq : w ++ rest = w' ++ rest') : w = w' ∧ rest = rest' := by
  obtain ⟨first, e, second, rfl, hfirst, hsecond⟩ := hw
  obtain ⟨first', e', second', rfl, hfirst', hsecond'⟩ := hw'
  rw [assembled_append, assembled_append] at heq
  obtain ⟨rfl, hbehind⟩ := run_inj hfirst hfirst' (List.cons.inj (List.cons.inj heq).2).2
  obtain ⟨rfl, hmore⟩ := List.cons.inj hbehind
  obtain ⟨rfl, hrest⟩ := run_inj hsecond hsecond' (List.cons.inj hmore).2
  exact ⟨rfl, (List.cons.inj hrest).2⟩

theorem candidates_word {w rest : Bytes} {words : List Bytes} (hw : Candidate w) :
    Candidates (w ++ rest) words ↔ ∃ more, words = w :: more ∧ Candidates rest more := by
  constructor
  · intro h
    generalize hvalue : w ++ rest = value at h
    cases h with
    | nil =>
        obtain ⟨first, e, second, rfl, -⟩ := hw
        cases hvalue
    | @word w' rest' more hw' h =>
        obtain ⟨rfl, rfl⟩ := candidate_inj hw hw' hvalue
        exact ⟨more, rfl, h⟩
    | skip hnone => exact absurd hw (hnone w rest hvalue.symm)
  · rintro ⟨more, rfl, h⟩
    exact .word hw h

theorem candidates_skip {c : UInt8} {rest : Bytes} {words : List Bytes}
    (hnone : ∀ w more, c :: rest = w ++ more → ¬Candidate w) :
    Candidates (c :: rest) words ↔ Candidates rest words := by
  constructor
  · intro h
    generalize hvalue : c :: rest = value at h
    cases h with
    | nil => cases hvalue
    | word hw => exact absurd hw (hnone _ _ hvalue)
    | skip _ h =>
        obtain ⟨-, rfl⟩ := List.cons.inj hvalue
        exact h
  · exact .skip hnone

theorem wordsAccepted_word {w rest : Bytes} (hw : Candidate w) :
    WordsAccepted (w ++ rest) ↔ validateEncodedWord w = .ok () ∧ WordsAccepted rest := by
  simp only [WordsAccepted, candidates_word hw]
  constructor
  · rintro ⟨words, ⟨more, rfl, h⟩, haccepted⟩
    obtain ⟨hfirst, hmore⟩ := List.forall_mem_cons.mp haccepted
    exact ⟨hfirst, more, h, hmore⟩
  · rintro ⟨hfirst, more, h, hmore⟩
    exact ⟨w :: more, ⟨more, rfl, h⟩, List.forall_mem_cons.mpr ⟨hfirst, hmore⟩⟩

theorem wordsAccepted_skip {c : UInt8} {rest : Bytes}
    (hnone : ∀ w more, c :: rest = w ++ more → ¬Candidate w) :
    WordsAccepted (c :: rest) ↔ WordsAccepted rest := by
  simp only [WordsAccepted, candidates_skip hnone]

theorem not_candidate {c : UInt8} {rest : Bytes} (h : c ≠ equals) :
    ∀ w more, c :: rest = w ++ more → ¬Candidate w := by
  rintro w more heq ⟨first, e, second, rfl, -⟩
  exact h (List.cons.inj heq).1

/-! ### The locator -/

theorem scanRun_eq {front run rest : Bytes} {start : Nat} {c : UInt8}
    (hstart : start = front.length) (hrun : ∀ c ∈ run, c ≠ question ∧ c ≠ cr)
    (hc : c = question ∨ c = cr) :
    scanRun (front ++ (run ++ c :: rest)) start = start + run.length := by
  subst hstart
  have hstop : (c != question && c != cr) = false := by
    rcases hc with rfl | rfl <;> decide
  rw [scanRun, List.drop_left, List.takeWhile_append_of_pos, List.takeWhile_cons_of_neg,
    List.append_nil]
  · rw [hstop]
    exact Bool.false_ne_true
  · intro d hd
    obtain ⟨hquestion, hcr⟩ := hrun d hd
    simp [hquestion, hcr]

/-- What stands where a run that ends at a `?` ends. -/
theorem run_of_scan {front rest : Bytes} {start : Nat} (hstart : start = front.length)
    (h : (front ++ rest)[scanRun (front ++ rest) start]? = some question) :
    ∃ run more, rest = run ++ question :: more ∧ (∀ c ∈ run, c ≠ question ∧ c ≠ cr)
      ∧ scanRun (front ++ rest) start = start + run.length := by
  subst hstart
  have hrest : rest.takeWhile (fun c => c != question && c != cr)
      ++ rest.dropWhile (fun c => c != question && c != cr) = rest :=
    List.takeWhile_append_dropWhile
  have hscan : scanRun (front ++ rest) front.length
      = front.length + (rest.takeWhile fun c => c != question && c != cr).length := by
    rw [scanRun, List.drop_left]
  have hrun : ∀ c ∈ rest.takeWhile (fun c => c != question && c != cr), c ≠ question ∧ c ≠ cr := by
    intro c hc
    have hpos := List.mem_takeWhile_imp hc
    simpa using hpos
  generalize rest.takeWhile (fun c => c != question && c != cr) = run at hrest hscan hrun
  generalize rest.dropWhile (fun c => c != question && c != cr) = after at hrest
  subst hrest
  rw [hscan, ← List.append_assoc] at h
  rw [@getElem?_behind (front ++ run) _ _ 0 (by simp)] at h
  cases after with
  | nil => cases h
  | cons c more =>
      obtain rfl : c = question := Option.some.inj h
      exact ⟨run, more, rfl, hrun, hscan⟩

theorem candidate_of_locate {front rest : Bytes} {stop : Nat}
    (h : locateEncodedWordCandidate (front ++ equals :: question :: rest) front.length
      = some stop) :
    ∃ w more, equals :: question :: rest = w ++ more ∧ Candidate w
      ∧ stop = front.length + w.length := by
  have hvalue : front ++ equals :: question :: rest = front ++ [equals, question] ++ rest := by simp
  simp only [locateEncodedWordCandidate, hvalue] at h
  split at h
  · cases h
  rename_i hcharset
  obtain ⟨first, after, rfl, hfirst, hscan⟩ := run_of_scan (by simp) (not_not.mp hcharset)
  rw [hscan] at h
  split at h
  · cases h
  rename_i hdelim
  have hafter : front ++ [equals, question] ++ (first ++ question :: after)
      = front ++ [equals, question] ++ (first ++ [question]) ++ after := by simp
  rw [not_not, hafter, getElem?_behind 1 (by simp; omega)] at hdelim
  obtain ⟨e, behind, rfl⟩ : ∃ e behind, after = e :: question :: behind := by
    obtain _ | ⟨e, _ | ⟨d, behind⟩⟩ := after
    · cases hdelim
    · cases hdelim
    · obtain rfl : d = question := Option.some.inj hdelim
      exact ⟨e, behind, rfl⟩
  have hbehind : front ++ [equals, question] ++ (first ++ question :: e :: question :: behind)
      = front ++ equals :: question :: (first ++ [question, e, question]) ++ behind := by simp
  rw [hbehind] at h
  split at h
  · cases h
  rename_i htext
  obtain ⟨hquestion, hequals⟩ := not_or.mp htext
  obtain ⟨second, last, rfl, hsecond, hscan'⟩ :=
    run_of_scan (by simp; omega) (not_not.mp hquestion)
  have hlast : front ++ equals :: question :: (first ++ [question, e, question])
        ++ (second ++ question :: last)
      = front ++ equals :: question :: (first ++ [question, e, question]) ++ (second ++ [question])
        ++ last := by simp
  rw [not_not, hscan', hlast, getElem?_behind 0 (by simp; omega)] at hequals
  rw [hscan'] at h
  obtain ⟨more, rfl⟩ : ∃ more, last = equals :: more := by
    cases last with
    | nil => cases hequals
    | cons d more =>
        obtain rfl : d = equals := Option.some.inj hequals
        exact ⟨more, rfl⟩
  refine ⟨assembled first e second, more, ?_, ⟨first, e, second, rfl, hfirst, hsecond⟩, ?_⟩
  · rw [assembled_append]
  · rw [← Option.some.inj h, HeaderEncoding.length_assembled]
    omega

theorem locate_candidate {front first second more : Bytes} {e : UInt8}
    (hfirst : ∀ c ∈ first, c ≠ question ∧ c ≠ cr) (hsecond : ∀ c ∈ second, c ≠ question ∧ c ≠ cr) :
    locateEncodedWordCandidate (front ++ equals :: question :: (first ++ question :: e :: question
        :: (second ++ question :: equals :: more))) front.length
      = some (front.length + 2 + first.length + 3 + second.length + 2) := by
  have hscan : scanRun (front ++ equals :: question :: (first ++ question :: e :: question
        :: (second ++ question :: equals :: more))) (front.length + 2)
      = front.length + 2 + first.length := by
    have hvalue (after : Bytes) : front ++ equals :: question :: after
        = front ++ [equals, question] ++ after := by simp
    rw [hvalue]
    exact scanRun_eq (by simp) hfirst (.inl rfl)
  have hcharset (k : Nat) : (front ++ equals :: question :: (first ++ question :: e :: question
        :: (second ++ question :: equals :: more)))[front.length + 2 + first.length + k]?
      = (question :: e :: question :: (second ++ question :: equals :: more))[k]? := by
    have hvalue (after : Bytes) : front ++ equals :: question :: (first ++ after)
        = front ++ equals :: question :: first ++ after := by simp
    rw [hvalue]
    exact getElem?_behind k (by simp; omega)
  have hscan' : scanRun (front ++ equals :: question :: (first ++ question :: e :: question
        :: (second ++ question :: equals :: more))) (front.length + 2 + first.length + 3)
      = front.length + 2 + first.length + 3 + second.length := by
    have hvalue (after : Bytes) :
        front ++ equals :: question :: (first ++ question :: e :: question :: after)
          = front ++ equals :: question :: (first ++ [question, e, question]) ++ after := by simp
    rw [hvalue]
    exact scanRun_eq (by simp; omega) hsecond (.inl rfl)
  have htext (k : Nat) : (front ++ equals :: question :: (first ++ question :: e :: question
        :: (second ++ question :: equals :: more)))[
          front.length + 2 + first.length + 3 + second.length + k]?
      = (question :: equals :: more)[k]? := by
    have hvalue (after : Bytes) :
        front ++ equals :: question :: (first ++ question :: e :: question :: (second ++ after))
          = front ++ equals :: question :: (first ++ question :: e :: question :: second)
            ++ after := by simp
    rw [hvalue]
    exact getElem?_behind k (by simp; omega)
  generalize front ++ equals :: question :: (first ++ question :: e :: question
    :: (second ++ question :: equals :: more)) = value at *
  have hquestion : value[front.length + 2 + first.length]? = some question := hcharset 0
  have hdelim : value[front.length + 2 + first.length + 1 + 1]? = some question := hcharset 2
  have hend : value[front.length + 2 + first.length + 3 + second.length]? = some question := htext 0
  have hequals : value[front.length + 2 + first.length + 3 + second.length + 1]? = some equals :=
    htext 1
  simp only [locateEncodedWordCandidate, hscan, hscan', hquestion, hdelim, hend, hequals, ne_eq,
    not_true_eq_false, or_self, if_false]

/-- **The locator** finds the candidate that starts where it looks, if there is one. -/
theorem locate_eq_some {front rest : Bytes} {stop : Nat} :
    locateEncodedWordCandidate (front ++ equals :: question :: rest) front.length = some stop
      ↔ ∃ w more, equals :: question :: rest = w ++ more ∧ Candidate w
        ∧ stop = front.length + w.length := by
  refine ⟨candidate_of_locate, ?_⟩
  rintro ⟨w, more, heq, ⟨first, e, second, rfl, hfirst, hsecond⟩, rfl⟩
  rw [heq, assembled_append, HeaderEncoding.length_assembled, locate_candidate hfirst hsecond]
  congr 1
  omega

/-! ### Words are text -/

theorem printable_of_qText {text : Bytes} (h : HeaderEncoding.QText text) :
    ∀ c ∈ text, IsText c := by
  have hhex : ∀ c ∈ bytes "0123456789ABCDEFabcdef", IsText c := by
    unfold IsText
    decide +kernel
  induction h with
  | nil => simp
  | escape hfirst hsecond _ ih =>
      simp only [List.forall_mem_cons]
      exact ⟨.inr (by decide), hhex _ hfirst, hhex _ hsecond, ih⟩
  | plain hc _ _ _ ih =>
      refine List.forall_mem_cons.mpr ⟨.inr ⟨?_, hc.2⟩, ih⟩
      exact UInt8.le_trans (by decide) hc.1

theorem printable_of_base64 {text : Bytes} (h : Base64.WellFormed text) : ∀ c ∈ text, IsText c := by
  have halphabet : ∀ c ∈ Base64.alphabet, IsText c := by
    unfold IsText
    decide +kernel
  obtain ⟨body, pads, rfl, hbody, -⟩ := h
  intro c hc
  rcases List.mem_append.mp hc with hc | hc
  · exact halphabet c (hbody c hc)
  · rw [List.eq_of_mem_replicate hc]
    exact .inr (by decide)

/-- The bytes of an accepted word, which the loop skips. -/
theorem text_of_validateEncodedWord {word : Bytes} (h : validateEncodedWord word = .ok ()) :
    ∀ c ∈ word, IsText c := by
  obtain ⟨charset, e, text, hword⟩ := (HeaderEncoding.validateEncodedWord_iff word).mp h
  have htext : IsText e ∧ ∀ c ∈ text, IsText c := by
    rcases hword.encoded with ⟨he, hq⟩ | ⟨he, hb⟩
    · exact ⟨by rcases he with rfl | rfl <;> exact .inr (by decide), printable_of_qText hq⟩
    · exact ⟨by rcases he with rfl | rfl <;> exact .inr (by decide), printable_of_base64 hb⟩
  have hcharset : ∀ c ∈ charset, IsText c := by
    intro c hc
    have hrange := (hword.token c hc).1
    exact .inr ⟨UInt8.le_trans (by decide) hrange.1, hrange.2⟩
  have hquestion : IsText question := .inr (by decide)
  have hequals : IsText equals := .inr (by decide)
  rw [hword.parts]
  simp only [assembled, List.forall_mem_cons, List.forall_mem_append]
  exact ⟨hequals, hquestion, hcharset, hquestion, htext.1, hquestion, htext.2, hquestion, hequals,
    by simp⟩

/-! ### The loop -/

theorem validateLoop_end {value : Bytes} {s : Cursor} (h : value.length ≤ s.i) :
    validateLoop value s = .ok () := by
  rw [validateLoop, dif_neg (Nat.not_lt.mpr h)]

theorem validateLoop_step {value : Bytes} {s : Cursor} {c : UInt8} (h : value[s.i]? = some c) :
    validateLoop value s = (step value c s).bind (validateLoop value) := by
  obtain ⟨hlt, rfl⟩ := List.getElem?_eq_some_iff.mp h
  rw [validateLoop, dif_pos hlt]
  split <;> rename_i hstep <;> rw [hstep] <;> rfl

theorem isDisallowedControl_iff {c : UInt8} (hcr : c ≠ cr) (hlf : c ≠ lf) :
    isDisallowedControl c = false ↔ IsText c := by
  have hwsp (h : c = 32) : 32 ≤ c ∧ c ≤ 126 := by
    rw [h]
    decide
  have hvchar : 33 ≤ c ∧ c ≤ 126 ∨ c = 32 ↔ 32 ≤ c ∧ c ≤ 126 := by
    rw [← UInt8.toNat_inj]
    simp only [UInt8.le_iff_toNat_le]
    change (33 ≤ c.toNat ∧ c.toNat ≤ 126) ∨ c.toNat = 32 ↔ 32 ≤ c.toNat ∧ c.toNat ≤ 126
    omega
  rw [isDisallowedControl, if_neg (not_or.mpr ⟨hcr, hlf⟩)]
  simp only [IsText, isVchar, isWsp, Bool.and_eq_false_iff, Bool.not_eq_false', Bool.and_eq_true,
    Bool.or_eq_true, decide_eq_true_eq, beq_iff_eq, ← hvchar]
  tauto

/-- What is left of a value behind the bytes `line` of its current line. -/
def Accepts (line rest : Bytes) : Prop :=
  FoldedText rest ∧ LinesShort (line ++ rest) ∧ WordsAccepted rest

theorem not_linesShort {line : Bytes} (hline : cr ∉ line) (hlong : 998 < line.length)
    (rest : Bytes) : ¬LinesShort (line ++ rest) := by
  intro hshort
  obtain ⟨more, hmem⟩ := exists_mem_splitCrlf hline rest
  have hle := hshort (line ++ more) hmem
  rw [List.length_append] at hle
  omega

theorem loop_piece {value line piece rest : Bytes} {i : Nat} (hline : cr ∉ line)
    (hpiece : ∀ c ∈ piece, IsText c)
    (ih : (line ++ piece).length ≤ 998 → cr ∉ line ++ piece →
      (validateLoop value ⟨i + piece.length, (line ++ piece).length⟩ = .ok ()
        ↔ Accepts (line ++ piece) rest)) :
    (Cursor.mk (i + piece.length) (line.length + piece.length)).checked.bind (validateLoop value)
        = .ok ()
      ↔ FoldedText (piece ++ rest) ∧ LinesShort (line ++ (piece ++ rest)) ∧ WordsAccepted rest := by
  have hfree : cr ∉ line ++ piece := by
    rw [List.mem_append, not_or]
    exact ⟨hline, fun hmem => (hpiece cr hmem).ne.1 rfl⟩
  rw [foldedText_append hpiece, ← List.append_assoc]
  by_cases hlen : (line ++ piece).length ≤ 998
  · have hnext := ih hlen hfree
    rw [List.length_append] at hlen hnext
    rw [checked_eq_ok.mpr ⟨hlen, rfl⟩]
    exact hnext
  · have hlong : ¬LinesShort (line ++ piece ++ rest) := not_linesShort hfree (by omega) rest
    rw [List.length_append] at hlen
    rw [Cursor.checked, if_pos (show maxLineLen < _ from Nat.lt_of_not_le hlen)]
    exact ⟨nofun, fun h => absurd h.2.1 hlong⟩

theorem wordsAccepted_crlf {rest : Bytes} :
    WordsAccepted (cr :: lf :: rest) ↔ WordsAccepted rest := by
  rw [wordsAccepted_skip (not_candidate (by decide)),
    wordsAccepted_skip (not_candidate (by decide))]

theorem linesShort_crlf {line rest : Bytes} (hline : cr ∉ line) :
    LinesShort (line ++ cr :: lf :: rest) ↔ line.length ≤ 998 ∧ LinesShort rest := by
  rw [LinesShort, splitCrlf_line_crlf hline, List.forall_mem_cons]
  rfl

/-- At a CR: what is left is accepted behind the pair, if it may stand there. -/
theorem loop_fold {front line rest : Bytes} (hline : cr ∉ line) (hlen : line.length ≤ 998)
    (ih : ∀ more, more.length < rest.length →
      (validateLoop (front ++ line ++ [cr, lf] ++ more) ⟨(front ++ line ++ [cr, lf]).length, 0⟩
          = .ok () ↔ Accepts [] more)) :
    (stepHandleFold (front ++ line ++ cr :: rest) ⟨(front ++ line).length, line.length⟩).bind
        (validateLoop (front ++ line ++ cr :: rest)) = .ok ()
      ↔ Accepts line (cr :: rest) := by
  have hbehind (k : Nat) :
      (front ++ line ++ cr :: rest)[(front ++ line).length + k]? = (cr :: rest)[k]? :=
    getElem?_behind k rfl
  have hnext : (front ++ line ++ cr :: rest)[(front ++ line).length + 1]? = rest[0]? := hbehind 1
  have hthird : (front ++ line ++ cr :: rest)[(front ++ line).length + 2]? = rest[1]? := hbehind 2
  rw [stepHandleFold]
  dsimp only
  rw [hnext, hthird]
  by_cases hlf : rest[0]? = some lf
  · obtain ⟨more, rfl⟩ : ∃ more, rest = lf :: more := by
      cases rest with
      | nil => cases hlf
      | cons d more => exact ⟨more, by rw [Option.some.inj hlf]⟩
    rw [if_neg (not_not.mpr hlf), Accepts, foldedText_fold, linesShort_crlf hline,
      wordsAccepted_crlf]
    have hend :
        (front ++ line).length + 2 = (front ++ line ++ cr :: lf :: more).length ↔ more = [] := by
      rw [← List.length_eq_zero_iff]
      simp only [List.length_append, List.length_cons]
      omega
    by_cases hempty : more = []
    · rw [if_pos (hend.mpr hempty)]
      subst hempty
      refine ⟨fun _ => ⟨⟨.inl rfl, .nil⟩, ⟨hlen, ?_⟩, [], .nil, by simp⟩, fun _ => ?_⟩
      · exact List.forall_mem_singleton.mpr (Nat.zero_le _)
      · exact validateLoop_end (Nat.le_refl _)
    rw [if_neg (mt hend.mp hempty)]
    obtain ⟨c, last, rfl⟩ := List.exists_cons_of_ne_nil hempty
    by_cases hwsp : isWsp c = true
    · have hcontinues : Continues (c :: last) :=
        .inr ⟨c, last, rfl, by simpa [isWsp] using hwsp⟩
      have hmore := ih (c :: last) (by simp)
      rw [if_neg (by simp [hwsp])]
      have hvalue : front ++ line ++ cr :: lf :: c :: last
          = front ++ line ++ [cr, lf] ++ c :: last := by simp
      have hi : (front ++ line).length + 2 = (front ++ line ++ [cr, lf]).length := by
        simp only [List.length_append, List.length_cons, List.length_nil]
      rw [hvalue, hi]
      refine hmore.trans ⟨fun h => ⟨⟨hcontinues, h.1⟩, ⟨hlen, h.2.1⟩, h.2.2⟩, ?_⟩
      exact fun h => ⟨h.1.2, h.2.1.2, h.2.2⟩
    · rw [if_pos (by simp [hwsp])]
      apply iff_of_false (by simp [Except.bind])
      rintro ⟨⟨hnil | ⟨d, more, heq, hd⟩, -⟩, -⟩
      · cases hnil
      · obtain rfl : c = d := (List.cons.inj heq).1
        exact absurd (by simpa [isWsp] using hd) hwsp
  · rw [if_pos hlf]
    apply iff_of_false (by simp [Except.bind])
    rintro ⟨hfolded, -⟩
    cases hfolded with
    | text hc => exact absurd rfl hc.ne.1
    | fold => exact absurd rfl hlf

theorem candidate_iff {front rest : Bytes} {c : UInt8} {stop : Nat} :
    (if c = equals ∧ (front ++ c :: rest)[front.length + 1]? = some question then
        locateEncodedWordCandidate (front ++ c :: rest) front.length else none) = some stop
      ↔ ∃ w more, c :: rest = w ++ more ∧ Candidate w ∧ stop = front.length + w.length := by
  have hnext : (front ++ c :: rest)[front.length + 1]? = rest[0]? := getElem?_behind 1 rfl
  rw [hnext]
  split
  · rename_i h
    obtain ⟨rfl, hquestion⟩ := h
    cases rest with
    | nil => cases hquestion
    | cons d rest =>
        obtain rfl : d = question := Option.some.inj hquestion
        exact locate_eq_some
  · rename_i h
    refine ⟨nofun, ?_⟩
    rintro ⟨w, more, heq, ⟨first, e, second, rfl, -⟩, -⟩
    rw [assembled_append] at heq
    obtain ⟨rfl, rfl⟩ := List.cons.inj heq
    exact absurd ⟨rfl, rfl⟩ h

/-- At a byte of text: what is left is accepted behind the candidate that starts there, if the word
validator accepts it, and else behind the byte. -/
theorem loop_text {front line rest : Bytes} {c : UInt8} (hline : cr ∉ line) (hc : IsText c)
    (ih : ∀ piece more, c :: rest = piece ++ more → piece ≠ [] → (line ++ piece).length ≤ 998 →
      cr ∉ line ++ piece →
      (validateLoop (front ++ line ++ c :: rest)
          ⟨(front ++ line).length + piece.length, (line ++ piece).length⟩ = .ok ()
        ↔ Accepts (line ++ piece) more)) :
    (step (front ++ line ++ c :: rest) c ⟨(front ++ line).length, line.length⟩).bind
        (validateLoop (front ++ line ++ c :: rest)) = .ok ()
      ↔ Accepts line (c :: rest) := by
  obtain ⟨hcr, hlf⟩ := hc.ne
  rw [step, if_neg hcr, if_neg hlf, (isDisallowedControl_iff hcr hlf).mpr hc,
    if_neg Bool.false_ne_true]
  dsimp only
  split
  · rename_i stop hcandidate
    obtain ⟨w, more, heq, hw, rfl⟩ := candidate_iff.mp hcandidate
    have hne : w ≠ [] := by
      obtain ⟨first, e, second, rfl, -⟩ := hw
      exact List.cons_ne_nil _ _
    rw [Accepts, heq, take_drop_between, wordsAccepted_word hw]
    split
    · rename_i hrefused
      apply iff_of_false (by simp [Except.bind])
      intro h
      rw [hrefused] at h
      cases h.2.2.1
    · rename_i haccepted
      have htext := text_of_validateEncodedWord haccepted
      rw [Nat.add_sub_cancel_left, ← heq]
      refine (loop_piece hline htext (ih w more heq hne)).trans ?_
      rw [heq]
      simp only [haccepted, true_and]
  · rename_i hcandidate
    have hnone : ∀ w more, c :: rest = w ++ more → ¬Candidate w := by
      intro w more heq hw
      rw [candidate_iff.mpr ⟨w, more, heq, hw, rfl⟩] at hcandidate
      cases hcandidate
    rw [Accepts, wordsAccepted_skip hnone]
    exact loop_piece hline (List.forall_mem_singleton.mpr hc)
      (ih [c] rest rfl (List.cons_ne_nil c []))

theorem not_foldedText {c : UInt8} {rest : Bytes} (hcr : c ≠ cr) (hc : ¬IsText c) :
    ¬FoldedText (c :: rest) := by
  intro h
  cases h with
  | text h => exact hc h
  | fold => exact hcr rfl

/-- **The loop** accepts the rest of a value in the middle of a line. -/
theorem validateLoop_eq_ok (front line rest : Bytes) (hline : cr ∉ line)
    (hlen : line.length ≤ 998) :
    validateLoop (front ++ line ++ rest) ⟨(front ++ line).length, line.length⟩ = .ok ()
      ↔ Accepts line rest := by
  induction hn : rest.length using Nat.strongRecOn generalizing rest front line with
  | ind n ih =>
      cases rest with
      | nil =>
          rw [validateLoop_end (by simp)]
          refine ⟨fun _ => ⟨.nil, ?_, [], .nil, by simp⟩, fun _ => rfl⟩
          rw [LinesShort, List.append_nil, splitCrlf_line hline]
          exact List.forall_mem_singleton.mpr hlen
      | cons c rest =>
          have hat : (front ++ line ++ c :: rest)[(front ++ line).length]? = some c :=
            getElem?_behind 0 rfl
          rw [validateLoop_step hat]
          by_cases hcr : c = cr
          · subst hcr
            rw [step, if_pos rfl]
            refine loop_fold hline hlen fun more hmore => ?_
            have hless : more.length < n := by
              simp only [List.length_cons] at hn
              omega
            have hloop := ih more.length hless (front ++ line ++ [cr, lf]) [] more (by simp)
              (Nat.zero_le _) rfl
            rwa [List.append_nil] at hloop
          by_cases hc : IsText c
          · refine loop_text hline hc fun piece more heq hne hlong hfree => ?_
            have hless : more.length < n := by
              have hpos : 0 < piece.length := List.length_pos_iff.mpr hne
              rw [← hn, heq, List.length_append]
              omega
            have hloop := ih more.length hless front (line ++ piece) more hfree hlong rfl
            rw [← List.append_assoc, List.append_assoc _ piece, ← heq, List.length_append] at hloop
            exact hloop
          · refine ⟨fun h => ?_, fun h => absurd h.1 (not_foldedText hcr hc)⟩
            rw [step, if_neg hcr] at h
            by_cases hlf : c = lf
            · rw [if_pos hlf] at h
              cases h
            · have hcontrol : isDisallowedControl c = true := by
                simpa using mt (isDisallowedControl_iff hcr hlf).mp hc
              rw [if_neg hlf, if_pos hcontrol] at h
              cases h

/-- **The accepted header values** are the folded ones. -/
theorem validate_folded_iff (value : Bytes) :
    validate value = .ok () ↔ value ≠ [] ∧ Folded value := by
  have hloop := validateLoop_eq_ok [] [] value (by simp) (Nat.zero_le _)
  have hfolded : Accepts [] value ↔ Folded value := by
    rw [Accepts, foldedText_iff, List.nil_append]
    exact ⟨fun h => ⟨h.1.1, h.1.2, h.2.1, h.2.2⟩, fun h => ⟨⟨h.byte, h.fold⟩, h.line, h.word⟩⟩
  rw [validate]
  split
  · rename_i hempty
    exact ⟨nofun, fun h => absurd hempty h.1⟩
  · rename_i hne
    rw [and_iff_right hne, ← hfolded]
    exact hloop

end HeaderValue

end SmtpClient
