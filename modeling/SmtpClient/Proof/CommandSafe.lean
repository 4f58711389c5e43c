import SmtpClient.Base.Quoting
import SmtpClient.Proof.AddressGrammar

/-!
# Accepted addresses on a command line

Each state of the local-part's automaton says whether the next byte stands in a quoted section, and
which bytes it lets through there. So an accepted address is printable, has its one quoted section
at its start, and is split at the first `@` outside of it. A quote in the domain is a character of
its literal.
-/

namespace SmtpClient

namespace Address

/-- Where byte `i` of an address stands. -/
def quotingAt (addr : Bytes) (i : Nat) : Quoting := Quoting.at_ quote backslash addr i

/-- A byte between the brackets that end an address. -/
def InLiteral (addr : Bytes) (i : Nat) : Prop :=
  ∃ front body, addr = front ++ bracketed body ∧ front.length < i ∧ i ≤ front.length + body.length

/-- An address that is split at the `@` at `j` and cannot break out of a command line. -/
structure CommandSafe (addr : Bytes) (j : Nat) : Prop where
  printable : ∀ c ∈ addr, 32 ≤ c ∧ c ≤ 126
  separator : addr[j]? = some at_ ∧ quotingAt addr j = .outside
  first : ∀ i < j, addr[i]? = some at_ → quotingAt addr i ≠ .outside
  opening : ∀ i ≤ j, addr[i]? = some quote → quotingAt addr i = .outside → i = 0
  behind : ∀ i > j, addr[i]? = some quote → InLiteral addr i
  spaces : ∀ i, addr[i]? = some 32 → i < j ∧ quotingAt addr i ≠ .outside

/-! ### The local-part -/

def LocalState.quoting : LocalState → Quoting
  | .start | .atom | .dot => .outside
  | .quotedStart | .quotedChar => .inside
  | .quotedEscape => .escaped

theorem printable_of_isQtext {c : UInt8} (h : isQtext c = true) : 32 ≤ c ∧ c ≤ 126 := by
  obtain ⟨-, hclass, -⟩ := charClass_iff c
  rcases hclass.1 h with ⟨hlow, hhigh⟩ | ⟨hlow, hhigh⟩ | ⟨hlow, hhigh⟩
  · exact ⟨hlow, UInt8.le_trans hhigh (by decide)⟩
  · exact ⟨UInt8.le_trans (by decide) hlow, UInt8.le_trans hhigh (by decide)⟩
  · exact ⟨UInt8.le_trans (by decide) hlow, hhigh⟩

theorem printable_of_isDlit {c : UInt8} (h : isDlit c = true) : 33 ≤ c ∧ c ≤ 126 := by
  obtain ⟨-, -, hclass, -⟩ := charClass_iff c
  rcases hclass.1 h with ⟨hlow, hhigh⟩ | ⟨hlow, hhigh⟩
  · exact ⟨hlow, UInt8.le_trans hhigh (by decide)⟩
  · exact ⟨UInt8.le_trans (by decide) hlow, hhigh⟩

theorem printable_of_isAtext {c : UInt8} (h : isAtext c = true) : 33 ≤ c ∧ c ≤ 126 := by
  obtain ⟨hclass, -⟩ := charClass_iff c
  exact (hclass.1 h).1

/-- What a move says about its byte: where it stands, where the next one stands, and whether it may
be there. -/
structure LocalMove.Safe (state : LocalState) (c : UInt8) (state' : LocalState) : Prop where
  next : Quoting.step quote backslash state.quoting c = state'.quoting
  printable : 32 ≤ c ∧ c ≤ 126
  quoted : c = at_ ∨ c = 32 → state.quoting ≠ .outside
  opening : c = quote → state.quoting = .outside → state = .start
  onward : state' ≠ .start

theorem LocalMove.safe {state state' : LocalState} {c : UInt8} {d : Nat}
    (h : LocalMove state c state' d) : LocalMove.Safe state c state' := by
  have hatom {c : UInt8} (hc : isAtext c = true) :
      Quoting.step quote backslash .outside c = .outside
        ∧ (32 ≤ c ∧ c ≤ 126) ∧ ¬(c = at_ ∨ c = 32) := by
    have hne := ne_of_isAtext hc
    refine ⟨if_neg hne.1, ⟨?_, (printable_of_isAtext hc).2⟩, ?_⟩
    · exact UInt8.le_trans (by decide) (printable_of_isAtext hc).1
    · rintro (heq | rfl)
      · exact hne.2.2 heq
      · exact absurd hc (by decide)
  have htext {c : UInt8} (hc : isQtext c = true) :
      Quoting.step quote backslash .inside c = .inside := by
    have hne := ne_of_isQtext hc
    exact (if_neg hne.1).trans (if_neg hne.2)
  cases h with
  | opened => exact ⟨rfl, by decide, by decide, fun _ _ => rfl, by decide⟩
  | first hc =>
      obtain ⟨hnext, hrange, hfree⟩ := hatom hc
      exact ⟨hnext, hrange, fun h => absurd h hfree, fun _ _ => rfl, by decide⟩
  | dotted => exact ⟨rfl, by decide, by decide, by decide, by decide⟩
  | atext hc | behindDot hc =>
      obtain ⟨hnext, hrange, hfree⟩ := hatom hc
      have hquote : c ≠ quote := (ne_of_isAtext hc).1
      exact ⟨hnext, hrange, fun h => absurd h hfree, fun h => absurd h hquote, by decide⟩
  | escapedFirst | closed | escaped =>
      exact ⟨rfl, by decide, fun _ => by decide, fun _ h => absurd h (by decide), by decide⟩
  | quotedFirst hc | quoted hc =>
      exact ⟨htext hc, printable_of_isQtext hc, fun _ => by decide,
        fun _ h => absurd h (by decide), by decide⟩
  | pair hc =>
      exact ⟨rfl, hc, fun _ => by decide, fun _ h => absurd h (by decide), by decide⟩

/-- What a state accepts up to the separating `@`, byte by byte. -/
theorem localRest_safe {state : LocalState} {t : Bytes} {n : Nat} (h : LocalRest state t n) :
    (∀ c ∈ t, 32 ≤ c ∧ c ≤ 126)
      ∧ t.foldl (Quoting.step quote backslash) state.quoting = .outside
      ∧ ∀ i c, t[i]? = some c →
        (c = at_ ∨ c = 32 →
          (t.take i).foldl (Quoting.step quote backslash) state.quoting ≠ .outside)
        ∧ (c = quote → (t.take i).foldl (Quoting.step quote backslash) state.quoting = .outside →
          i = 0 ∧ state = .start) := by
  induction t generalizing state n with
  | nil =>
      obtain ⟨rfl, -⟩ := localRest_nil h
      exact ⟨by simp, rfl, by simp⟩
  | cons c t ih =>
      obtain ⟨state', d, m, hmove, hrest, -⟩ := localRest_cons.mp h
      obtain ⟨hrange, hend, hbytes⟩ := ih hrest
      have hsafe := hmove.safe
      refine ⟨List.forall_mem_cons.mpr ⟨hsafe.printable, hrange⟩, ?_, ?_⟩
      · rw [List.foldl_cons, hsafe.next]
        exact hend
      · intro i e he
        cases i with
        | zero =>
            obtain rfl : c = e := by simpa using he
            exact ⟨hsafe.quoted, fun hquote houtside => ⟨rfl, hsafe.opening hquote houtside⟩⟩
        | succ i =>
            obtain ⟨hquoted, hopening⟩ := hbytes i e he
            rw [List.take_succ_cons, List.foldl_cons, hsafe.next]
            refine ⟨hquoted, fun hquote houtside => ?_⟩
            exact absurd (hopening hquote houtside).2 hsafe.onward

/-! ### The domain -/

theorem printable_of_isLabelChar {c : UInt8} (h : isLabelChar c) : 33 ≤ c ∧ c ≤ 126 := by
  rcases h with halnum | rfl
  · refine printable_of_isAtext ?_
    simp only [isAlnum, charClass, Bool.or_eq_true] at halnum
    simp only [isAtext, charClass, Bool.or_eq_true]
    exact .inl halnum
  · decide

theorem labels_printable {s : Bytes} (h : Joined dot ShortLabel s) :
    ∀ c ∈ s, (33 ≤ c ∧ c ≤ 126) ∧ c ≠ quote := by
  refine h.forall_mem (fun l hl c hc => ?_) (by decide)
  have hchar := hl.1.inside c hc
  refine ⟨printable_of_isLabelChar hchar, ?_⟩
  rintro rfl
  exact absurd hchar (by decide)

theorem bracketed_printable {body : Bytes} (h : Dcontent body) :
    ∀ c ∈ bracketed body, 33 ≤ c ∧ c ≤ 126 := by
  intro c hc
  simp only [bracketed, List.mem_cons, List.mem_append, List.not_mem_nil, or_false] at hc
  rcases hc with rfl | hc | rfl
  · decide
  · exact printable_of_isDlit (h c hc)
  · decide

theorem DomainForm.printable {first : Bool} {d : Bytes} (h : DomainForm first d) :
    ∀ c ∈ d, 33 ≤ c ∧ c ≤ 126 := by
  cases h with
  | labels h => exact fun c hc => (labels_printable h c hc).1
  | literal hbody => exact bracketed_printable hbody
  | mixed h hbody =>
      intro c hc
      rcases List.mem_append.mp hc with hc | hc
      · exact (labels_printable h c hc).1
      · rcases List.mem_cons.mp hc with rfl | hc
        · decide
        · exact bracketed_printable hbody c hc

/-- A quote behind text that has none, in front of a literal, stands in the literal. -/
theorem inLiteral_of_quote {front body : Bytes} {i : Nat} (hle : front.length ≤ i)
    (h : (front ++ bracketed body)[i]? = some quote) : InLiteral (front ++ bracketed body) i := by
  refine ⟨front, body, rfl, ?_, ?_⟩
  · by_contra hnot
    obtain rfl : i = front.length := by omega
    rw [List.getElem?_append_right (Nat.le_refl _), Nat.sub_self] at h
    exact absurd (Option.some.inj h) (by decide)
  · by_contra hnot
    rw [List.getElem?_append_right hle] at h
    obtain ⟨k, hk⟩ : ∃ k, i - front.length = body.length + 1 + k := ⟨_, (Nat.add_sub_cancel'
      (by omega : body.length + 1 ≤ i - front.length)).symm⟩
    rw [hk, bracketed, show body.length + 1 + k = body.length + k + 1 by omega,
      List.getElem?_cons_succ, List.getElem?_append_right (by omega)] at h
    cases k with
    | zero => simp [closing, quote] at h
    | succ k => simp at h

theorem DomainForm.quotes {first : Bool} {front d : Bytes} {i : Nat} (h : DomainForm first d)
    (hle : front.length ≤ i) (hquote : (front ++ d)[i]? = some quote) :
    InLiteral (front ++ d) i := by
  have hfree {s : Bytes} (hs : Joined dot ShortLabel s) {k : Nat} : s[k]? ≠ some quote := by
    intro hk
    exact (labels_printable hs quote (List.mem_of_getElem? hk)).2 rfl
  cases h with
  | labels h =>
      rw [List.getElem?_append_right hle] at hquote
      exact absurd hquote (hfree h)
  | literal => exact inLiteral_of_quote hle hquote
  | @mixed s body h =>
      rw [show front ++ (s ++ dot :: bracketed body) = (front ++ s ++ [dot]) ++ bracketed body by
        simp] at hquote ⊢
      refine inLiteral_of_quote ?_ hquote
      by_contra hlt
      rw [List.getElem?_append_left (by omega), List.append_assoc,
        List.getElem?_append_right hle] at hquote
      have hmem := List.mem_of_getElem? hquote
      rcases List.mem_append.mp hmem with hmem | hmem
      · exact (labels_printable h quote hmem).2 rfl
      · exact absurd hmem (by decide)

/-- **Accepted addresses are safe.** An accepted address is printable, has its one quoted section at
its start, has no space outside of it, and is split at the first `@` outside of it. -/
theorem commandSafe_of_validate {addr : Bytes} (h : validate addr = .ok ()) :
    ∃ j, parseLocalPart addr = .ok j ∧ CommandSafe addr j := by
  obtain ⟨-, s, n, d, rfl, hlocal, hle, hdomain⟩ := validate_eq_ok.mp h
  have hrest := localRest_start.mpr hlocal
  obtain ⟨hrange, hend, hbytes⟩ := localRest_safe hrest
  have hwhere {i : Nat} (hi : i ≤ s.length) : quotingAt (s ++ at_ :: d) i = quotingAt s i :=
    Quoting.at_append _ hi
  have hinside {i : Nat} {c : UInt8} (hi : i < s.length) (hc : (s ++ at_ :: d)[i]? = some c) :
      s[i]? = some c := by
    rwa [List.getElem?_append_left hi] at hc
  have hbehind {i : Nat} {c : UInt8} (hi : s.length < i) (hc : (s ++ at_ :: d)[i]? = some c) :
      c ∈ d := by
    rw [List.getElem?_append_right (by omega)] at hc
    obtain ⟨k, hk⟩ : ∃ k, i - s.length = k + 1 := ⟨i - s.length - 1, by omega⟩
    rw [hk, List.getElem?_cons_succ] at hc
    exact List.mem_of_getElem? hc
  have hseparator : (s ++ at_ :: d)[s.length]? = some at_ := by simp
  refine ⟨s.length, parseLocalPart_eq_ok.mpr ⟨s, d, n, rfl, hrest, hle, rfl⟩, ?_⟩
  constructor
  case printable =>
    intro c hc
    rcases List.mem_append.mp hc with hc | hc
    · exact hrange c hc
    · rcases List.mem_cons.mp hc with rfl | hc
      · decide
      · exact ⟨UInt8.le_trans (by decide) (hdomain.printable c hc).1, (hdomain.printable c hc).2⟩
  case separator => exact ⟨hseparator, (Quoting.at_length _).trans hend⟩
  case first =>
    intro i hi hc
    rw [hwhere (Nat.le_of_lt hi)]
    exact (hbytes i at_ (hinside hi hc)).1 (.inl rfl)
  case opening =>
    intro i hi hc houtside
    rcases Nat.lt_or_eq_of_le hi with hlt | rfl
    · rw [hwhere hi] at houtside
      exact ((hbytes i quote (hinside hlt hc)).2 rfl houtside).1
    · rw [hseparator] at hc
      exact absurd (Option.some.inj hc) (by decide)
  case behind =>
    intro i hi hc
    rw [show s ++ at_ :: d = (s ++ [at_]) ++ d by simp] at hc ⊢
    refine hdomain.quotes ?_ hc
    rw [List.length_append]
    exact hi
  case spaces =>
    intro i hc
    rcases Nat.lt_trichotomy i s.length with hlt | rfl | hgt
    · rw [hwhere (Nat.le_of_lt hlt)]
      exact ⟨hlt, (hbytes i 32 (hinside hlt hc)).1 (.inr rfl)⟩
    · rw [hseparator] at hc
      exact absurd (Option.some.inj hc) (by decide)
    · exact absurd (hdomain.printable 32 (hbehind hgt hc)).1 (by decide)

/-- `"a@ b"@["]`. -/
theorem commandSafe_quoted :
    ∃ j, parseLocalPart (bytes "\"a@ b\"@[\"]") = .ok j ∧ CommandSafe (bytes "\"a@ b\"@[\"]") j :=
  commandSafe_of_validate (by decide)

end Address

end SmtpClient
