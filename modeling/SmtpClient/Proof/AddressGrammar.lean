import SmtpClient.Address
import SmtpClient.Base.Joined

/-!
# The addresses the validator accepts

What each state of the two automata still accepts, as a language, and from it the exact form of an
accepted address. The local-part is a dot-string, or a quoted string that may be continued by an
atom or by dots and atoms; the domain is a sequence of labels, an address literal, or labels with a
literal behind their last dot.
-/

namespace SmtpClient

namespace Address

/-! ### The characters -/

/-- What an atom is made of: whatever is printed, but for the specials. -/
def Atext (c : UInt8) : Prop := (33 ≤ c ∧ c ≤ 126) ∧ c ∉ bytes "()<>[]:;@\\,.\""

/-- What stands for itself in a quoted string. -/
def QtextSmtp (c : UInt8) : Prop := 32 ≤ c ∧ c ≤ 33 ∨ 35 ≤ c ∧ c ≤ 91 ∨ 93 ≤ c ∧ c ≤ 126

/-- What stands in an address literal. -/
def LiteralChar (c : UInt8) : Prop := 33 ≤ c ∧ c ≤ 90 ∨ 94 ≤ c ∧ c ≤ 126

def LetDig (c : UInt8) : Prop :=
  c ∈ bytes "ABCDEFGHIJKLMNOPQRSTUVWXYZabcdefghijklmnopqrstuvwxyz0123456789"

instance (c : UInt8) : Decidable (Atext c) := inferInstanceAs (Decidable (_ ∧ _))
instance (c : UInt8) : Decidable (QtextSmtp c) := inferInstanceAs (Decidable (_ ∨ _))
instance (c : UInt8) : Decidable (LiteralChar c) := inferInstanceAs (Decidable (_ ∨ _))
instance (c : UInt8) : Decidable (LetDig c) := inferInstanceAs (Decidable (_ ∈ _))

/-- **The class table** is that of the grammar: the predicates of the forms below are these. -/
theorem charClass_iff (c : UInt8) : (isAtext c = true ↔ Atext c) ∧ (isQtext c = true ↔ QtextSmtp c)
    ∧ (isDlit c = true ↔ LiteralChar c) ∧ (isAlnum c = true ↔ LetDig c) := by
  revert c
  apply forall_byte
  decide +kernel

/-! ### The forms -/

def DotString (s : Bytes) : Prop := Joined dot (Run1 isAtext) s

/-- A character of a quoted string, or a backslash pair. -/
inductive QuotedItem where
  | text (c : {c : UInt8 // isQtext c = true})
  | pair (c : {c : UInt8 // 32 ≤ c ∧ c ≤ 126})

def QuotedItem.render : QuotedItem → Bytes
  | .text c => [c.val]
  | .pair c => [backslash, c.val]

def quoted (items : List QuotedItem) : Bytes := items.flatMap QuotedItem.render

structure Label (l : Bytes) : Prop where
  starts : ∃ c, l.head? = some c ∧ isAlnum c = true
  ends : ∃ c, l.getLast? = some c ∧ isAlnum c = true
  inside : ∀ c ∈ l, isAlnum c = true ∨ c = hyphen

/-- A label of at most 63 octets. -/
def ShortLabel (l : Bytes) : Prop := Label l ∧ l.length ≤ domainLabelMaxLen

/-- A bracketed literal, as it may end a domain. -/
def bracketed (body : Bytes) : Bytes := opening :: (body ++ [closing])

def Dcontent (body : Bytes) : Prop := ∀ c ∈ body, isDlit c = true

/-! ### The local-part -/

/-- The moves of the local-part's automaton without the limit, and by how much each counts. -/
inductive LocalMove : LocalState → UInt8 → LocalState → Nat → Prop where
  | opened : LocalMove .start quote .quotedStart 0
  | first {c : UInt8} (h : isAtext c = true) : LocalMove .start c .atom 1
  | dotted : LocalMove .atom dot .dot 1
  | atext {c : UInt8} (h : isAtext c = true) : LocalMove .atom c .atom 1
  | behindDot {c : UInt8} (h : isAtext c = true) : LocalMove .dot c .atom 1
  | escapedFirst : LocalMove .quotedStart backslash .quotedEscape 0
  | quotedFirst {c : UInt8} (h : isQtext c = true) : LocalMove .quotedStart c .quotedChar 1
  | closed : LocalMove .quotedChar quote .atom 0
  | escaped : LocalMove .quotedChar backslash .quotedEscape 0
  | quoted {c : UInt8} (h : isQtext c = true) : LocalMove .quotedChar c .quotedChar 1
  | pair {c : UInt8} (h : 32 ≤ c ∧ c ≤ 126) : LocalMove .quotedEscape c .quotedChar 1

/-- Behind an opening quote: items, the closing quote, and what may continue the local-part; with
the number of characters that count. -/
def QuotedRest (enough : List QuotedItem → Prop) (t : Bytes) (n : Nat) : Prop :=
  ∃ items tail, enough items ∧ t = quoted items ++ quote :: tail ∧ Trailer dot isAtext tail
    ∧ n = items.length + tail.length

/-- What a state accepts up to the separating `@`, and how much of it is counted. -/
def LocalRest : LocalState → Bytes → Nat → Prop
  | .start, t, n => DotString t ∧ n = t.length
      ∨ ∃ rest, t = quote :: rest ∧ QuotedRest (· ≠ []) rest n
  | .atom, t, n => Trailer dot isAtext t ∧ n = t.length
  | .dot, t, n => DotString t ∧ n = t.length
  | .quotedStart, t, n => QuotedRest (· ≠ []) t n
  | .quotedChar, t, n => QuotedRest (fun _ => True) t n
  | .quotedEscape, t, n => ∃ c rest m, t = c :: rest ∧ (32 ≤ c ∧ c ≤ 126)
      ∧ QuotedRest (fun _ => True) rest m ∧ n = m + 1

theorem localRest_nil {state : LocalState} {n : Nat} (h : LocalRest state [] n) :
    state = .atom ∧ n = 0 := by
  cases state with
  | start =>
      rcases h with ⟨hdots, -⟩ | ⟨rest, heq, -⟩
      · exact absurd hdots joined_run_nil
      · simp at heq
  | atom => exact ⟨rfl, h.2⟩
  | dot => exact absurd h.1 joined_run_nil
  | quotedStart =>
      obtain ⟨items, tail, -, heq, -⟩ := h
      simp at heq
  | quotedChar =>
      obtain ⟨items, tail, -, heq, -⟩ := h
      simp at heq
  | quotedEscape =>
      obtain ⟨c, rest, m, heq, -⟩ := h
      simp at heq

theorem ne_of_isAtext {c : UInt8} (h : isAtext c = true) : c ≠ quote ∧ c ≠ dot ∧ c ≠ at_ := by
  refine ⟨?_, ?_, ?_⟩ <;> rintro rfl <;> exact absurd h (by decide)

theorem ne_of_isQtext {c : UInt8} (h : isQtext c = true) : c ≠ quote ∧ c ≠ backslash := by
  refine ⟨?_, ?_⟩ <;> rintro rfl <;> exact absurd h (by decide)

/-- The first byte behind an opening quote or an item. -/
theorem quotedRest_cons {enough : List QuotedItem → Prop} {c : UInt8} {t : Bytes} {n : Nat}
    (henough : ∀ item items, enough (item :: items)) :
    QuotedRest enough (c :: t) n
      ↔ enough [] ∧ c = quote ∧ LocalRest .atom t n
        ∨ isQtext c = true ∧ (∃ m, LocalRest .quotedChar t m ∧ n = m + 1)
        ∨ c = backslash ∧ LocalRest .quotedEscape t n := by
  constructor
  · rintro ⟨items, tail, hitems, heq, htail, rfl⟩
    cases items with
    | nil =>
        obtain ⟨rfl, rfl⟩ := List.cons.inj heq
        exact .inl ⟨hitems, rfl, htail, by simp⟩
    | cons item items =>
        cases item with
        | text d =>
            obtain ⟨rfl, rfl⟩ := List.cons.inj heq
            refine .inr (.inl ⟨d.property, _, ⟨items, tail, trivial, rfl, htail, rfl⟩, ?_⟩)
            simp only [List.length_cons]
            omega
        | pair d =>
            obtain ⟨rfl, rfl⟩ := List.cons.inj heq
            refine .inr (.inr ⟨rfl, d.val, _, _, rfl, d.property,
              ⟨items, tail, trivial, rfl, htail, rfl⟩, ?_⟩)
            simp only [List.length_cons]
            omega
  · rintro (⟨hitems, rfl, htail, rfl⟩ | ⟨hc, m, ⟨items, tail, -, rfl, htail, rfl⟩, rfl⟩
      | ⟨rfl, d, rest, m, rfl, hd, ⟨items, tail, -, rfl, htail, rfl⟩, rfl⟩)
    · exact ⟨[], t, hitems, rfl, htail, by simp⟩
    · refine ⟨.text ⟨c, hc⟩ :: items, tail, henough _ _, rfl, htail, ?_⟩
      simp only [List.length_cons]
      omega
    · refine ⟨.pair ⟨d, hd⟩ :: items, tail, henough _ _, rfl, htail, ?_⟩
      simp only [List.length_cons]
      omega

theorem LocalMove.functional {state left right : LocalState} {c : UInt8} {d e : Nat}
    (hleft : LocalMove state c left d) (hright : LocalMove state c right e) :
    left = right ∧ d = e := by
  cases hleft <;> cases hright <;>
    first
    | exact ⟨rfl, rfl⟩
    | rename_i h
      exact absurd h (by decide)

/-- What a state accepts that begins with a byte is what the state it moves to accepts of the
rest. -/
theorem localRest_cons {state : LocalState} {c : UInt8} {t : Bytes} {n : Nat} :
    LocalRest state (c :: t) n
      ↔ ∃ state' d m, LocalMove state c state' d ∧ LocalRest state' t m ∧ n = m + d := by
  constructor
  · intro h
    cases state with
    | start =>
        rcases h with ⟨hdots, rfl⟩ | ⟨rest, heq, hrest⟩
        · obtain ⟨hc, htail⟩ := joined_run_cons.mp hdots
          exact ⟨_, _, _, .first hc, ⟨htail, rfl⟩, rfl⟩
        · obtain ⟨rfl, rfl⟩ := List.cons.inj heq
          exact ⟨_, _, _, .opened, hrest, rfl⟩
    | atom =>
        obtain ⟨htail, rfl⟩ := h
        rcases trailer_cons.mp htail with ⟨hc, htail⟩ | ⟨rfl, hdots⟩
        · exact ⟨_, _, _, .atext hc, ⟨htail, rfl⟩, rfl⟩
        · exact ⟨_, _, _, .dotted, ⟨hdots, rfl⟩, rfl⟩
    | dot =>
        obtain ⟨hdots, rfl⟩ := h
        obtain ⟨hc, htail⟩ := joined_run_cons.mp hdots
        exact ⟨_, _, _, .behindDot hc, ⟨htail, rfl⟩, rfl⟩
    | quotedStart =>
        rcases (quotedRest_cons List.cons_ne_nil).mp h with
          ⟨hne, -⟩ | ⟨hc, m, hrest, rfl⟩ | ⟨rfl, hrest⟩
        · exact absurd rfl hne
        · exact ⟨_, _, _, .quotedFirst hc, hrest, rfl⟩
        · exact ⟨_, _, _, .escapedFirst, hrest, rfl⟩
    | quotedChar =>
        rcases (quotedRest_cons fun _ _ => trivial).mp h with
          ⟨-, rfl, hrest⟩ | ⟨hc, m, hrest, rfl⟩ | ⟨rfl, hrest⟩
        · exact ⟨_, _, _, .closed, hrest, rfl⟩
        · exact ⟨_, _, _, .quoted hc, hrest, rfl⟩
        · exact ⟨_, _, _, .escaped, hrest, rfl⟩
    | quotedEscape =>
        obtain ⟨d, rest, m, heq, hd, hrest, rfl⟩ := h
        obtain ⟨rfl, rfl⟩ := List.cons.inj heq
        exact ⟨_, _, _, .pair hd, hrest, rfl⟩
  · rintro ⟨state', d, m, hmove, hrest, rfl⟩
    cases hmove with
    | opened => exact .inr ⟨t, rfl, hrest⟩
    | first hc => exact .inl ⟨joined_run_cons.mpr ⟨hc, hrest.1⟩, by rw [hrest.2]; rfl⟩
    | dotted => exact ⟨trailer_cons.mpr (.inr ⟨rfl, hrest.1⟩), by rw [hrest.2]; rfl⟩
    | atext hc => exact ⟨trailer_cons.mpr (.inl ⟨hc, hrest.1⟩), by rw [hrest.2]; rfl⟩
    | behindDot hc => exact ⟨joined_run_cons.mpr ⟨hc, hrest.1⟩, by rw [hrest.2]; rfl⟩
    | escapedFirst => exact (quotedRest_cons List.cons_ne_nil).mpr (.inr (.inr ⟨rfl, hrest⟩))
    | quotedFirst hc =>
        exact (quotedRest_cons List.cons_ne_nil).mpr (.inr (.inl ⟨hc, m, hrest, rfl⟩))
    | closed => exact (quotedRest_cons fun _ _ => trivial).mpr (.inl ⟨trivial, rfl, hrest⟩)
    | escaped => exact (quotedRest_cons fun _ _ => trivial).mpr (.inr (.inr ⟨rfl, hrest⟩))
    | quoted hc =>
        exact (quotedRest_cons fun _ _ => trivial).mpr (.inr (.inl ⟨hc, m, hrest, rfl⟩))
    | pair hc => exact ⟨c, t, m, rfl, hc, hrest, rfl⟩

/-- What is accepted up to an `@` can be read in one way. -/
theorem localRest_inj {state : LocalState} {left right r r' : Bytes} {n m : Nat}
    (hleft : LocalRest state left n) (hright : LocalRest state right m)
    (heq : left ++ at_ :: r = right ++ at_ :: r') : left = right ∧ n = m := by
  have hstuck {d : Nat} {state' : LocalState} : ¬LocalMove .atom at_ state' d := by
    intro h
    cases h with
    | atext h => exact absurd h (by decide)
  induction left generalizing state right n m with
  | nil =>
      obtain ⟨rfl, rfl⟩ := localRest_nil hleft
      cases right with
      | nil => exact ⟨rfl, (localRest_nil hright).2.symm⟩
      | cons c right =>
          obtain ⟨state', d, m', hmove, -⟩ := localRest_cons.mp hright
          obtain ⟨rfl, -⟩ := List.cons.inj heq
          exact absurd hmove hstuck
  | cons c left ih =>
      cases right with
      | nil =>
          obtain ⟨rfl, rfl⟩ := localRest_nil hright
          obtain ⟨state', d, m', hmove, -⟩ := localRest_cons.mp hleft
          obtain ⟨rfl, -⟩ := List.cons.inj heq
          exact absurd hmove hstuck
      | cons c' right =>
          obtain ⟨rfl, hrest⟩ := List.cons.inj heq
          obtain ⟨state', d, n', hmove, hmore, rfl⟩ := localRest_cons.mp hleft
          obtain ⟨state'', e, m', hmove', hmore', rfl⟩ := localRest_cons.mp hright
          obtain ⟨rfl, rfl⟩ := hmove.functional hmove'
          obtain ⟨rfl, rfl⟩ := ih hmore hmore' hrest
          exact ⟨rfl, rfl⟩

/-- What the counter says in each state. -/
def Counts (s : LocalScan) : Prop :=
  s.foundAt = false ∧ s.localLen ≤ localPartMaxLen
    ∧ (s.state = .start ∨ s.state = .quotedStart → s.localLen = 0)

theorem checked_eq_ok {s s' : LocalScan} {i : Nat} :
    s.checked i = .ok s' ↔ s.localLen ≤ localPartMaxLen ∧ s = s' := by
  unfold LocalScan.checked
  split
  · rename_i h
    simp only [reduceCtorEq, false_iff]
    omega
  · rename_i h
    simp only [Except.ok.injEq]
    exact ⟨fun heq => ⟨by omega, heq⟩, And.right⟩

/-- One move within the limit, behind `localLen` characters that count. -/
def Moved (state : LocalState) (localLen : Nat) (c : UInt8) (s' : LocalScan) : Prop :=
  ∃ state' d, LocalMove state c state' d ∧ localLen + d ≤ localPartMaxLen
    ∧ s' = ⟨state', localLen + d, false⟩

section Steps

variable {c : UInt8} {i localLen : Nat} {s' : LocalScan}

theorem stepLocalStart_ok (h : stepLocalStart c i ⟨.start, 0, false⟩ = .ok s') :
    Moved .start 0 c s' := by
  rw [stepLocalStart] at h
  split at h
  · rename_i hc
    subst hc
    exact ⟨_, _, .opened, Nat.zero_le _, (Except.ok.inj h).symm⟩
  split at h
  · cases h
  split at h
  · cases h
  split at h
  · rename_i hc
    exact ⟨_, _, .first hc, by decide, (Except.ok.inj h).symm⟩
  · cases h

theorem stepLocalAtom_ok (h : stepLocalAtom c i ⟨.atom, localLen, false⟩ = .ok s') :
    c = at_ ∧ s' = ⟨.atom, localLen, true⟩ ∨ Moved .atom localLen c s' := by
  rw [stepLocalAtom] at h
  split at h
  · rename_i hc
    exact .inl ⟨hc, (Except.ok.inj h).symm⟩
  right
  split at h
  · rename_i hc
    subst hc
    obtain ⟨hlimit, rfl⟩ := checked_eq_ok.mp h
    exact ⟨_, _, .dotted, hlimit, rfl⟩
  split at h
  · rename_i hc
    obtain ⟨hlimit, rfl⟩ := checked_eq_ok.mp h
    exact ⟨_, _, .atext hc, hlimit, rfl⟩
  · cases h

theorem stepLocalDot_ok (h : stepLocalDot c i ⟨.dot, localLen, false⟩ = .ok s') :
    Moved .dot localLen c s' := by
  rw [stepLocalDot] at h
  split at h
  · cases h
  split at h
  · cases h
  split at h
  · rename_i hc
    obtain ⟨hlimit, rfl⟩ := checked_eq_ok.mp h
    exact ⟨_, _, .behindDot hc, hlimit, rfl⟩
  · cases h

theorem stepLocalQuotedStart_ok
    (h : stepLocalQuotedStart c i ⟨.quotedStart, 0, false⟩ = .ok s') :
    Moved .quotedStart 0 c s' := by
  rw [stepLocalQuotedStart] at h
  split at h
  · cases h
  split at h
  · rename_i hc
    subst hc
    exact ⟨_, _, .escapedFirst, Nat.zero_le _, (Except.ok.inj h).symm⟩
  split at h
  · rename_i hc
    exact ⟨_, _, .quotedFirst hc, by decide, (Except.ok.inj h).symm⟩
  · cases h

theorem stepLocalQuotedChar_ok (hle : localLen ≤ localPartMaxLen)
    (h : stepLocalQuotedChar c i ⟨.quotedChar, localLen, false⟩ = .ok s') :
    Moved .quotedChar localLen c s' := by
  rw [stepLocalQuotedChar] at h
  split at h
  · rename_i hc
    subst hc
    exact ⟨_, _, .closed, hle, (Except.ok.inj h).symm⟩
  split at h
  · rename_i hc
    subst hc
    exact ⟨_, _, .escaped, hle, (Except.ok.inj h).symm⟩
  split at h
  · rename_i hc
    obtain ⟨hlimit, rfl⟩ := checked_eq_ok.mp h
    exact ⟨_, _, .quoted hc, hlimit, rfl⟩
  · cases h

theorem stepLocalQuotedEscape_ok
    (h : stepLocalQuotedEscape c i ⟨.quotedEscape, localLen, false⟩ = .ok s') :
    Moved .quotedEscape localLen c s' := by
  rw [stepLocalQuotedEscape] at h
  split at h
  · cases h
  · rename_i hc
    obtain ⟨hlimit, rfl⟩ := checked_eq_ok.mp h
    exact ⟨_, _, .pair (by simpa using hc), hlimit, rfl⟩

theorem stepLocal_of_moved {state : LocalState}
    (hzero : state = .start ∨ state = .quotedStart → localLen = 0)
    (h : Moved state localLen c s') : stepLocal c i ⟨state, localLen, false⟩ = .ok s' := by
  obtain ⟨state', d, hmove, hlimit, rfl⟩ := h
  cases hmove with
  | opened => rfl
  | first hc =>
      obtain rfl : localLen = 0 := hzero (.inl rfl)
      have hne := ne_of_isAtext hc
      simp [stepLocal, stepLocalStart, hc, hne]
  | dotted => exact checked_eq_ok.mpr ⟨hlimit, rfl⟩
  | atext hc =>
      have hne := ne_of_isAtext hc
      simp only [stepLocal, stepLocalAtom, if_neg hne.2.2, if_neg hne.2.1, if_pos hc]
      exact checked_eq_ok.mpr ⟨hlimit, rfl⟩
  | behindDot hc =>
      have hne := ne_of_isAtext hc
      simp only [stepLocal, stepLocalDot, if_neg hne.2.2, if_neg hne.2.1, if_pos hc]
      exact checked_eq_ok.mpr ⟨hlimit, rfl⟩
  | escapedFirst => rfl
  | quotedFirst hc =>
      have hne := ne_of_isQtext hc
      simp only [stepLocal, stepLocalQuotedStart, if_neg hne.1, if_neg hne.2, if_pos hc]
  | closed => rfl
  | escaped => rfl
  | quoted hc =>
      have hne := ne_of_isQtext hc
      simp only [stepLocal, stepLocalQuotedChar, if_neg hne.1, if_neg hne.2, if_pos hc]
      exact checked_eq_ok.mpr ⟨hlimit, rfl⟩
  | pair hc =>
      have hc' : ¬(c < 32 ∨ 126 < c) := by simpa using hc
      simp only [stepLocal, stepLocalQuotedEscape, if_neg hc']
      exact checked_eq_ok.mpr ⟨hlimit, rfl⟩

end Steps

/-- One step of the source is one move within the limit, or the separating `@`. -/
theorem stepLocal_eq_ok {c : UInt8} {i : Nat} {s s' : LocalScan} (hs : Counts s) :
    stepLocal c i s = .ok s'
      ↔ s.state = .atom ∧ c = at_ ∧ s' = { s with foundAt := true }
        ∨ Moved s.state s.localLen c s' := by
  obtain ⟨state, localLen, foundAt⟩ := s
  obtain ⟨rfl, hle, hzero⟩ := hs
  dsimp only at hle hzero ⊢
  constructor
  · intro h
    cases state with
    | start =>
        obtain rfl : localLen = 0 := hzero (.inl rfl)
        exact .inr (stepLocalStart_ok h)
    | atom => exact (stepLocalAtom_ok h).imp_left fun hat => ⟨rfl, hat⟩
    | dot => exact .inr (stepLocalDot_ok h)
    | quotedStart =>
        obtain rfl : localLen = 0 := hzero (.inr rfl)
        exact .inr (stepLocalQuotedStart_ok h)
    | quotedChar => exact .inr (stepLocalQuotedChar_ok hle h)
    | quotedEscape => exact .inr (stepLocalQuotedEscape_ok h)
  · rintro (⟨rfl, rfl, rfl⟩ | hmoved)
    · rfl
    · exact stepLocal_of_moved hzero hmoved

theorem LocalMove.counts {s : LocalScan} {state' : LocalState} {c : UInt8} {d : Nat}
    (h : LocalMove s.state c state' d) (hs : Counts s) (hlimit : s.localLen + d ≤ localPartMaxLen) :
    Counts ⟨state', s.localLen + d, false⟩ := by
  obtain ⟨state, localLen, foundAt⟩ := s
  refine ⟨rfl, hlimit, fun hstart => ?_⟩
  cases h with
  | opened => exact hs.2.2 (.inl rfl)
  | _ => simp at hstart

/-- **The local-part.** The scan stops at an `@` exactly where what it has read is what its state
accepts, within the limit. -/
theorem parseLocalLoop_eq_ok {len : Nat} {rest : Bytes} {i j : Nat} {s : LocalScan}
    (hs : Counts s) :
    parseLocalLoop len rest i s = .ok j
      ↔ ∃ t r n, rest = t ++ at_ :: r ∧ LocalRest s.state t n
        ∧ s.localLen + n ≤ localPartMaxLen ∧ j = i + t.length := by
  induction rest generalizing i s with
  | nil =>
      have hstuck : parseLocalLoop len [] i s ≠ .ok j := by
        rw [parseLocalLoop]
        split <;> simp
      constructor
      · exact fun h => absurd h hstuck
      · rintro ⟨t, r, n, heq, -⟩
        simp at heq
  | cons c rest ih =>
      rw [parseLocalLoop]
      constructor
      · intro h
        split at h
        · cases h
        rename_i s' hstep
        have hstep := (stepLocal_eq_ok hs).mp hstep
        rcases hstep with ⟨hatom, rfl, rfl⟩ | ⟨state', d, hmove, hlimit, rfl⟩
        · rw [if_pos rfl] at h
          refine ⟨[], rest, 0, rfl, ?_, hs.2.1, (Except.ok.inj h).symm⟩
          rw [hatom]
          exact ⟨trailer_nil, rfl⟩
        · rw [if_neg (by simp)] at h
          obtain ⟨t, r, n, rfl, hrest, hle, rfl⟩ := (ih (hmove.counts hs hlimit)).mp h
          refine ⟨c :: t, r, n + d, rfl, localRest_cons.mpr ⟨_, _, _, hmove, hrest, rfl⟩, ?_, ?_⟩
          · dsimp only at hle
            omega
          · simp only [List.length_cons]
            omega
      · rintro ⟨t, r, n, heq, hrest, hle, rfl⟩
        cases t with
        | nil =>
            obtain ⟨hatom, -⟩ := localRest_nil hrest
            obtain ⟨rfl, rfl⟩ := List.cons.inj heq
            have hstep : stepLocal at_ i s = .ok { s with foundAt := true } :=
              (stepLocal_eq_ok hs).mpr (.inl ⟨hatom, rfl, rfl⟩)
            rw [hstep]
            rfl
        | cons c' t =>
            obtain ⟨rfl, rfl⟩ := List.cons.inj heq
            obtain ⟨state', d, m, hmove, hmore, rfl⟩ := localRest_cons.mp hrest
            have hlimit : s.localLen + d ≤ localPartMaxLen := by omega
            have hstep : stepLocal c i s = .ok ⟨state', s.localLen + d, false⟩ :=
              (stepLocal_eq_ok hs).mpr (.inr ⟨_, _, hmove, hlimit, rfl⟩)
            rw [hstep]
            refine (ih (hmove.counts hs hlimit)).mpr ⟨t, r, m, rfl, hmore, ?_, ?_⟩
            · dsimp only
              omega
            · simp only [List.length_cons]
              omega

theorem parseLocalPart_eq_ok {addr : Bytes} {j : Nat} :
    parseLocalPart addr = .ok j
      ↔ ∃ t r n, addr = t ++ at_ :: r ∧ LocalRest .start t n ∧ n ≤ localPartMaxLen
        ∧ j = t.length := by
  rw [parseLocalPart, parseLocalLoop_eq_ok ⟨rfl, Nat.zero_le _, fun _ => rfl⟩]
  simp only [Nat.zero_add]

/-! ### The domain -/

/-- What the start of a label accepts: labels, a literal, or labels with a literal behind their last
dot. An empty literal is accepted behind a label only. -/
inductive DomainForm (first : Bool) : Bytes → Prop where
  | labels {s : Bytes} (h : Joined dot ShortLabel s) : DomainForm first s
  | literal {body : Bytes} (hbody : Dcontent body) (hne : first = true → body ≠ []) :
      DomainForm first (bracketed body)
  | mixed {s body : Bytes} (h : Joined dot ShortLabel s) (hbody : Dcontent body) :
      DomainForm first (s ++ dot :: bracketed body)

/-- A label, alone or in front of a dot and what the start of the next label accepts. -/
theorem domainForm_iff {first : Bool} {d : Bytes} :
    DomainForm first d
      ↔ (∃ l, ShortLabel l ∧ (d = l ∨ ∃ rest, d = l ++ dot :: rest ∧ DomainForm false rest))
        ∨ ∃ body, d = bracketed body ∧ Dcontent body ∧ (first = true → body ≠ []) := by
  constructor
  · intro h
    cases h with
    | labels h =>
        obtain ⟨l, hl, heq | ⟨rest, hrest, rfl⟩⟩ := joined_iff.mp h
        · exact .inl ⟨l, hl, .inl heq⟩
        · exact .inl ⟨l, hl, .inr ⟨rest, rfl, .labels hrest⟩⟩
    | literal hbody hne => exact .inr ⟨_, rfl, hbody, hne⟩
    | @mixed s body h hbody =>
        obtain ⟨l, hl, rfl | ⟨rest, hrest, rfl⟩⟩ := joined_iff.mp h
        · exact .inl ⟨s, hl, .inr ⟨_, rfl, .literal hbody (by simp)⟩⟩
        · exact .inl ⟨l, hl, .inr ⟨_, by simp, .mixed hrest hbody⟩⟩
  · rintro (⟨l, hl, rfl | ⟨rest, rfl, hrest⟩⟩ | ⟨body, rfl, hbody, hne⟩)
    · exact .labels (.one hl)
    · cases hrest with
      | labels h => exact .labels (.more hl h)
      | literal hbody _ => exact .mixed (.one hl) hbody
      | @mixed s body h hbody =>
          have heq : l ++ dot :: (s ++ dot :: bracketed body)
              = (l ++ dot :: s) ++ dot :: bracketed body := by simp
          rw [heq]
          exact .mixed (.more hl h) hbody
    · exact .literal hbody hne

def isLabelChar (c : UInt8) : Prop := isAlnum c = true ∨ c = hyphen

/-- What the inside of a label accepts behind a byte of it, when it has so many bytes. -/
def LabelRest (prev : UInt8) (labelLen : Nat) (d : Bytes) : Prop :=
  ∃ q, (∀ c ∈ q, isLabelChar c) ∧ labelLen + q.length ≤ domainLabelMaxLen
    ∧ (prev :: q).getLast? ≠ some hyphen
    ∧ (d = q ∨ ∃ rest, d = q ++ dot :: rest ∧ DomainForm false rest)

def DomainRest (prev : UInt8) (s : DomainScan) (d : Bytes) : Prop :=
  match s.state with
  | .labelStart => DomainForm (s.domainLen == 0) d
  | .labelChar => LabelRest prev s.labelLen d
  | .literal => ∃ body, d = body ++ [closing] ∧ Dcontent body
      ∧ ((s.domainLen == 0) = true → body ≠ [])
  | .literalDone => False

theorem ne_of_isAlnum {c : UInt8} (h : isAlnum c = true) :
    c ≠ opening ∧ c ≠ dot ∧ c ≠ hyphen := by
  refine ⟨?_, ?_, ?_⟩ <;> rintro rfl <;> exact absurd h (by decide)

theorem ne_of_isLabelChar {c : UInt8} (h : isLabelChar c) : c ≠ dot ∧ c ≠ opening := by
  rcases h with h | rfl
  · exact ⟨(ne_of_isAlnum h).2.1, (ne_of_isAlnum h).1⟩
  · decide

/-- A short label begins with a letter or digit, and what follows is the rest of one. -/
theorem labelStart_iff {c : UInt8} {t : Bytes} {first : Bool} (hc : c ≠ opening) :
    DomainForm first (c :: t) ↔ isAlnum c = true ∧ LabelRest c 1 t := by
  rw [domainForm_iff]
  constructor
  · rintro (⟨l, ⟨hl, hlen⟩, h⟩ | ⟨body, heq, -⟩)
    · obtain ⟨c', hhead, halnum⟩ := hl.starts
      obtain ⟨q, rfl⟩ : ∃ q, l = c' :: q := by
        cases l with
        | nil => simp at hhead
        | cons e q => exact ⟨q, by rw [Option.some.inj hhead]⟩
      obtain ⟨e, hlast, he⟩ := hl.ends
      have hhyphen : (c' :: q).getLast? ≠ some hyphen := by
        rw [hlast]
        intro heq
        exact (ne_of_isAlnum he).2.2 (Option.some.inj heq)
      have hinside : ∀ c ∈ q, isLabelChar c := fun c hc => hl.inside c (List.mem_cons_of_mem _ hc)
      have hcount : 1 + q.length ≤ domainLabelMaxLen := by
        simp only [List.length_cons] at hlen
        omega
      rcases h with heq | ⟨rest, heq, hrest⟩
      · obtain ⟨rfl, rfl⟩ := List.cons.inj heq
        exact ⟨halnum, _, hinside, hcount, hhyphen, .inl rfl⟩
      · obtain ⟨rfl, rfl⟩ := List.cons.inj heq
        exact ⟨halnum, _, hinside, hcount, hhyphen, .inr ⟨rest, rfl, hrest⟩⟩
    · exact absurd (List.cons.inj heq).1 hc
  · rintro ⟨halnum, q, hinside, hcount, hhyphen, h⟩
    have hall : ∀ e ∈ c :: q, isLabelChar e := List.forall_mem_cons.mpr ⟨.inl halnum, hinside⟩
    have hlabel : ShortLabel (c :: q) := by
      refine ⟨⟨⟨c, rfl, halnum⟩, ?_, hall⟩, ?_⟩
      · obtain ⟨e, he⟩ : ∃ e, (c :: q).getLast? = some e := ⟨_, List.getLast?_cons⟩
        refine ⟨e, he, (hall e (List.mem_of_getLast? he)).resolve_right ?_⟩
        rintro rfl
        exact hhyphen he
      · simp only [List.length_cons]
        omega
    rcases h with rfl | ⟨rest, rfl, hrest⟩
    · exact .inl ⟨_, hlabel, .inl rfl⟩
    · exact .inl ⟨_, hlabel, .inr ⟨rest, rfl, hrest⟩⟩

theorem labelRest_nil {prev : UInt8} {n : Nat} (hn : n ≤ domainLabelMaxLen) :
    LabelRest prev n [] ↔ prev ≠ hyphen := by
  constructor
  · rintro ⟨q, -, -, hhyphen, heq | ⟨rest, heq, -⟩⟩
    · subst heq
      simpa using hhyphen
    · simp at heq
  · intro h
    exact ⟨[], by simp, hn, by simpa using h, .inl rfl⟩

theorem labelRest_cons {prev c : UInt8} {n : Nat} {t : Bytes} (hn : n ≤ domainLabelMaxLen) :
    LabelRest prev n (c :: t)
      ↔ c = dot ∧ prev ≠ hyphen ∧ DomainForm false t
        ∨ isLabelChar c ∧ LabelRest c (n + 1) t := by
  constructor
  · rintro ⟨q, hinside, hcount, hhyphen, h⟩
    cases q with
    | nil =>
        obtain ⟨rest, heq, hrest⟩ := h.resolve_left (by simp)
        obtain ⟨rfl, rfl⟩ := List.cons.inj heq
        exact .inl ⟨rfl, by simpa using hhyphen, hrest⟩
    | cons e q =>
        obtain ⟨he, hmore⟩ := List.forall_mem_cons.mp hinside
        have hcount' : n + 1 + q.length ≤ domainLabelMaxLen := by
          simp only [List.length_cons] at hcount
          omega
        rw [List.getLast?_cons_cons] at hhyphen
        rcases h with heq | ⟨rest, heq, hrest⟩ <;> obtain ⟨rfl, rfl⟩ := List.cons.inj heq
        · exact .inr ⟨he, _, hmore, hcount', hhyphen, .inl rfl⟩
        · exact .inr ⟨he, q, hmore, hcount', hhyphen, .inr ⟨rest, rfl, hrest⟩⟩
  · rintro (⟨rfl, hprev, hrest⟩ | ⟨hc, q, hinside, hcount, hhyphen, h⟩)
    · exact ⟨[], by simp, hn, by simpa using hprev, .inr ⟨t, rfl, hrest⟩⟩
    · refine ⟨c :: q, List.forall_mem_cons.mpr ⟨hc, hinside⟩, ?_, ?_, ?_⟩
      · simp only [List.length_cons]
        omega
      · rwa [List.getLast?_cons_cons]
      · rcases h with rfl | ⟨rest, rfl, hrest⟩
        · exact .inl rfl
        · exact .inr ⟨rest, rfl, hrest⟩

theorem not_domainForm_nil {first : Bool} : ¬DomainForm first [] := by
  rw [domainForm_iff]
  rintro (⟨l, ⟨hl, -⟩, heq | ⟨rest, heq, -⟩⟩ | ⟨body, heq, -⟩)
  · obtain ⟨c, hhead, -⟩ := hl.starts
    simp [← heq] at hhead
  · simp at heq
  · simp [bracketed] at heq

theorem domainForm_opening {first : Bool} {t : Bytes} :
    DomainForm first (opening :: t)
      ↔ ∃ body, t = body ++ [closing] ∧ Dcontent body ∧ (first = true → body ≠ []) := by
  rw [domainForm_iff]
  constructor
  · rintro (⟨l, ⟨hl, -⟩, h⟩ | ⟨body, heq, hbody, hne⟩)
    · obtain ⟨c, hhead, hc⟩ := hl.starts
      obtain ⟨q, rfl⟩ : ∃ q, l = c :: q := by
        cases l with
        | nil => simp at hhead
        | cons e q => exact ⟨q, by rw [Option.some.inj hhead]⟩
      have hopening : c = opening := by
        rcases h with heq | ⟨rest, heq, -⟩ <;> exact (List.cons.inj heq).1.symm
      exact absurd hopening (ne_of_isAlnum hc).1
    · exact ⟨body, (List.cons.inj heq).2, hbody, hne⟩
  · rintro ⟨body, rfl, hbody, hne⟩
    exact .inr ⟨body, rfl, hbody, hne⟩

/-- What a literal goes on with. -/
theorem closing_iff {c : UInt8} {t : Bytes} {q : Bytes → Prop} :
    (∃ body, c :: t = body ++ [closing] ∧ Dcontent body ∧ q body)
      ↔ c = closing ∧ t = [] ∧ q []
        ∨ isDlit c = true ∧ ∃ body, t = body ++ [closing] ∧ Dcontent body ∧ q (c :: body) := by
  constructor
  · rintro ⟨body, heq, hbody, hq⟩
    cases body with
    | nil =>
        obtain ⟨rfl, rfl⟩ := List.cons.inj heq
        exact .inl ⟨rfl, rfl, hq⟩
    | cons e body =>
        obtain ⟨rfl, rfl⟩ := List.cons.inj heq
        obtain ⟨he, hmore⟩ := List.forall_mem_cons.mp hbody
        exact .inr ⟨he, body, rfl, hmore, hq⟩
  · rintro (⟨rfl, rfl, hq⟩ | ⟨hc, body, rfl, hbody, hq⟩)
    · exact ⟨[], rfl, by simp [Dcontent], hq⟩
    · exact ⟨c :: body, rfl, List.forall_mem_cons.mpr ⟨hc, hbody⟩, hq⟩

/-- From the byte behind `c` on, the scan succeeds exactly on what its state accepts. -/
def ScansFrom (addr : Bytes) (c : UInt8) (i : Nat) (d : Bytes) : Prop :=
  ∀ state labelLen domainLen, domainLen ≤ i → labelLen ≤ domainLabelMaxLen →
    (parseDomainLoop addr d (i + 1) ⟨state, labelLen, domainLen⟩ = .ok ()
      ↔ DomainRest c ⟨state, labelLen, domainLen⟩ d ∨ state = .literalDone ∧ d = [])

section Steps

variable {addr d : Bytes} {prev c : UInt8} {i labelLen domainLen : Nat}

theorem parseDomainLoop_labelStart (ih : ScansFrom addr c i d) (hcount : domainLen + 1 ≤ i)
    (hlabel : labelLen ≤ domainLabelMaxLen) :
    parseDomainLoop addr (c :: d) i ⟨.labelStart, labelLen, domainLen⟩ = .ok ()
      ↔ DomainForm (domainLen == 0) (c :: d) := by
  rw [parseDomainLoop]
  simp only [stepDomain, stepDomainLabelStart]
  by_cases hopening : c = opening
  · subst hopening
    have htail := ih .literal labelLen domainLen (by omega) hlabel
    rw [if_pos rfl]
    simp only [reduceCtorEq, if_false, htail, DomainRest, domainForm_opening, false_and, or_false]
  rw [if_neg hopening, labelStart_iff hopening]
  by_cases hdot : c = dot
  · subst hdot
    simp [show isAlnum dot = false from rfl]
  rw [if_neg hdot]
  by_cases hhyphen : c = hyphen
  · subst hhyphen
    simp [show isAlnum hyphen = false from rfl]
  rw [if_neg hhyphen]
  by_cases halnum : isAlnum c = true
  · have htail := ih .labelChar 1 (domainLen + 1) hcount (by decide)
    rw [if_pos halnum]
    simp only [reduceCtorEq, if_false, htail, DomainRest, halnum, true_and, false_and, or_false]
  · simp [halnum]

theorem parseDomainLoop_labelChar (ih : ScansFrom addr c i d) (hcount : domainLen + 1 ≤ i)
    (hlabel : labelLen ≤ domainLabelMaxLen) (hprev : addr[i - 1]? = some prev)
    (hdomain : ¬domainMaxLen < domainLen + 1) :
    parseDomainLoop addr (c :: d) i ⟨.labelChar, labelLen, domainLen⟩ = .ok ()
      ↔ LabelRest prev labelLen (c :: d) := by
  rw [parseDomainLoop]
  simp only [stepDomain, stepDomainLabelChar, labelRest_cons hlabel, hprev, Option.some.injEq]
  by_cases hdot : c = dot
  · subst hdot
    have hnot : ¬isLabelChar dot := fun h => (ne_of_isLabelChar h).1 rfl
    rw [if_pos rfl]
    by_cases hhyphen : prev = hyphen
    · simp [hhyphen, hnot]
    · have htail := ih .labelStart 0 (domainLen + 1) hcount (by decide)
      have hfirst : (domainLen + 1 == 0) = false := rfl
      simp only [DomainScan.checked, Nat.not_lt_zero, if_false, hdomain, reduceCtorEq, htail,
        DomainRest, hfirst, hnot, hhyphen, not_false_eq_true, true_and, false_and, or_false, ne_eq]
  rw [if_neg hdot]
  by_cases hchar : isLabelChar c
  · have hor : c = hyphen ∨ isAlnum c = true := Or.symm hchar
    rw [if_pos hor]
    by_cases hlimit : domainLabelMaxLen < labelLen + 1
    · have hnone : ¬LabelRest c (labelLen + 1) d := by
        rintro ⟨q, -, hle, -⟩
        omega
      simp [DomainScan.checked, hlimit, hdot, hnone]
    · have htail := ih .labelChar (labelLen + 1) (domainLen + 1) hcount (by omega)
      simp only [DomainScan.checked, hlimit, hdomain, if_false, reduceCtorEq, htail, DomainRest,
        hdot, hchar, true_and, false_and, false_or, or_false]
  · have hor : ¬(c = hyphen ∨ isAlnum c = true) := fun h => hchar h.symm
    rw [if_neg hor]
    simp [hdot, hchar]

theorem parseDomainLoop_literal (ih : ScansFrom addr c i d) (hcount : domainLen + 1 ≤ i)
    (hlabel : labelLen ≤ domainLabelMaxLen) (hlast : i ≠ addr.length - 1 ↔ d ≠ []) :
    parseDomainLoop addr (c :: d) i ⟨.literal, labelLen, domainLen⟩ = .ok ()
      ↔ ∃ body, c :: d = body ++ [closing] ∧ Dcontent body
        ∧ ((domainLen == 0) = true → body ≠ []) := by
  rw [parseDomainLoop]
  simp only [stepDomain, stepDomainLiteral, closing_iff]
  by_cases hclosing : c = closing
  · subst hclosing
    have hnot : isDlit closing = false := rfl
    rw [if_pos rfl]
    by_cases hzero : domainLen = 0
    · simp [hzero, hnot]
    · by_cases hempty : d = []
      · have hpos : ¬i ≠ addr.length - 1 := fun h => hlast.mp h hempty
        simp [hzero, hpos, hnot, hempty]
      · simp [hzero, hlast.mpr hempty, hnot, hempty]
  rw [if_neg hclosing]
  by_cases hdlit : isDlit c = true
  · have htail := ih .literal labelLen (domainLen + 1) hcount hlabel
    rw [if_pos hdlit]
    simp only [reduceCtorEq, if_false, htail, DomainRest, hclosing, hdlit, false_and, false_or,
      or_false, true_and]
    simp
  · simp [hclosing, hdlit]

end Steps

/-- **The domain.** The scan succeeds exactly on what its state accepts. -/
theorem parseDomainLoop_eq_ok {addr front d : Bytes} {prev : UInt8} {s : DomainScan}
    (haddr : addr = front ++ prev :: d) (hlen : addr.length ≤ addressMaxLen)
    (hcount : s.domainLen ≤ front.length) (hlabel : s.labelLen ≤ domainLabelMaxLen) :
    parseDomainLoop addr d (front.length + 1) s = .ok ()
      ↔ DomainRest prev s d ∨ s.state = .literalDone ∧ d = [] := by
  obtain ⟨state, labelLen, domainLen⟩ := s
  dsimp only at hcount hlabel ⊢
  induction d generalizing front prev state labelLen domainLen with
  | nil =>
      have hlast : addr[addr.length - 1]? = some prev := by simp [haddr]
      cases state with
      | labelStart => simp [parseDomainLoop, DomainRest, not_domainForm_nil]
      | labelChar =>
          simp only [parseDomainLoop, DomainRest, hlast, Option.some.injEq, labelRest_nil hlabel]
          split <;> simp_all
      | literal => simp [parseDomainLoop, DomainRest]
      | literalDone => simp [parseDomainLoop, DomainRest]
  | cons c d ih =>
      have hsplit : addr = (front ++ [prev]) ++ c :: d := by simp [haddr]
      have hroom : front.length + 2 + d.length ≤ addressMaxLen := by
        rw [haddr] at hlen
        simp only [List.length_append, List.length_cons] at hlen
        omega
      have hscans : ScansFrom addr c (front.length + 1) d := by
        intro state labelLen domainLen hcount hlabel
        have htail := ih hsplit state labelLen domainLen (by simpa using hcount) hlabel
        rwa [List.length_append, List.length_singleton] at htail
      have hcount' : domainLen + 1 ≤ front.length + 1 := Nat.succ_le_succ hcount
      cases state with
      | labelStart =>
          rw [parseDomainLoop_labelStart hscans hcount' hlabel]
          simp [DomainRest]
      | labelChar =>
          have hprev : addr[front.length + 1 - 1]? = some prev := by simp [haddr]
          have hdomain : ¬domainMaxLen < domainLen + 1 := by
            unfold addressMaxLen at hroom
            unfold domainMaxLen
            omega
          rw [parseDomainLoop_labelChar hscans hcount' hlabel hprev hdomain]
          simp [DomainRest]
      | literal =>
          have hlast : front.length + 1 ≠ addr.length - 1 ↔ d ≠ [] := by
            rw [haddr, ← List.length_pos_iff]
            simp only [List.length_append, List.length_cons]
            omega
          rw [parseDomainLoop_literal hscans hcount' hlabel hlast]
          simp [DomainRest]
      | literalDone => simp [parseDomainLoop, stepDomain, DomainRest]

/-! ### The whole address -/

/-- A dot-string, or a quoted string and what continues it; with the number of characters that
count. -/
inductive LocalForm : Bytes → Nat → Prop where
  | dots {s : Bytes} (h : DotString s) : LocalForm s s.length
  | quoted {items : List QuotedItem} {tail : Bytes} (hne : items ≠ [])
      (htail : Trailer dot isAtext tail) :
      LocalForm (quote :: (quoted items ++ quote :: tail)) (items.length + tail.length)

theorem localRest_start {s : Bytes} {n : Nat} : LocalRest .start s n ↔ LocalForm s n := by
  constructor
  · rintro (⟨h, rfl⟩ | ⟨rest, rfl, items, tail, hne, rfl, htail, rfl⟩)
    · exact .dots h
    · exact .quoted hne htail
  · intro h
    cases h with
    | dots h => exact .inl ⟨h, rfl⟩
    | quoted hne htail => exact .inr ⟨_, rfl, _, _, hne, rfl, htail, rfl⟩

theorem parseDomain_eq_ok {s d : Bytes} (hlen : (s ++ at_ :: d).length ≤ addressMaxLen) :
    parseDomain (s ++ at_ :: d) (s.length + 1) = .ok () ↔ DomainForm true d := by
  have hdrop : (s ++ at_ :: d).drop (s.length + 1) = d := by
    rw [← List.drop_drop, List.drop_left]
    rfl
  rw [parseDomain, hdrop, parseDomainLoop_eq_ok rfl hlen (Nat.zero_le _) (Nat.zero_le _)]
  simp [DomainRest]

/-- **The accepted addresses.** -/
theorem validate_eq_ok {addr : Bytes} :
    validate addr = .ok ()
      ↔ addr.length ≤ addressMaxLen ∧ ∃ s n d, addr = s ++ at_ :: d ∧ LocalForm s n
        ∧ n ≤ localPartMaxLen ∧ DomainForm true d := by
  unfold validate
  constructor
  · intro h
    split at h
    · cases h
    split at h
    · cases h
    rename_i hlen
    split at h
    · cases h
    rename_i j hlocal
    obtain ⟨s, d, n, rfl, hrest, hle, rfl⟩ := parseLocalPart_eq_ok.mp hlocal
    have hlen' : (s ++ at_ :: d).length ≤ addressMaxLen := by omega
    exact ⟨hlen', s, n, d, rfl, localRest_start.mp hrest, hle, (parseDomain_eq_ok hlen').mp h⟩
  · rintro ⟨hlen, s, n, d, rfl, hlocal, hle, hdomain⟩
    have hparsed : parseLocalPart (s ++ at_ :: d) = .ok s.length :=
      parseLocalPart_eq_ok.mpr ⟨s, d, n, rfl, localRest_start.mpr hlocal, hle, rfl⟩
    rw [if_neg (by simp), if_neg (by omega), hparsed]
    exact (parseDomain_eq_ok hlen).mpr hdomain

/-- An address splits at its separating `@` in one way. -/
theorem localForm_inj {s s' d d' : Bytes} {n n' : Nat} (h : LocalForm s n) (h' : LocalForm s' n')
    (heq : s ++ at_ :: d = s' ++ at_ :: d') : s = s' ∧ d = d' := by
  obtain ⟨rfl, -⟩ := localRest_inj (localRest_start.mpr h) (localRest_start.mpr h') heq
  exact ⟨rfl, (List.cons.inj (List.append_cancel_left heq)).2⟩

end Address

end SmtpClient
