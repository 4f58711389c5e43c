import SmtpClient.Proof.LengthLimits

/-!
# Mailboxes

Every mailbox within the limits is accepted. The converse has its exceptions: the closing quote of a
local-part leads to the state in which an atom goes on, and a bracket is taken at the start of any
label. An accepted address is a mailbox exactly when neither is made use of.
-/

namespace SmtpClient

namespace Address

def QuotedString (s : Bytes) : Prop :=
  ∃ items : List QuotedItem, items ≠ [] ∧ s = quote :: (quoted items ++ [quote])

def AddressLiteral (d : Bytes) : Prop :=
  ∃ body : Bytes, body ≠ [] ∧ Dcontent body ∧ d = bracketed body

/-- `Local-part "@" ( Domain / address-literal )`. -/
def Mailbox (addr : Bytes) : Prop :=
  ∃ s d, addr = s ++ at_ :: d ∧ (DotString s ∨ QuotedString s)
    ∧ (Joined dot Label d ∨ AddressLiteral d)

/-- **No mailbox is refused.** -/
theorem validate_mailbox {s d : Bytes} (hlocal : DotString s ∨ QuotedString s)
    (hshort : s.length ≤ 64) (hdomain : Joined dot ShortLabel d ∨ AddressLiteral d)
    (htotal : (s ++ at_ :: d).length ≤ 256) : validate (s ++ at_ :: d) = .ok () := by
  have hform : DomainForm true d := by
    rcases hdomain with hlabels | ⟨body, hne, hbody, rfl⟩
    · exact .labels hlabels
    · exact .literal hbody fun _ => hne
  have hcount : ∃ n, LocalForm s n ∧ n ≤ localPartMaxLen := by
    rcases hlocal with hdots | ⟨items, hne, rfl⟩
    · exact ⟨_, .dots hdots, hshort⟩
    · refine ⟨_, .quoted hne trailer_nil, ?_⟩
      -- The quotes and the backslashes of pairs are not counted.
      simp only [List.length_cons, List.length_append, length_quoted] at hshort
      simp only [localPartMaxLen, List.length_nil]
      omega
  obtain ⟨n, hlocal, hle⟩ := hcount
  exact validate_eq_ok.mpr ⟨htotal, s, n, d, rfl, hlocal, hle, hform⟩

/-- `"a@. "@[1]`. -/
theorem validate_mailbox_quoted :
    validate ([34, 97, 64, 46, 32, 34] ++ at_ :: [91, 49, 93]) = .ok () := by
  refine validate_mailbox (.inr ?_) (by decide) (.inr ?_) (by decide)
  · exact ⟨[.text ⟨97, rfl⟩, .text ⟨64, rfl⟩, .text ⟨46, rfl⟩, .text ⟨32, rfl⟩], by simp, rfl⟩
  · exact ⟨[49], by simp, fun c hc => by rw [List.mem_singleton.mp hc]; rfl, rfl⟩

/-- A quoted string with more behind its closing quote. -/
def Continued (s : Bytes) : Prop :=
  ∃ (items : List QuotedItem) (tail : Bytes), tail ≠ []
    ∧ s = quote :: (quoted items ++ quote :: tail)

/-- A literal with labels in front of it. -/
def LabelledLiteral (d : Bytes) : Prop :=
  ∃ s body : Bytes, Joined dot ShortLabel s ∧ d = s ++ dot :: bracketed body

/-- An address within the limits whose quoted string is continued or whose literal is labelled. -/
def Hybrid (addr : Bytes) : Prop :=
  addr.length ≤ addressMaxLen ∧ ∃ s n d, addr = s ++ at_ :: d ∧ LocalForm s n
    ∧ n ≤ localPartMaxLen ∧ DomainForm true d ∧ (Continued s ∨ LabelledLiteral d)

theorem quoted_inj {items items' : List QuotedItem} {t t' : Bytes}
    (h : quoted items ++ quote :: t = quoted items' ++ quote :: t') : t = t' := by
  have hcons (item : QuotedItem) (rest : List QuotedItem) :
      quoted (item :: rest) = item.render ++ quoted rest := rfl
  have hne (item : QuotedItem) : ∃ c more, item.render = c :: more ∧ c ≠ quote := by
    cases item with
    | text c => exact ⟨_, _, rfl, (ne_of_isQtext c.property).1⟩
    | pair c => exact ⟨_, _, rfl, by decide⟩
  induction items generalizing items' with
  | nil =>
      cases items' with
      | nil => exact (List.cons.inj h).2
      | cons item rest =>
          obtain ⟨c, more, hrender, hquote⟩ := hne item
          rw [hcons, hrender] at h
          exact absurd (List.cons.inj h).1.symm hquote
  | cons item rest ih =>
      cases items' with
      | nil =>
          obtain ⟨c, more, hrender, hquote⟩ := hne item
          rw [hcons, hrender] at h
          exact absurd (List.cons.inj h).1 hquote
      | cons item' rest' =>
          rw [hcons, hcons, List.append_assoc, List.append_assoc] at h
          cases item with
          | text c =>
              cases item' with
              | text c' => exact ih (List.cons.inj h).2
              | pair c' => exact absurd (List.cons.inj h).1 (ne_of_isQtext c.property).2
          | pair c =>
              cases item' with
              | text c' => exact absurd (List.cons.inj h).1.symm (ne_of_isQtext c'.property).2
              | pair c' => exact ih (List.cons.inj (List.cons.inj h).2).2

theorem not_continued {s : Bytes} (h : DotString s ∨ QuotedString s) : ¬Continued s := by
  rintro ⟨items, tail, hne, rfl⟩
  rcases h with hdots | ⟨items', -, heq⟩
  · exact (ne_of_isAtext (joined_run_cons.mp hdots).1).1 rfl
  · exact hne (quoted_inj (List.cons.inj heq).2)

theorem Label.exists_cons {l : Bytes} (h : Label l) : ∃ c t, l = c :: t ∧ isAlnum c = true := by
  obtain ⟨c, hhead, hc⟩ := h.starts
  cases l with
  | nil => simp at hhead
  | cons e t => exact ⟨e, t, rfl, by rwa [Option.some.inj hhead]⟩

theorem not_labelledLiteral {d : Bytes} (h : Joined dot Label d ∨ AddressLiteral d) :
    ¬LabelledLiteral d := by
  rintro ⟨s, body, hs, rfl⟩
  rcases h with hlabels | ⟨body', -, -, heq⟩
  · have hall := hlabels.forall_mem (q := fun c => isLabelChar c ∨ c = dot)
      (fun l hl c hc => .inl (hl.inside c hc)) (.inr rfl)
    rcases hall opening (by simp [bracketed]) with hchar | hdot
    · exact (ne_of_isLabelChar hchar).2 rfl
    · exact absurd hdot (by decide)
  · obtain ⟨c, t, rfl, hc⟩ := hs.exists_cons fun l hl => hl.1.exists_cons
    exact absurd (List.cons.inj heq).1 (ne_of_isAlnum hc).1

/-- A hybrid is accepted, and is no mailbox. -/
theorem Hybrid.accepted {addr : Bytes} (h : Hybrid addr) :
    validate addr = .ok () ∧ ¬Mailbox addr := by
  obtain ⟨hlen, s, n, d, rfl, hlocal, hle, hdomain, hform⟩ := h
  refine ⟨validate_eq_ok.mpr ⟨hlen, s, n, d, rfl, hlocal, hle, hdomain⟩, ?_⟩
  rintro ⟨s', d', heq, hlocal', hdomain'⟩
  have hform' : ∃ n', LocalForm s' n' := by
    rcases hlocal' with hdots | ⟨items, hne, rfl⟩
    · exact ⟨_, .dots hdots⟩
    · exact ⟨_, .quoted hne trailer_nil⟩
  obtain ⟨n', hform'⟩ := hform'
  obtain ⟨rfl, rfl⟩ := localForm_inj hlocal hform' heq
  rcases hform with hcontinued | hlabelled
  · exact not_continued hlocal' hcontinued
  · exact not_labelledLiteral hdomain' hlabelled

/-- **What the validator accepts is a mailbox,** unless it is a hybrid. -/
theorem mailbox_of_validate_iff (addr : Bytes) :
    (validate addr = .ok () → Mailbox addr) ↔ ¬Hybrid addr := by
  constructor
  · intro h hhybrid
    obtain ⟨haccepted, hnot⟩ := hhybrid.accepted
    exact hnot (h haccepted)
  · intro hnot haccepted
    obtain ⟨hlen, s, n, d, rfl, hlocal, hle, hdomain⟩ := validate_eq_ok.mp haccepted
    have hhybrid (h : Continued s ∨ LabelledLiteral d) : False :=
      hnot ⟨hlen, s, n, d, rfl, hlocal, hle, hdomain, h⟩
    refine ⟨s, d, rfl, ?_, ?_⟩
    · cases hlocal with
      | dots hdots => exact .inl hdots
      | @quoted items tail hne htail =>
          by_cases hempty : tail = []
          · exact .inr ⟨items, hne, by rw [hempty]⟩
          · exact (hhybrid (.inl ⟨items, tail, hempty, rfl⟩)).elim
    · cases hdomain with
      | labels h => exact .inl (h.imp fun _ hl => hl.1)
      | literal hbody hne => exact .inr ⟨_, hne rfl, hbody, rfl⟩
      | mixed h hbody => exact (hhybrid (.inr ⟨_, _, h, rfl⟩)).elim

/-- An atom behind a closing quote: `"a"b@x`. -/
theorem continued_accepted :
    ¬(validate [34, 97, 34, 98, 64, 120] = .ok () → Mailbox [34, 97, 34, 98, 64, 120]) := by
  intro h
  have hinside : ∀ c ∈ ([120] : Bytes), isAlnum c = true ∨ c = hyphen := by
    intro c hc
    obtain rfl := List.mem_singleton.mp hc
    exact .inl rfl
  have hdomain : DomainForm true [120] :=
    .labels (.one ⟨⟨⟨120, rfl, rfl⟩, ⟨120, rfl, rfl⟩, hinside⟩, by decide⟩)
  have hlocal : LocalForm [34, 97, 34, 98] 2 :=
    @LocalForm.quoted [.text ⟨97, rfl⟩] [98] (by simp) (trailer_cons.mpr (.inl ⟨rfl, trailer_nil⟩))
  have hhybrid : Hybrid [34, 97, 34, 98, 64, 120] :=
    ⟨by decide, _, _, [120], rfl, hlocal, by decide, hdomain,
      .inl ⟨[.text ⟨97, rfl⟩], [98], by simp, rfl⟩⟩
  exact hhybrid.accepted.2 (h hhybrid.accepted.1)

end Address

end SmtpClient
