import SmtpClient.Proof.AddressGrammar

/-!
# The length limits of accepted addresses

The domain, its labels and the whole address are within their limits, in octets of the input. The
counter of the local-part misses the quotes around a quoted string and the backslashes in it, so
that a quoted local-part may be longer than the limit by these.
-/

namespace SmtpClient

namespace Address

def QuotedItem.isPair : QuotedItem → Bool
  | .text _ => false
  | .pair _ => true

theorem length_quoted (items : List QuotedItem) :
    (quoted items).length = items.length + items.countP QuotedItem.isPair := by
  induction items with
  | nil => rfl
  | cons item items ih =>
      have hcons : quoted (item :: items) = item.render ++ quoted items := rfl
      rw [hcons, List.length_append, ih, List.countP_cons, List.length_cons]
      cases item <;> simp only [QuotedItem.render, QuotedItem.isPair, List.length_cons,
        List.length_nil, if_true, Bool.false_eq_true, if_false] <;> omega

/-- The domain in front of an address literal; a literal has no labels. -/
def inFront (d : Bytes) : Bytes := d.takeWhile (· ≠ opening)

structure Limits (s d : Bytes) : Prop where
  localPart : s.length ≤ 64
  label : ∀ l ∈ (inFront d).splitOn dot, l.length ≤ 63
  domain : d.length ≤ 255
  total : (s ++ at_ :: d).length ≤ 256

/-- An address with a quoted string in which the characters that count are within the limit, but not
together with the two quotes and one backslash for each pair. -/
def HiddenOctets (addr : Bytes) : Prop :=
  addr.length ≤ addressMaxLen ∧ ∃ (items : List QuotedItem) (tail d : Bytes),
    addr = quote :: (quoted items ++ quote :: tail) ++ at_ :: d ∧ items ≠ []
      ∧ Trailer dot isAtext tail ∧ DomainForm true d
      ∧ items.length + tail.length ≤ 64
      ∧ 64 < items.length + tail.length + 2 + items.countP QuotedItem.isPair

/-! ### Labels -/

theorem ShortLabel.free {l : Bytes} (h : ShortLabel l) : dot ∉ l ∧ opening ∉ l := by
  constructor <;> intro hmem
  · exact (ne_of_isLabelChar (h.1.inside _ hmem)).1 rfl
  · exact (ne_of_isLabelChar (h.1.inside _ hmem)).2 rfl

theorem splitOn_labels {s : Bytes} (h : Joined dot ShortLabel s) :
    ∀ l ∈ s.splitOn dot, ShortLabel l := by
  induction h with
  | one hlabel =>
      rw [List.splitOn_eq_singleton hlabel.free.1]
      intro l hl
      rwa [List.mem_singleton.mp hl]
  | more hlabel _ ih =>
      rw [List.splitOn_append_cons_self_of_not_mem hlabel.free.1]
      exact List.forall_mem_cons.mpr ⟨hlabel, ih⟩

theorem opening_not_mem {s : Bytes} (h : Joined dot ShortLabel s) : opening ∉ s := by
  intro hmem
  have hall := h.forall_mem (q := fun c => c ≠ opening)
    (fun l hl c hc heq => hl.free.2 (heq ▸ hc)) (by decide)
  exact hall opening hmem rfl

theorem inFront_append {s : Bytes} (h : opening ∉ s) (rest : Bytes) :
    inFront (s ++ rest) = s ++ inFront rest :=
  List.takeWhile_append_of_pos fun _ hc => decide_eq_true (ne_of_mem_of_not_mem hc h)

/-- The labels of a domain, in front of its literal if it has one, are short. -/
theorem DomainForm.label {first : Bool} {d : Bytes} (h : DomainForm first d) :
    ∀ l ∈ (inFront d).splitOn dot, l.length ≤ 63 := by
  have hempty : ∀ l ∈ ([] : Bytes).splitOn dot, l.length ≤ 63 := by
    rw [List.splitOn_nil]
    intro l hl
    rw [List.mem_singleton.mp hl]
    exact Nat.zero_le _
  cases h with
  | labels h =>
      have hfront : inFront d = d := by
        calc inFront d = inFront (d ++ []) := by rw [List.append_nil]
          _ = d ++ inFront [] := inFront_append (opening_not_mem h) []
          _ = d := List.append_nil d
      rw [hfront]
      exact fun l hl => (splitOn_labels h l hl).2
  | literal => exact hempty
  | @mixed s body h =>
      have hfront : inFront (dot :: bracketed body) = [dot] := rfl
      rw [inFront_append (opening_not_mem h), hfront, List.splitOn_append_cons_self]
      intro l hl
      rcases List.mem_append.mp hl with hl | hl
      · exact (splitOn_labels h l hl).2
      · exact hempty l hl

/-- **When the limits hold.** Every accepted address is within all limits, unless it has a quoted
local-part that the quotes and backslashes the counter misses take over its limit. -/
theorem limits_iff (addr : Bytes) :
    (validate addr = .ok () → ∀ s d, addr = s ++ at_ :: d → parseLocalPart addr = .ok s.length →
        Limits s d)
      ↔ ¬HiddenOctets addr := by
  constructor
  · rintro hlimits ⟨hlen, items, tail, d, rfl, hne, htail, hdomain, hcount, hlong⟩
    have hlocal := LocalForm.quoted hne htail
    have haccepted := validate_eq_ok.mpr ⟨hlen, _, _, d, rfl, hlocal, hcount, hdomain⟩
    have hat := parseLocalPart_eq_ok.mpr ⟨_, d, _, rfl, localRest_start.mpr hlocal, hcount, rfl⟩
    have hshort := (hlimits haccepted _ d rfl hat).localPart
    simp only [List.length_cons, List.length_append, length_quoted] at hshort
    omega
  · intro hhidden haccepted s d haddr hat
    obtain ⟨hlen, s', n, d', haddr', hlocal, hcount, hdomain⟩ := validate_eq_ok.mp haccepted
    obtain ⟨s'', r, m, haddr'', hrest, -, hlength⟩ := parseLocalPart_eq_ok.mp hat
    obtain ⟨rfl, rfl⟩ := localForm_inj hlocal (localRest_start.mp hrest) (haddr'.symm.trans haddr'')
    -- The separating `@` stands behind as many bytes as both local-parts have.
    obtain ⟨rfl, hbehind⟩ := List.append_inj (haddr.symm.trans haddr') hlength
    obtain rfl : d = d' := (List.cons.inj hbehind).2
    rw [haddr] at hlen
    have hlen' := hlen
    rw [List.length_append, List.length_cons, addressMaxLen] at hlen'
    refine ⟨?_, hdomain.label, by omega, hlen⟩
    cases hlocal with
    | dots => exact hcount
    | @quoted items tail hne htail =>
        by_contra hlong
        refine hhidden ⟨haddr ▸ hlen, items, tail, d, haddr, hne, htail, hdomain, hcount, ?_⟩
        simp only [List.length_cons, List.length_append, length_quoted] at hlong
        omega

/-- Sixty-three characters in quotes are sixty-five octets. -/
theorem quoted_too_long :
    ¬(validate (quote :: (List.replicate 63 97 ++ [quote, at_, 120])) = .ok () →
      ∀ s d, quote :: (List.replicate 63 97 ++ [quote, at_, 120]) = s ++ at_ :: d →
        parseLocalPart (quote :: (List.replicate 63 97 ++ [quote, at_, 120])) = .ok s.length →
          Limits s d) := by
  intro h
  have haccepted : validate (quote :: (List.replicate 63 97 ++ [quote, at_, 120])) = .ok () := by
    decide +kernel
  have hat : parseLocalPart (quote :: (List.replicate 63 97 ++ [quote, at_, 120]))
      = .ok (quote :: (List.replicate 63 97 ++ [quote])).length := by
    decide +kernel
  have hshort := (h haccepted _ [120] (by simp) hat).localPart
  exact absurd hshort (by decide)

end Address

end SmtpClient
