import SmtpClient.Base.Buffer

/-!
# Base64

The decoder of RFC 4648: quanta of four characters of the alphabet, of which the last may end in one
or two pads. It decodes exactly the texts of characters and at most two pads behind them whose
length is a multiple of four.
-/

namespace SmtpClient

namespace Base64

def alphabet : Bytes := bytes "ABCDEFGHIJKLMNOPQRSTUVWXYZabcdefghijklmnopqrstuvwxyz0123456789+/"

def pad : UInt8 := 61

/-- The six bits a character stands for. -/
def value (c : UInt8) : Option Nat := alphabet.idxOf? c

/-- The first `n` octets of the 24 bits of a quantum. -/
def octets (n a b c d : Nat) : Bytes :=
  let bits := ((a * 64 + b) * 64 + c) * 64 + d
  ([bits / 65536, bits / 256, bits].take n).map UInt8.ofNat

/-- A quantum with its pads. -/
def quantum (a b c d : UInt8) (last : Bool) : Option Bytes := do
  let first ← value a
  let second ← value b
  if last && c == pad && d == pad then return octets 1 first second 0 0
  let third ← value c
  if last && d == pad then return octets 2 first second third 0
  return octets 3 first second third (← value d)

def decode : Bytes → Option Bytes
  | [] => some []
  | a :: b :: c :: d :: rest => do
      let front ← quantum a b c d rest.isEmpty
      return front ++ (← decode rest)
  | _ => none

/-- Characters of the alphabet, then at most two pads, a multiple of four in all. -/
def WellFormed (text : Bytes) : Prop :=
  ∃ (body : Bytes) (pads : Nat), text = body ++ List.replicate pads pad
    ∧ (∀ c ∈ body, c ∈ alphabet) ∧ pads ≤ 2 ∧ 4 ∣ text.length

theorem value_isSome {c : UInt8} : (value c).isSome ↔ c ∈ alphabet := by
  rw [value, List.isSome_idxOf?]

theorem pad_not_mem : pad ∉ alphabet := by decide

theorem quantum_full {a b c d : UInt8} :
    (quantum a b c d false).isSome
      ↔ a ∈ alphabet ∧ b ∈ alphabet ∧ c ∈ alphabet ∧ d ∈ alphabet := by
  simp only [← value_isSome, quantum]
  cases value a <;> cases value b <;> cases value c <;> cases value d <;> simp

theorem quantum_last {a b c d : UInt8} :
    (quantum a b c d true).isSome
      ↔ a ∈ alphabet ∧ b ∈ alphabet
        ∧ (c = pad ∧ d = pad ∨ c ∈ alphabet ∧ (d = pad ∨ d ∈ alphabet)) := by
  simp only [← value_isSome, quantum]
  by_cases hd : d = pad
  · by_cases hc : c = pad
    · cases value a <;> cases value b <;> simp [hc, hd]
    · cases value a <;> cases value b <;> cases value c <;> simp [hc, hd]
  · cases value a <;> cases value b <;> cases value c <;> cases value d <;> simp [hd]

/-- A quantum in front of others is full. -/
theorem wellFormed_full {a b c d : UInt8} {rest : Bytes} (h : rest ≠ []) :
    WellFormed (a :: b :: c :: d :: rest)
      ↔ (a ∈ alphabet ∧ b ∈ alphabet ∧ c ∈ alphabet ∧ d ∈ alphabet) ∧ WellFormed rest := by
  constructor
  · rintro ⟨body, pads, heq, hbody, hpads, hlength⟩
    have hpos : 0 < rest.length := List.length_pos_iff.mpr h
    have hcount := congrArg List.length heq
    simp only [List.length_cons, List.length_append, List.length_replicate] at hcount hlength
    -- Four more characters follow, of which at most two are pads.
    match body, hcount with
    | [], hcount | [_], hcount | [_, _], hcount | [_, _, _], hcount =>
        simp only [List.length_cons, List.length_nil] at hcount
        omega
    | a' :: b' :: c' :: d' :: body, _ =>
        simp only [List.cons_append, List.cons.injEq] at heq
        obtain ⟨rfl, rfl, rfl, rfl, rfl⟩ := heq
        simp only [List.forall_mem_cons] at hbody
        obtain ⟨ha, hb, hc, hd, hbody⟩ := hbody
        exact ⟨⟨ha, hb, hc, hd⟩, body, pads, rfl, hbody, hpads, by omega⟩
  · rintro ⟨⟨ha, hb, hc, hd⟩, body, pads, rfl, hbody, hpads, hlength⟩
    refine ⟨a :: b :: c :: d :: body, pads, rfl, ?_, hpads, ?_⟩
    · simp only [List.forall_mem_cons]
      exact ⟨ha, hb, hc, hd, hbody⟩
    · simp only [List.length_cons]
      omega

theorem wellFormed_last {a b c d : UInt8} :
    WellFormed [a, b, c, d]
      ↔ a ∈ alphabet ∧ b ∈ alphabet
        ∧ (c = pad ∧ d = pad ∨ c ∈ alphabet ∧ (d = pad ∨ d ∈ alphabet)) := by
  constructor
  · rintro ⟨body, pads, heq, hbody, hpads, -⟩
    obtain rfl | rfl | rfl : pads = 0 ∨ pads = 1 ∨ pads = 2 := by omega
    · rw [List.replicate_zero, List.append_nil] at heq
      simp only [← heq, List.forall_mem_cons] at hbody
      exact ⟨hbody.1, hbody.2.1, .inr ⟨hbody.2.2.1, .inr hbody.2.2.2.1⟩⟩
    · have hsplit : [a, b, c] ++ [d] = body ++ [pad] := heq
      obtain ⟨hfront, hlast⟩ := List.append_inj' hsplit rfl
      simp only [← hfront, List.forall_mem_cons] at hbody
      exact ⟨hbody.1, hbody.2.1, .inr ⟨hbody.2.2.1, .inl (List.cons.inj hlast).1⟩⟩
    · have hsplit : [a, b] ++ [c, d] = body ++ [pad, pad] := heq
      obtain ⟨hfront, hlast⟩ := List.append_inj' hsplit rfl
      simp only [← hfront, List.forall_mem_cons] at hbody
      obtain ⟨hc, hrest⟩ := List.cons.inj hlast
      exact ⟨hbody.1, hbody.2.1, .inl ⟨hc, (List.cons.inj hrest).1⟩⟩
  · rintro ⟨ha, hb, ⟨rfl, rfl⟩ | ⟨hc, rfl | hd⟩⟩
    · exact ⟨[a, b], 2, rfl, by simp [ha, hb], by decide, ⟨1, rfl⟩⟩
    · exact ⟨[a, b, c], 1, rfl, by simp [ha, hb, hc], by decide, ⟨1, rfl⟩⟩
    · exact ⟨[a, b, c, d], 0, rfl, by simp [ha, hb, hc, hd], by decide, ⟨1, rfl⟩⟩

/-- **What decodes.** -/
theorem decode_isSome {text : Bytes} : (decode text).isSome ↔ WellFormed text := by
  induction text using decode.induct with
  | case1 => exact ⟨fun _ => ⟨[], 0, rfl, by simp, by decide, by decide⟩, fun _ => rfl⟩
  | case2 a b c d rest ih =>
      have hbind : (decode (a :: b :: c :: d :: rest)).isSome
          ↔ (quantum a b c d rest.isEmpty).isSome ∧ (decode rest).isSome := by
        rw [decode]
        cases quantum a b c d rest.isEmpty <;> cases decode rest <;> simp
      rw [hbind, ih]
      by_cases hempty : rest = []
      · subst hempty
        rw [wellFormed_last, ← quantum_last]
        exact and_iff_left (ih.mp rfl)
      · rw [List.isEmpty_eq_false_iff.mpr hempty, quantum_full, wellFormed_full hempty]
  | case3 text hnil hcons =>
      constructor
      · intro h
        simp [decode] at h
      · rintro ⟨body, pads, -, -, -, hlength⟩
        match text, hlength, hnil, hcons with
        | [], _, hnil, _ => exact absurd rfl hnil
        | [_], hlength, _, _ | [_, _], hlength, _, _ | [_, _, _], hlength, _, _ =>
            simp only [List.length_cons, List.length_nil] at hlength
            omega
        | a :: b :: c :: d :: rest, _, _, hcons => exact absurd rfl (hcons a b c d rest)

end Base64

end SmtpClient
