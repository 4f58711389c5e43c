import SmtpClient.HexDump
import SmtpClient.Base.Fitting
import SmtpClient.Proof.LogText

/-!
# What a hex dump says

A dump should show some of the bytes and say how many it leaves out. It does so if there is room for
all that it sets out to write; where there is not, something is left out that it does not count.
-/

namespace SmtpClient

namespace Log

open Cap (decimal isDigit)

/-! ### What a dump should be -/

/-- Two upper-case hexadecimal digits. -/
def hexByte (b : UInt8) : Bytes :=
  [hexDigits.getD (b.toNat / 16) 0, hexDigits.getD (b.toNat % 16) 0]

/-- How many bytes of `n` are omitted behind the first `k`. -/
def omission (k n : Nat) : Bytes :=
  if k < n then (if 0 < k then [32] else []) ++ [43] ++ decimal (n - k) ++ bytes " more bytes"
  else []

/-- The dump of the first `k` bytes. -/
def rendering (src : Bytes) (k : Nat) : Bytes :=
  [91] ++ [32].intercalate ((src.take k).map hexByte) ++ omission k src.length ++ [93]

/-- The bytes that the dump of at most `maxBytes` of `n` bytes takes. -/
def room (n maxBytes : Nat) : Nat :=
  let k := min n maxBytes
  2 + (3 * k - 1)
    + if k < n then (if 0 < k then 1 else 0) + 1 + (decimal (n - k)).length + 11 else 0

theorem length_hexBytes (bs : Bytes) :
    ([32].intercalate (bs.map hexByte)).length = 3 * bs.length - 1 := by
  induction bs with
  | nil => rfl
  | cons b rest ih =>
      cases rest with
      | nil => rfl
      | cons b' rest =>
          rw [List.map_cons, List.map_cons, List.intercalate_cons_cons, List.length_append,
            List.length_append]
          rw [List.map_cons] at ih
          rw [ih]
          simp only [hexByte, List.length_cons, List.length_nil]
          omega

theorem length_rendering (src : Bytes) (maxBytes : Nat) :
    (rendering src (min src.length maxBytes)).length = room src.length maxBytes := by
  have hk : (src.take (min src.length maxBytes)).length = min src.length maxBytes := by
    rw [List.length_take]
    omega
  have hmore : (bytes " more bytes").length = 11 := rfl
  rw [rendering, room, List.length_append, List.length_append, List.length_append, length_hexBytes,
    hk, omission]
  simp only [List.length_singleton]
  split
  · split
    · simp only [List.length_append, List.length_singleton, hmore]
      omega
    · simp only [List.length_append, List.length_singleton, hmore, List.length_nil]
      omega
  · rw [List.length_nil]
    omega

/-! ### What the appending functions write -/

variable {dstSize : Nat}

namespace Cursor

def text (cursor : Cursor dstSize) : Bytes := cursor.dst.slice 0 cursor.pos

theorem length_text (cursor : Cursor dstSize) : cursor.text.length = cursor.pos :=
  cursor.dst.length_slice (Nat.le_trans cursor.pos_le (Nat.sub_le dstSize 1))

theorem length_text_le (cursor : Cursor dstSize) : cursor.text.length ≤ dstSize - 1 := by
  rw [length_text]
  exact cursor.pos_le

theorem append_of_lt {cursor : Cursor dstSize} {piece : Bytes}
    (h : dstSize - 1 < cursor.text.length + piece.length) : cursor.append piece = none := by
  rw [length_text] at h
  exact dif_pos h

theorem append_of_le {cursor : Cursor dstSize} {piece : Bytes}
    (h : cursor.text.length + piece.length ≤ dstSize - 1) :
    ∃ cursor', cursor.append piece = some cursor' ∧ cursor'.text = cursor.text ++ piece := by
  rw [length_text] at h
  refine ⟨_, dif_neg (Nat.not_lt.2 h), ?_⟩
  exact cursor.dst.slice_blit (Nat.le_trans h (Nat.sub_le dstSize 1))

/-- An append whose report is not heeded. -/
theorem text_append_getD (cursor : Cursor dstSize) (piece : Bytes) :
    ((cursor.append piece).getD cursor).text = fit (dstSize - 1) cursor.text piece := by
  by_cases h : cursor.text.length + piece.length ≤ dstSize - 1
  · obtain ⟨cursor', happend, htext⟩ := append_of_le h
    rw [happend, fit_of_le h]
    exact htext
  · have hlt := Nat.lt_of_not_le h
    rw [append_of_lt hlt, fit_of_lt hlt]
    rfl

end Cursor

theorem digit_eq {n : Nat} (h : n < 10) : UInt8.ofNat n.digitChar.toNat = UInt8.ofNat (48 + n) :=
  congrArg UInt8.ofNat (Nat.toNat_digitChar_of_lt_ten h)

theorem decimal_of_lt {n : Nat} (h : n < 10) : decimal n = [UInt8.ofNat (48 + n)] := by
  rw [decimal, Nat.toDigits_of_lt_base h, List.map_singleton, digit_eq h]

theorem decimal_of_le {n : Nat} (h : 10 ≤ n) :
    decimal n = decimal (n / 10) ++ [UInt8.ofNat (48 + n % 10)] := by
  rw [decimal, Nat.toDigits_of_base_le (by omega) h, List.map_append, List.map_singleton,
    digit_eq (Nat.mod_lt n (by omega))]
  rfl

theorem reverse_tmpDigits {size value : Nat} (hpos : 0 < value) (h : value < 10 ^ size) :
    (tmpDigits size value).reverse = decimal value := by
  induction size generalizing value with
  | zero =>
      rw [Nat.pow_zero] at h
      omega
  | succ size ih =>
      rw [tmpDigits, if_neg (by omega), List.reverse_cons]
      by_cases hsmall : value < 10
      · rw [Nat.div_eq_of_lt hsmall, decimal_of_lt hsmall, Nat.mod_eq_of_lt hsmall]
        cases size <;> rfl
      · have hdiv : value / 10 < 10 ^ size := by
          rw [Nat.pow_succ] at h
          omega
        rw [ih (by omega) hdiv, decimal_of_le (n := value) (by omega)]

/-- A `size_t` has at most 20 digits. -/
theorem appendUint_eq (cursor : Cursor dstSize) {value : Nat} (h : value < 2 ^ 64) :
    appendUint cursor value = cursor.append (decimal value) := by
  rw [appendUint]
  split
  · rename_i hzero
    rw [hzero]
    rfl
  · rw [reverse_tmpDigits (by omega) (by omega)]

theorem appendHexByte_eq (cursor : Cursor dstSize) (b : UInt8) :
    appendHexByte cursor b = cursor.append (hexByte b) := by
  have hlow (b : UInt8) : (b &&& 0xF).toNat = b.toNat % 16 := by
    rw [UInt8.toNat_and]
    exact Nat.and_two_pow_sub_one_eq_mod b.toNat 4
  have hhigh : ((b >>> 4) &&& 0xF).toNat = b.toNat / 16 := by
    have hlt := b.toNat_lt
    have hshift : (b >>> 4).toNat = b.toNat / 16 := by
      rw [UInt8.toNat_shiftRight]
      exact Nat.shiftRight_eq_div_pow b.toNat 4
    rw [hlow, hshift]
    omega
  rw [appendHexByte, hexByte, hhigh, hlow]

/-! ### The loop -/

/-- What the loop writes from the `i`-th byte on. -/
def spaced (i : Nat) : Bytes → Bytes
  | [] => []
  | b :: rest => (if 0 < i then [32] else []) ++ hexByte b ++ spaced (i + 1) rest

theorem hexByte_append_spaced (i : Nat) (b : UInt8) (rest : Bytes) :
    hexByte b ++ spaced (i + 1) rest = [32].intercalate ((b :: rest).map hexByte) := by
  induction rest generalizing b i with
  | nil => rfl
  | cons c rest ih =>
      rw [spaced, if_pos (Nat.succ_pos i), List.append_assoc, ih, List.map_cons (a := b),
        List.map_cons, List.intercalate_cons_cons, List.append_assoc]

theorem spaced_zero (bs : Bytes) : spaced 0 bs = [32].intercalate (bs.map hexByte) := by
  cases bs with
  | nil => rfl
  | cons b rest => exact hexByte_append_spaced 0 b rest

def HexOrSpace (c : UInt8) : Prop := c ∈ 32 :: hexDigits

theorem hexOrSpace_hexByte {b c : UInt8} (h : c ∈ hexByte b) : HexOrSpace c := by
  have hdigit {n : Nat} (hn : n < 16) : HexOrSpace (hexDigits.getD n 0) := by
    have hlength : n < hexDigits.length := hn
    rw [List.getD_eq_getElem?_getD, List.getElem?_eq_getElem hlength, Option.getD_some]
    exact List.mem_cons_of_mem 32 (List.getElem_mem hlength)
  have hlt := b.toNat_lt
  rw [hexByte] at h
  rcases List.mem_pair.1 h with rfl | rfl
  · exact hdigit (by omega)
  · exact hdigit (by omega)

/-- The loop has stopped for want of room, with at most one byte left. -/
structure Stops (cursor cursor' : Cursor dstSize) (goal : Bytes) : Prop where
  text : ∃ part, cursor'.text = cursor.text ++ part ∧ ∀ c ∈ part, HexOrSpace c
  full : dstSize - 1 ≤ cursor'.text.length + 1
  short : dstSize - 1 < cursor.text.length + goal.length

theorem stops_of_lt {cursor : Cursor dstSize} {piece : Bytes}
    (h : dstSize - 1 < cursor.text.length + piece.length) (hpiece : piece.length ≤ 2)
    (goal : Bytes) : Stops cursor cursor (piece ++ goal) := by
  refine ⟨⟨[], (List.append_nil _).symm, nofun⟩, by omega, ?_⟩
  rw [List.length_append]
  omega

theorem Stops.behind {cursor cursor' cursor'' : Cursor dstSize} {written goal : Bytes}
    (h : Stops cursor' cursor'' goal) (htext : cursor'.text = cursor.text ++ written)
    (hwritten : ∀ c ∈ written, HexOrSpace c) : Stops cursor cursor'' (written ++ goal) := by
  obtain ⟨part, hpart, hchars⟩ := h.text
  refine ⟨⟨written ++ part, ?_, ?_⟩, h.full, ?_⟩
  · rw [hpart, htext, List.append_assoc]
  · intro c hc
    rcases List.mem_append.1 hc with hc | hc
    · exact hwritten c hc
    · exact hchars c hc
  · have hshort := h.short
    rw [htext, List.length_append] at hshort
    rw [List.length_append]
    omega

/-- A byte and the rest of the loop, once the space before the byte is written. -/
theorem dumpByte_spec {i : Nat} {b : UInt8} {rest : Bytes}
    (ih : ∀ cursor : Cursor dstSize,
      (dumpBytes cursor (i + 1) rest).text = cursor.text ++ spaced (i + 1) rest
        ∨ Stops cursor (dumpBytes cursor (i + 1) rest) (spaced (i + 1) rest))
    (cursor : Cursor dstSize) :
    let next := match appendHexByte cursor b with
      | none => cursor
      | some cursor => dumpBytes cursor (i + 1) rest
    next.text = cursor.text ++ (hexByte b ++ spaced (i + 1) rest)
      ∨ Stops cursor next (hexByte b ++ spaced (i + 1) rest) := by
  simp only [appendHexByte_eq]
  by_cases hfits : cursor.text.length + (hexByte b).length ≤ dstSize - 1
  · obtain ⟨cursor', happend, htext⟩ := Cursor.append_of_le hfits
    rw [happend]
    rcases ih cursor' with hall | hstops
    · left
      rw [hall, htext, List.append_assoc]
    · right
      exact hstops.behind htext fun c hc => hexOrSpace_hexByte hc
  · have hlt := Nat.lt_of_not_le hfits
    rw [Cursor.append_of_lt hlt]
    exact Or.inr (stops_of_lt hlt (Nat.le_refl 2) _)

/-- The loop writes all that it sets out to write, or it stops. -/
theorem dumpBytes_spec (cursor : Cursor dstSize) (i : Nat) (bs : Bytes) :
    (dumpBytes cursor i bs).text = cursor.text ++ spaced i bs
      ∨ Stops cursor (dumpBytes cursor i bs) (spaced i bs) := by
  induction bs generalizing cursor i with
  | nil => exact Or.inl (List.append_nil _).symm
  | cons b rest ih =>
      rw [dumpBytes, spaced, List.append_assoc]
      by_cases hi : 0 < i
      · rw [if_pos hi, if_pos hi, appendChar]
        by_cases hfits : cursor.text.length + ([32] : Bytes).length ≤ dstSize - 1
        · obtain ⟨cursor', happend, htext⟩ := Cursor.append_of_le hfits
          rw [happend]
          rcases dumpByte_spec (fun cursor => ih cursor (i + 1)) cursor' with hall | hstops
          · left
            rw [← List.append_assoc, ← htext]
            exact hall
          · right
            exact hstops.behind htext fun c hc => List.mem_cons.2 (Or.inl (List.mem_singleton.1 hc))
        · have hlt := Nat.lt_of_not_le hfits
          rw [Cursor.append_of_lt hlt]
          exact Or.inr (stops_of_lt hlt (Nat.le_succ 1) _)
      · rw [if_neg hi, if_neg hi]
        exact dumpByte_spec (fun cursor => ih cursor (i + 1)) cursor

/-! ### What is left of a dump -/

/-- What comes behind the bytes. -/
def closing (n maxBytes : Nat) : List Bytes :=
  (if min n maxBytes < n then
    (if 0 < min n maxBytes then [[32]] else [])
      ++ [[43], decimal (n - min n maxBytes), bytes " more bytes"]
    else []) ++ [[93]]

theorem flatten_closing (n maxBytes : Nat) :
    (closing n maxBytes).flatten = omission (min n maxBytes) n ++ [93] := by
  rw [closing, omission]
  split
  · split
    · simp
    · simp
  · rfl

theorem zero_le_room (dstSize : Nat) : 0 ≤ dstSize - 1 := Nat.zero_le _

/-- An opening bracket, if there is room for one. -/
def opened (dst : Buffer dstSize) : Cursor dstSize :=
  (appendChar ⟨dst, 0, zero_le_room dstSize⟩ 91).getD ⟨dst, 0, zero_le_room dstSize⟩

theorem text_opened (dst : Buffer dstSize) (h : 1 ≤ dstSize - 1) : (opened dst).text = [91] := by
  have hfit := Cursor.text_append_getD ⟨dst, 0, Nat.zero_le _⟩ [91]
  have hempty : Cursor.text ⟨dst, 0, Nat.zero_le _⟩ = [] := Buffer.slice_zero_length dst 0
  rw [hempty, fit_of_le h] at hfit
  exact hfit

def looped (dst : Buffer dstSize) (src : Bytes) (maxBytes : Nat) : Cursor dstSize :=
  dumpBytes (opened dst) 0 (src.take (min src.length maxBytes))

theorem text_dump (dst : Buffer dstSize) {src : Bytes} (maxBytes : Nat)
    (hsrc : src.length < 2 ^ 64) : (dump ⟨dst, 0, Nat.zero_le _⟩ src maxBytes).text
      = fitAll (dstSize - 1) (looped dst src maxBytes).text (closing src.length maxBytes) := by
  have hcount : (if src.length < maxBytes then src.length else maxBytes)
      = min src.length maxBytes := by
    split <;> omega
  have huint (cursor : Cursor dstSize) (k : Nat) :
      appendUint cursor (src.length - k) = cursor.append (decimal (src.length - k)) :=
    appendUint_eq cursor (by omega)
  simp only [dump, hcount, huint, appendChar, appendStr, Cursor.text_append_getD, closing]
  split
  · split
    · simp only [Cursor.text_append_getD]
      rfl
    · simp only [Cursor.text_append_getD]
      rfl
  · rfl

theorem rendering_eq (src : Bytes) (maxBytes : Nat) :
    rendering src (min src.length maxBytes)
      = [91] ++ spaced 0 (src.take (min src.length maxBytes))
        ++ (closing src.length maxBytes).flatten := by
  rw [rendering, flatten_closing, spaced_zero]
  simp only [List.append_assoc]

/-- **With room for all of it**, the dump is what it should be. -/
theorem text_dump_of_room (dst : Buffer dstSize) {src : Bytes} {maxBytes : Nat}
    (hsrc : src.length < 2 ^ 64) (h : room src.length maxBytes < dstSize) :
    (dump ⟨dst, 0, Nat.zero_le _⟩ src maxBytes).text
      = rendering src (min src.length maxBytes) := by
  have hlength := length_rendering src maxBytes
  rw [rendering_eq, List.length_append, List.length_append, List.length_singleton] at hlength
  have hroom : 2 ≤ room src.length maxBytes := by
    rw [room]
    omega
  have hopened := text_opened dst (by omega)
  have hlooped : (looped dst src maxBytes).text
      = [91] ++ spaced 0 (src.take (min src.length maxBytes)) := by
    rcases dumpBytes_spec (opened dst) 0 (src.take (min src.length maxBytes)) with hall | hstops
    · rw [looped, hall, hopened]
    · have hshort := hstops.short
      rw [hopened, List.length_singleton] at hshort
      omega
  rw [text_dump dst maxBytes hsrc, hlooped, rendering_eq]
  apply fitAll_of_le
  rw [List.length_append, List.length_singleton]
  omega

/-! ### What a dump that is as it should be has room for -/

theorem ne_of_hexOrSpace {c : UInt8} (h : HexOrSpace c) : c ≠ 0 ∧ c ≠ 43 :=
  have hall : ∀ c ∈ 32 :: hexDigits, c ≠ 0 ∧ c ≠ 43 := by decide +kernel
  hall c h

theorem hexOrSpace_spaced {i : Nat} {bs : Bytes} : ∀ c ∈ spaced i bs, HexOrSpace c := by
  induction bs generalizing i with
  | nil => nofun
  | cons b rest ih =>
      intro c hc
      rw [spaced, List.append_assoc] at hc
      rcases List.mem_append.1 hc with hspace | hc
      · split at hspace
        · exact List.mem_cons.2 (Or.inl (List.mem_singleton.1 hspace))
        · cases hspace
      rcases List.mem_append.1 hc with hbyte | hrest
      · exact hexOrSpace_hexByte hbyte
      · exact ih c hrest

theorem looped_eq_append (dst : Buffer dstSize) (src : Bytes) (maxBytes : Nat) :
    ∃ part, (looped dst src maxBytes).text = (opened dst).text ++ part
      ∧ ∀ c ∈ part, HexOrSpace c := by
  rcases dumpBytes_spec (opened dst) 0 (src.take (min src.length maxBytes)) with hall | hstops
  · exact ⟨_, hall, hexOrSpace_spaced⟩
  · exact hstops.text

theorem looped_chars (dst : Buffer dstSize) (src : Bytes) (maxBytes : Nat) :
    ∀ c ∈ (looped dst src maxBytes).text, c ≠ 0 ∧ c ≠ 43 := by
  obtain ⟨part, hpart, hchars⟩ := looped_eq_append dst src maxBytes
  have hopened : ∀ c ∈ (opened dst).text, c ≠ 0 ∧ c ≠ 43 := by
    have hempty : Cursor.text ⟨dst, 0, Nat.zero_le _⟩ = [] := Buffer.slice_zero_length dst 0
    rw [opened, appendChar, Cursor.text_append_getD, hempty]
    exact forall_mem_fit nofun (by decide +kernel)
  intro c hc
  rw [hpart] at hc
  rcases List.mem_append.1 hc with hc | hc
  · exact hopened c hc
  · exact ne_of_hexOrSpace (hchars c hc)

theorem isDigit_decimal {n : Nat} : ∀ c ∈ decimal n, isDigit c = true := by
  intro c hc
  have hdigit := Cap.digit_of_mem_decimal hc
  rw [isDigit, Bool.and_eq_true, decide_eq_true_eq, decide_eq_true_eq]
  exact hdigit

/-- What comes behind the number does not begin with a digit, and there is room for the whole of it
if it is there. -/
theorem fitAll_more {limit : Nat} {text : Bytes} (h : text.length ≤ limit) :
    ∃ tail, fitAll limit text [bytes " more bytes", [93]] = text ++ tail
      ∧ tail.dropWhile isDigit = tail
      ∧ (tail = bytes " more bytes" ++ [93] → text.length + 12 ≤ limit) := by
  have hlength := length_fitAll_le h [bytes " more bytes", [93]]
  change (fit limit (fit limit text (bytes " more bytes")) [93]).length ≤ limit at hlength
  change ∃ tail, fit limit (fit limit text (bytes " more bytes")) [93] = text ++ tail ∧ _
  rcases fit_eq_or limit text (bytes " more bytes") with hmore | hmore
  · rw [hmore]
    rcases fit_eq_or limit text [93] with hclose | hclose
    · exact ⟨[], hclose.trans (List.append_nil text).symm, rfl, nofun⟩
    · exact ⟨[93], hclose, rfl, nofun⟩
  · rw [hmore] at hlength ⊢
    rcases fit_eq_or limit (text ++ bytes " more bytes") [93] with hclose | hclose
    · exact ⟨bytes " more bytes", hclose, rfl, nofun⟩
    · rw [hclose, List.append_assoc] at hlength ⊢
      rw [List.length_append] at hlength
      exact ⟨_, rfl, rfl, fun _ => hlength⟩

/-- Behind the plus sign: where the whole end is written, so is the number before it. -/
theorem fits_of_behind {limit : Nat} {text number number' : Bytes} (htext : text.length ≤ limit)
    (hnumber : ∀ c ∈ number, isDigit c = true) (hnumber' : ∀ c ∈ number', isDigit c = true)
    (hne : number' ≠ []) (h : fitAll limit text [number, bytes " more bytes", [93]]
      = text ++ (number' ++ (bytes " more bytes" ++ [93]))) :
    text.length + number.length + 12 ≤ limit := by
  have hend : (number' ++ (bytes " more bytes" ++ [93])).dropWhile isDigit
      = bytes " more bytes" ++ [93] := by
    rw [List.dropWhile_append_of_pos hnumber']
    rfl
  change fitAll limit (fit limit text number) [bytes " more bytes", [93]] = _ at h
  by_cases hfits : text.length + number.length ≤ limit
  · rw [fit_of_le hfits] at h
    obtain ⟨tail, htail, hdrop, hroom⟩ := @fitAll_more limit (text ++ number)
      (by rwa [List.length_append])
    rw [htail, List.append_assoc] at h
    rw [← List.append_cancel_left h, List.dropWhile_append_of_pos hnumber, hdrop] at hend
    have hlength := hroom hend
    rwa [List.length_append] at hlength
  · rw [fit_of_lt (Nat.lt_of_not_le hfits)] at h
    obtain ⟨tail, htail, hdrop, -⟩ := fitAll_more htext
    rw [htail] at h
    have htail' := List.append_cancel_left h
    rw [← htail', hdrop] at hend
    rw [hend] at htail'
    exact absurd (List.self_eq_append_left.1 htail') hne

/-- With room left before the plus sign, everything before it is written. -/
theorem before_plus (dst : Buffer dstSize) (src : Bytes) (maxBytes : Nat)
    (h : (fitAll (dstSize - 1) (looped dst src maxBytes).text
      (if 0 < min src.length maxBytes then [[32]] else [])).length < dstSize - 1) :
    fitAll (dstSize - 1) (looped dst src maxBytes).text
        (if 0 < min src.length maxBytes then [[32]] else [])
      = [91] ++ spaced 0 (src.take (min src.length maxBytes))
        ++ (if 0 < min src.length maxBytes then [32] else []) := by
  have hopened := text_opened dst (Nat.one_le_of_lt h)
  by_cases hk : 0 < min src.length maxBytes
  · rw [if_pos hk] at h ⊢
    rw [if_pos hk]
    change fit (dstSize - 1) (looped dst src maxBytes).text [32] = _
    change (fit (dstSize - 1) (looped dst src maxBytes).text [32]).length < _ at h
    by_cases hfits : (looped dst src maxBytes).text.length + 1 ≤ dstSize - 1
    · rw [fit_of_le hfits] at h ⊢
      rw [List.length_append, List.length_singleton] at h
      rcases dumpBytes_spec (opened dst) 0 (src.take (min src.length maxBytes)) with hall | hstops
      · rw [looped, hall, hopened]
      · have hfull := hstops.full
        change _ ≤ (looped dst src maxBytes).text.length + 1 at hfull
        omega
    · have hlt := Nat.lt_of_not_le hfits
      rw [fit_of_lt hlt] at h
      omega
  · have hzero : min src.length maxBytes = 0 := by omega
    rw [if_neg hk, if_neg hk, looped, hzero, List.take_zero, List.append_nil]
    exact hopened

theorem rendering_of_lt {src : Bytes} {k : Nat} (h : k < src.length) :
    rendering src k
      = [91] ++ spaced 0 (src.take k) ++ (if 0 < k then [32] else [])
        ++ 43 :: (decimal (src.length - k) ++ (bytes " more bytes" ++ [93])) := by
  rw [rendering, omission, if_pos h, spaced_zero]
  simp only [List.append_assoc, List.cons_append, List.nil_append]

theorem decimal_ne_nil (n : Nat) : decimal n ≠ [] := by
  rw [decimal, ne_eq, List.map_eq_nil_iff]
  exact Nat.toDigits_ne_nil

/-- Behind the plus sign stand the rest of the pieces, and none of them has another. -/
theorem behind_plus {limit : Nat} {before front number number' : Bytes}
    (hbefore : ∀ c ∈ before, c ≠ 43) (hnumber : ∀ c ∈ number, isDigit c = true)
    (hroom : before.length < limit)
    (h : fitAll limit before [[43], number, bytes " more bytes", [93]]
      = front ++ 43 :: (number' ++ (bytes " more bytes" ++ [93]))) :
    fitAll limit (before ++ [43]) [number, bytes " more bytes", [93]]
      = before ++ [43] ++ (number' ++ (bytes " more bytes" ++ [93])) := by
  change fitAll limit (fit limit before [43]) [number, bytes " more bytes", [93]] = _ at h
  rw [fit_of_le hroom] at h
  obtain ⟨tail, htail, hmem⟩ :=
    fitAll_eq_append limit (before ++ [43]) [number, bytes " more bytes", [93]]
  have hplus : 43 ∉ tail := by
    intro hc
    obtain ⟨piece, hpiece, hc⟩ := hmem 43 hc
    simp only [List.mem_cons, List.not_mem_nil, or_false] at hpiece
    rcases hpiece with rfl | rfl | rfl
    · exact absurd (hnumber 43 hc) (by decide)
    · exact absurd hc (by decide +kernel)
    · exact absurd hc (by decide)
  rw [htail, List.append_assoc, List.singleton_append] at h
  obtain ⟨-, -, hrest⟩ :=
    (List.append_cons_inj_of_notMem (fun hc => hbefore 43 hc rfl) hplus).1 h
  rw [htail, hrest]

/-- With bytes left out, there is room for what tells so. -/
theorem room_of_fitAll_closing {dst : Buffer dstSize} {src : Bytes} {maxBytes k : Nat}
    (hk : k ≤ min src.length maxBytes) (hkn : min src.length maxBytes < src.length)
    (h : fitAll (dstSize - 1) (looped dst src maxBytes).text (closing src.length maxBytes)
      = rendering src k) :
    room src.length maxBytes ≤ dstSize - 1 := by
  have hchars := looped_chars dst src maxBytes
  rw [closing, if_pos hkn, List.append_assoc, fitAll_append, rendering_of_lt (by omega)] at h
  have hspace : ∀ c ∈ fitAll (dstSize - 1) (looped dst src maxBytes).text
      (if 0 < min src.length maxBytes then [[32]] else []), c ≠ 43 := by
    apply forall_mem_fitAll fun c hc => (hchars c hc).2
    split
    · simp
    · simp
  have hbefore := before_plus dst src maxBytes
  generalize fitAll (dstSize - 1) (looped dst src maxBytes).text
    (if 0 < min src.length maxBytes then [[32]] else []) = before at h hspace hbefore
  have hroom : before.length < dstSize - 1 := by
    by_contra hfull
    rw [fitAll_of_full (Nat.le_of_not_lt hfull) (by simp [decimal_ne_nil]; decide +kernel)] at h
    exact hspace 43 (by rw [h]; simp) rfl
  have hnumber : ∀ c ∈ decimal (src.length - min src.length maxBytes), isDigit c = true :=
    isDigit_decimal
  have hfits := fits_of_behind (by rw [List.length_append]; exact hroom) hnumber isDigit_decimal
    (decimal_ne_nil _) (behind_plus hspace hnumber hroom h)
  rw [hbefore hroom] at hfits
  have hspaced : (spaced 0 (src.take (min src.length maxBytes))).length
      = 3 * min src.length maxBytes - 1 := by
    rw [spaced_zero, length_hexBytes, List.length_take]
    omega
  rw [room, if_pos hkn]
  simp only [List.length_append, List.length_singleton, hspaced] at hfits
  split
  · rename_i hpos
    rw [if_pos hpos] at hfits
    rw [List.length_singleton] at hfits
    omega
  · rename_i hzero
    rw [if_neg hzero] at hfits
    rw [List.length_nil] at hfits
    omega

/-- **Only with room for all of it** is a dump what it should be. -/
theorem room_of_text_dump {dst : Buffer dstSize} {src : Bytes} {maxBytes k : Nat}
    (hsrc : src.length < 2 ^ 64) (hk : k ≤ min src.length maxBytes)
    (h : (dump ⟨dst, 0, Nat.zero_le _⟩ src maxBytes).text = rendering src k) :
    room src.length maxBytes ≤ dstSize - 1 := by
  rw [text_dump dst maxBytes hsrc] at h
  by_cases hkn : min src.length maxBytes < src.length
  · exact room_of_fitAll_closing hk hkn h
  have hall : k = min src.length maxBytes := by
    by_contra hne
    -- the number of bytes omitted is not told
    have hplus : 43 ∈ rendering src k := by
      rw [rendering_of_lt (by omega)]
      simp
    rw [← h, closing, if_neg hkn] at hplus
    have hchars := looped_chars dst src maxBytes
    exact forall_mem_fitAll (fun c hc => (hchars c hc).2) (by simp) 43 hplus rfl
  have hlooped := (looped dst src maxBytes).length_text_le
  have hlength := length_fitAll_le hlooped (closing src.length maxBytes)
  rwa [h, hall, length_rendering] at hlength

/-! ### What the caller gets -/

theorem Cursor.cstr_blit_nul {cursor : Cursor dstSize} (hdst : 0 < dstSize)
    (h : ∀ c ∈ cursor.text, c ≠ 0) : cstr (cursor.dst.blit cursor.pos [0]).bytes = cursor.text := by
  apply cstr_of_slice _ h
  have hpos := cursor.pos_le
  rw [cursor.length_text]
  exact cursor.dst.slice_blit (by rw [List.length_singleton]; omega)

theorem ne_nul_of_mem_closing {n maxBytes : Nat} :
    ∀ piece ∈ closing n maxBytes, ∀ c ∈ piece, c ≠ 0 := by
  intro piece hpiece c hc
  have hfixed : ∀ piece ∈ [[32], [43], bytes " more bytes", [93]], ∀ c ∈ piece, c ≠ 0 := by
    decide +kernel
  by_cases hnumber : piece = decimal (n - min n maxBytes)
  · rw [hnumber] at hc
    rintro rfl
    exact absurd (isDigit_decimal 0 hc) (by decide)
  · apply hfixed piece _ c hc
    rw [closing] at hpiece
    split at hpiece
    · split at hpiece
      · simpa [hnumber] using hpiece
      · simp only [List.nil_append, List.cons_append, List.mem_cons, hnumber, false_or] at hpiece
        simp only [List.mem_cons]
        exact Or.inr hpiece
    · rw [List.nil_append, List.mem_singleton] at hpiece
      simp [hpiece]

theorem ne_nul_of_mem_dump {dst : Buffer dstSize} {src : Bytes} {maxBytes : Nat}
    (hsrc : src.length < 2 ^ 64) :
    ∀ c ∈ (dump ⟨dst, 0, Nat.zero_le _⟩ src maxBytes).text, c ≠ 0 := by
  rw [text_dump dst maxBytes hsrc]
  exact forall_mem_fitAll (fun c hc => (looped_chars dst src maxBytes c hc).1) ne_nul_of_mem_closing

theorem length_dump_pos {dst : Buffer dstSize} {src : Bytes} {maxBytes : Nat}
    (hsrc : src.length < 2 ^ 64) (h : 1 ≤ dstSize - 1) :
    0 < (dump ⟨dst, 0, Nat.zero_le _⟩ src maxBytes).pos := by
  obtain ⟨tail, htail, -⟩ := fitAll_eq_append (dstSize - 1) (looped dst src maxBytes).text
    (closing src.length maxBytes)
  obtain ⟨part, hpart, -⟩ := looped_eq_append dst src maxBytes
  rw [← Cursor.length_text, text_dump dst maxBytes hsrc, htail, hpart, text_opened dst h]
  simp

/-- A string inside `dst`, of the length returned, that is empty only if there is no room for the
brackets, and otherwise shows some of the bytes and counts all the others. -/
structure IsDump (src : Bytes) (maxBytes returned : Nat) (dst : Buffer dstSize) : Prop where
  terminated : (cstr dst.bytes).length < dstSize
  returned_eq : returned = (cstr dst.bytes).length
  returned_eq_zero_iff : returned = 0 ↔ dstSize < 3
  shown : 3 ≤ dstSize → ∃ k ≤ min src.length maxBytes, cstr dst.bytes = rendering src k

theorem hexDump_eq (dst : Buffer dstSize) (src : Option Bytes) (maxBytes : Nat)
    (hdst : 0 < dstSize) : hexDump (some dst) src maxBytes
      = ((dump ⟨dst, 0, Nat.zero_le _⟩ (src.getD []) maxBytes).pos,
        some ((dump ⟨dst, 0, Nat.zero_le _⟩ (src.getD []) maxBytes).dst.blit
          (dump ⟨dst, 0, Nat.zero_le _⟩ (src.getD []) maxBytes).pos [0])) :=
  if_neg (Nat.ne_of_gt hdst)

theorem two_le_room (n maxBytes : Nat) : 2 ≤ room n maxBytes := by
  rw [room]
  omega

/-- **Hex dumps** are as they should be exactly if there is room for all that they set out to write,
or for nothing at all. -/
theorem isDump_hexDump_iff (dst : Buffer dstSize) (src : Option Bytes) (maxBytes : Nat)
    (hdst : 0 < dstSize) (hsrc : (src.getD []).length < 2 ^ 64) :
    (∃ dst' ∈ (hexDump (some dst) src maxBytes).2,
        IsDump (src.getD []) maxBytes (hexDump (some dst) src maxBytes).1 dst')
      ↔ dstSize = 1 ∨ room (src.getD []).length maxBytes < dstSize := by
  rw [hexDump_eq dst src maxBytes hdst]
  generalize src.getD [] = src at hsrc ⊢
  have hroom := two_le_room src.length maxBytes
  have hpos : 1 ≤ dstSize - 1 → 0 < (dump ⟨dst, 0, Nat.zero_le _⟩ src maxBytes).pos :=
    length_dump_pos hsrc
  have hnul : ∀ c ∈ (dump ⟨dst, 0, Nat.zero_le _⟩ src maxBytes).text, c ≠ 0 :=
    ne_nul_of_mem_dump hsrc
  have htext : ∀ k ≤ min src.length maxBytes,
      (dump ⟨dst, 0, Nat.zero_le _⟩ src maxBytes).text = rendering src k →
        room src.length maxBytes ≤ dstSize - 1 := fun _ hk => room_of_text_dump hsrc hk
  have htext' : room src.length maxBytes < dstSize →
      (dump ⟨dst, 0, Nat.zero_le _⟩ src maxBytes).text = rendering src (min src.length maxBytes) :=
    text_dump_of_room dst hsrc
  generalize dump ⟨dst, 0, Nat.zero_le _⟩ src maxBytes = cursor at hpos hnul htext htext' ⊢
  have hle := cursor.pos_le
  have hcstr : cstr (cursor.dst.blit cursor.pos [0]).bytes = cursor.text :=
    Cursor.cstr_blit_nul hdst hnul
  constructor
  · rintro ⟨dst', hdst', h⟩
    cases hdst'
    by_cases hone : dstSize = 1
    · exact Or.inl hone
    have hlarge : 3 ≤ dstSize := by
      by_contra hsmall
      have hzero := h.returned_eq_zero_iff.2 (by omega)
      have hsome := hpos (by omega)
      omega
    obtain ⟨k, hk, hshown⟩ := h.shown hlarge
    have hfits := htext k hk (hcstr.symm.trans hshown)
    omega
  · intro h
    refine ⟨_, rfl, ?_, ?_, ?_, ?_⟩
    · rw [hcstr, cursor.length_text]
      omega
    · rw [hcstr, cursor.length_text]
    · omega
    · intro hlarge
      refine ⟨_, Nat.le_refl _, hcstr.trans (htext' ?_)⟩
      omega

/-- Two of three bytes in 32. -/
theorem isDump_hexDump_iff_two :
    ∃ dst' ∈ (hexDump (some (.zero 32)) (some [0x1b, 0x0a, 0x41]) 2).2, IsDump [0x1b, 0x0a, 0x41] 2
      (hexDump (some (.zero 32)) (some [0x1b, 0x0a, 0x41]) 2).1 dst' :=
  (isDump_hexDump_iff (.zero 32) (some [0x1b, 0x0a, 0x41]) 2 (by decide) (by decide)).2
    (by decide +kernel)

/-- Three bytes in 5: one of them, and nothing of the others. -/
theorem silent_cut : ¬ ∀ (dstSize : Nat) (dst : Buffer dstSize) (src : Bytes) (maxBytes : Nat),
    0 < dstSize → src.length < 2 ^ 64 → ∃ dst' ∈ (hexDump (some dst) (some src) maxBytes).2,
      IsDump src maxBytes (hexDump (some dst) (some src) maxBytes).1 dst' := by
  intro h
  obtain ⟨dst', hdst', hdump⟩ := h 5 (.zero 5) [0x41, 0x42, 0x43] 10 (by decide) (by decide)
  obtain ⟨k, hk, hshown⟩ := hdump.shown (by decide)
  have hcut : ∀ dst' ∈ (hexDump (some (.zero 5)) (some [0x41, 0x42, 0x43]) 10).2,
      cstr dst'.bytes = bytes "[41 " := by
    decide +kernel
  have hnone : ∀ k ≤ 3, rendering [0x41, 0x42, 0x43] k ≠ bytes "[41 " := by
    decide +kernel
  exact hnone k hk (hshown.symm.trans (hcut dst' hdst'))

end Log

end SmtpClient
