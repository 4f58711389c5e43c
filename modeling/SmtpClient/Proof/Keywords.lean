import SmtpClient.Proof.ReplyLines
import Mathlib.Data.Nat.Digits.Defs

/-!
# What the packed keys mean

A keyword line is dispatched on an integer that packs the first eight bytes of the keyword, folded
to upper case, together with its length and, behind the eighth byte, its tail. Packing is injective
on words of one length, so the dispatch compares whole keywords, without regard to case.
-/

namespace SmtpClient

namespace Cap

/-- The keyword of a line, folded to upper case. -/
def keyword (text : Bytes) : Bytes := (text.takeWhile (· ≠ 32)).map fold

theorem packFrom_eq (lane : Nat) (word : Bytes) :
    packFrom lane word = 2 ^ (8 * lane) * Nat.ofDigits 256 (word.map UInt8.toNat) := by
  induction word generalizing lane with
  | nil => simp [packFrom]
  | cons c word ih =>
      have hc : c.toNat < 2 ^ 8 := c.toNat_lt
      have hpow : 2 ^ (8 * (lane + 1)) = 2 ^ 8 * 2 ^ (8 * lane) := by
        rw [Nat.mul_succ, Nat.pow_add, Nat.mul_comm]
      calc packFrom lane (c :: word)
          = c.toNat <<< (8 * lane)
              ||| 2 ^ (8 * (lane + 1)) * Nat.ofDigits 256 (word.map UInt8.toNat) := by
            rw [packFrom, kwByte, ih]
        _ = (2 ^ 8 * Nat.ofDigits 256 (word.map UInt8.toNat) ||| c.toNat) <<< (8 * lane) := by
            rw [Nat.shiftLeft_or_distrib, Nat.or_comm, hpow, Nat.shiftLeft_eq (2 ^ 8 * _)]
            ring_nf
        _ = 2 ^ (8 * lane) * Nat.ofDigits 256 ((c :: word).map UInt8.toNat) := by
            rw [← Nat.two_pow_add_eq_or_of_lt hc, Nat.shiftLeft_eq, List.map_cons,
              Nat.ofDigits_cons]
            ring

/-- **Packing is injective** on words of one length. -/
theorem packFrom_inj {word word' : Bytes} (hlen : word.length = word'.length)
    (h : packFrom 0 word = packFrom 0 word') : word = word' := by
  rw [packFrom_eq, packFrom_eq] at h
  have hdigits : word.map UInt8.toNat = word'.map UInt8.toNat := by
    refine Nat.ofDigits_inj_of_len_eq (b := 256) (by decide) (by simpa using hlen) ?_ ?_
      (by simpa using h) <;>
    · intro d hd
      obtain ⟨c, -, rfl⟩ := List.mem_map.mp hd
      exact c.toNat_lt
  exact List.map_injective_iff.mpr (fun _ _ => UInt8.toNat_inj.mp) hdigits

theorem packFrom_append_singleton (lane : Nat) (word : Bytes) (c : UInt8) :
    packFrom lane (word ++ [c]) = packFrom lane word ||| kwByte c (lane + word.length) := by
  induction word generalizing lane with
  | nil => simp [packFrom]
  | cons d word ih =>
      rw [List.cons_append, packFrom, ih, packFrom, Nat.or_assoc, List.length_cons]
      congr 3
      omega

/-- What the scan holds once it has read a word, folded. -/
def scanOf (word : Bytes) : KeywordScan :=
  ⟨packFrom 0 (word.take 8), word.length, (word.drop 8).take tailBufLen⟩

theorem scanOf_append (word : Bytes) (c : UInt8) :
    scanOf (word ++ [c]) =
      if word.length < 8 then
        { scanOf word with
          key := (scanOf word).key ||| kwByte c (scanOf word).kwLen
          kwLen := (scanOf word).kwLen + 1 }
      else if (scanOf word).tail.length < tailBufLen then
        { scanOf word with tail := (scanOf word).tail ++ [c], kwLen := (scanOf word).kwLen + 1 }
      else { scanOf word with kwLen := (scanOf word).kwLen + 1 } := by
  have htail : tailBufLen = 24 := rfl
  by_cases hshort : word.length < 8
  · have htake : (word ++ [c]).take 8 = word ++ [c] := List.take_of_length_le (by simp; omega)
    have htake' : word.take 8 = word := List.take_of_length_le (by omega)
    have hdrop : (word ++ [c]).drop 8 = [] := List.drop_of_length_le (by simp; omega)
    have hdrop' : word.drop 8 = [] := List.drop_of_length_le (by omega)
    rw [if_pos hshort]
    simp [scanOf, htake, htake', hdrop, hdrop', packFrom_append_singleton]
  · have htake : (word ++ [c]).take 8 = word.take 8 := List.take_append_of_le_length (by omega)
    have hdrop : (word ++ [c]).drop 8 = word.drop 8 ++ [c] := List.drop_append_of_le_length (by omega)
    rw [if_neg hshort]
    by_cases hroom : (scanOf word).tail.length < tailBufLen
    · have hroom' : (word.drop 8).length < tailBufLen := by
        simp only [scanOf, List.length_take] at hroom
        omega
      rw [if_pos hroom]
      have hfull : (word.drop 8 ++ [c]).take tailBufLen = word.drop 8 ++ [c] :=
        List.take_of_length_le (by simp only [List.length_append, List.length_singleton]; omega)
      have hfull' : (word.drop 8).take tailBufLen = word.drop 8 := List.take_of_length_le (by omega)
      simp [scanOf, htake, hdrop, hfull, hfull']
    · rw [if_neg hroom]
      have hcut : (word.drop 8 ++ [c]).take tailBufLen = (word.drop 8).take tailBufLen := by
        refine List.take_append_of_le_length ?_
        simp only [scanOf, List.length_take] at hroom
        omega
      simp [scanOf, htake, hdrop, hcut]

theorem extractLoop_eq (text word : Bytes) :
    extractLoop text (scanOf word) = scanOf (word ++ keyword text) := by
  induction text generalizing word with
  | nil => simp [extractLoop, keyword]
  | cons c text ih =>
      by_cases hblank : c = 32
      · simp [extractLoop, keyword, hblank]
      have hkeyword : keyword (c :: text) = [fold c] ++ keyword text := by simp [keyword, hblank]
      rw [hkeyword, ← List.append_assoc, ← ih, scanOf_append, extractLoop, if_neg hblank]
      have hlen : (scanOf word).kwLen = word.length := rfl
      simp only [hlen]
      split
      · rfl
      · split <;> rfl

theorem extractKeywordAndKey_eq (text : Bytes) :
    (extractKeywordAndKey text).1 = scanOf (keyword text) := by
  have h := extractLoop_eq text []
  simpa [extractKeywordAndKey, scanOf, packFrom] using h

theorem scanOf_short_iff {word name : Bytes} (hname : name.length ≤ 8) :
    ((scanOf word).key = keyOf name ∧ (scanOf word).kwLen = name.length) ↔ word = name := by
  constructor
  · rintro ⟨hkey, hlen⟩
    have hlen : word.length = name.length := hlen
    have hword : word.take 8 = word := List.take_of_length_le (by omega)
    have hname' : name.take 8 = name := List.take_of_length_le hname
    exact packFrom_inj hlen (by simpa [scanOf, keyOf, hword, hname'] using hkey)
  · rintro rfl
    exact ⟨rfl, rfl⟩

theorem hasStarttls_storeUnknown (caps : Capabilities) (kw params : Bytes) :
    (storeUnknown caps kw params).hasStarttls = caps.hasStarttls := by
  unfold storeUnknown
  split <;> rfl

theorem hasStarttls_ite {p : Prop} [Decidable p] {caps caps' : Capabilities} {b : Bool}
    (h : caps.hasStarttls = b) (h' : caps'.hasStarttls = b) :
    (if p then caps else caps').hasStarttls = b := by
  split <;> assumption

/-- **A line offers STARTTLS** exactly if that is its keyword, in any case of letters. -/
theorem hasStarttls_parseLine (caps : Capabilities) (text : Bytes) :
    (parseLine caps text).hasStarttls
      = (caps.hasStarttls || decide (keyword text = bytes "STARTTLS")) := by
  have hscan := extractKeywordAndKey_eq text
  by_cases hkeyword : keyword text = bytes "STARTTLS"
  · have hne : text.isEmpty = false := by
      cases text with
      | nil => exact absurd hkeyword (by decide)
      | cons => rfl
    rw [hkeyword] at hscan
    unfold parseLine
    simp only [hne, hscan, hkeyword, decide_true, Bool.or_true, Bool.false_eq_true, if_false]
    rw [if_neg (by decide), if_neg (by decide), if_neg (by decide), if_pos (by decide)]
  · rw [decide_eq_false hkeyword, Bool.or_false]
    have hnot : ¬ ((extractKeywordAndKey text).1.key = keyOf (bytes "STARTTLS")
        ∧ (extractKeywordAndKey text).1.kwLen = 8) := by
      rw [hscan]
      exact fun h => hkeyword ((scanOf_short_iff (by decide)).mp h)
    unfold parseLine
    simp only [if_neg hnot]
    refine hasStarttls_ite rfl (hasStarttls_ite rfl (hasStarttls_ite ?_ (hasStarttls_ite rfl ?_)))
    · split <;> rfl
    -- The keywords behind STARTTLS.
    · iterate 6 refine hasStarttls_ite rfl ?_
      exact hasStarttls_storeUnknown ..

/-- The lines of a reply that offer STARTTLS, the greeting line not being one of them. -/
def offersStarttls (buf : Bytes) (lines : List (Nat × Reply.Line)) : Bool :=
  lines.tail.any fun line => decide (keyword (Reply.lineText buf line) = bytes "STARTTLS")

theorem hasStarttls_foldl (texts : List Bytes) (caps : Capabilities) :
    (texts.foldl parseLine caps).hasStarttls
      = (caps.hasStarttls || texts.any fun text => decide (keyword text = bytes "STARTTLS")) := by
  induction texts generalizing caps with
  | nil => simp
  | cons text texts ih =>
      rw [List.foldl_cons, ih, hasStarttls_parseLine, List.any_cons, Bool.or_assoc]

/-- **What an EHLO reply offers.** -/
theorem hasStarttls_of_parse {caps parsed : Capabilities} {buf : Bytes} {maxLines : Nat}
    {reply : Reply} (h : parseEhloResponse caps buf maxLines = some (.ok reply, parsed)) :
    ∃ lines, Reply.Lines buf 0 lines ∧ parsed.hasStarttls = offersStarttls buf lines := by
  obtain ⟨lines, hlines, -, heq⟩ := parseEhloResponse_eq (read_of_parseEhloResponse h) caps
  rw [h] at heq
  obtain rfl : parsed = _ := (Prod.mk.inj (Option.some.inj heq)).2
  refine ⟨lines, hlines, ?_⟩
  rw [hasStarttls_foldl, offersStarttls, ← List.map_tail, List.any_map]
  rfl

end Cap

end SmtpClient
