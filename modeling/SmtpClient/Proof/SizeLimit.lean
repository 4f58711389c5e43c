import SmtpClient.Proof.Dispatch
import Mathlib.Data.List.TakeWhile

/-!
# The limit a SIZE line declares

The digits behind the leading spaces are read exactly: the guard of the loop lets a step through
precisely when its result fits, so a number is taken with its value or, if that is above
`SIZE_MAX`, not at all. What stands behind the digits is not looked at.
-/

namespace SmtpClient

namespace Cap

/-- The value of a string of digits behind one of value `start`. -/
def valueFrom (start : Nat) (digits : Bytes) : Nat :=
  digits.foldl (fun value c => value * 10 + (c.toNat - 48)) start

def numeral (digits : Bytes) : Nat := valueFrom 0 digits

/-- The digits behind the leading spaces, and what stands behind them. -/
def digitsOf (params : Bytes) : Bytes := (params.dropWhile (· = 32)).takeWhile isDigit

def behindDigits (params : Bytes) : Bytes := (params.dropWhile (· = 32)).dropWhile isDigit

/-- One or more digits between spaces, if any. -/
structure Spells (params digits : Bytes) : Prop where
  blanks : ∃ lead trail, params
    = List.replicate lead 32 ++ (digits ++ List.replicate trail 32)
  nonempty : digits ≠ []
  digits : ∀ c ∈ digits, isDigit c = true

/-- A number that fits, with something else than spaces behind it. -/
def GarbageBehind (params : Bytes) : Prop :=
  digitsOf params ≠ [] ∧ numeral (digitsOf params) ≤ sizeMax ∧ ∃ c ∈ behindDigits params, c ≠ 32

/-! ### The loop -/

theorem le_valueFrom (start : Nat) (digits : Bytes) : start ≤ valueFrom start digits := by
  induction digits generalizing start with
  | nil => exact Nat.le_refl start
  | cons c digits ih =>
      calc start ≤ start * 10 + (c.toNat - 48) := by omega
        _ ≤ valueFrom start (c :: digits) := ih _

theorem isDigit_bound {c : UInt8} (h : isDigit c = true) : c.toNat - 48 ≤ 9 := by
  simp only [isDigit, Bool.and_eq_true, decide_eq_true_eq, UInt8.le_iff_toNat_le,
    UInt8.reduceToNat] at h
  omega

/-- The rearranged division is exact. -/
theorem overflow_iff {digit result : Nat} (hdigit : digit ≤ 9) :
    (sizeMax - digit) / 10 < result ↔ sizeMax < result * 10 + digit := by
  have hmax : sizeMax = 18446744073709551615 := rfl
  omega

theorem sizeLoop_eq (text : Bytes) {result : Nat} (hfits : result ≤ sizeMax) :
    sizeLoop text result
      = if valueFrom result (text.takeWhile isDigit) ≤ sizeMax then
          some (valueFrom result (text.takeWhile isDigit))
        else none := by
  induction text generalizing result with
  | nil => exact (if_pos hfits).symm
  | cons c text ih =>
      rw [sizeLoop]
      by_cases hc : isDigit c = true
      · rw [if_pos hc, List.takeWhile_cons_of_pos hc]
        have hvalue : valueFrom result (c :: text.takeWhile isDigit)
            = valueFrom (result * 10 + (c.toNat - 48)) (text.takeWhile isDigit) := rfl
        rw [hvalue]
        dsimp only
        split <;> rename_i hguard <;> rw [overflow_iff (isDigit_bound hc)] at hguard
        · have hle := le_valueFrom (result * 10 + (c.toNat - 48)) (text.takeWhile isDigit)
          rw [if_neg (by omega)]
        · exact ih (by omega)
      · rw [if_neg hc, List.takeWhile_cons_of_neg hc]
        exact (if_pos hfits).symm

/-- **What the parameter is read as.** -/
theorem parseSizeParam_eq (params : Bytes) :
    parseSizeParam params
      = if digitsOf params ≠ [] ∧ numeral (digitsOf params) ≤ sizeMax then
          some (numeral (digitsOf params))
        else none := by
  unfold parseSizeParam digitsOf
  cases params.dropWhile (· = 32) with
  | nil => rfl
  | cons c rest =>
      dsimp only
      by_cases hc : isDigit c = true
      · have hne : (c :: rest).takeWhile isDigit ≠ [] := by
          rw [List.takeWhile_cons_of_pos hc]
          exact List.cons_ne_nil _ _
        rw [if_pos hc, sizeLoop_eq _ (Nat.zero_le _)]
        simp only [numeral, ne_eq, hne, not_false_eq_true, true_and]
      · rw [if_neg hc, List.takeWhile_cons_of_neg hc]
        rfl

/-! ### The grammar -/

theorem spells_iff (params digits : Bytes) :
    Spells params digits
      ↔ digits = digitsOf params ∧ digitsOf params ≠ [] ∧ ∀ c ∈ behindDigits params, c = 32 := by
  have hblank : isDigit 32 = false := by decide
  constructor
  · rintro ⟨⟨lead, trail, rfl⟩, hne, hdigits⟩
    obtain ⟨d, more, rfl⟩ := List.exists_cons_of_ne_nil hne
    have hd : d ≠ 32 := by
      rintro rfl
      exact absurd (hdigits 32 List.mem_cons_self) (by decide)
    have hdrop : (List.replicate lead 32 ++ (d :: more ++ List.replicate trail 32)).dropWhile
        (· = (32 : UInt8)) = d :: more ++ List.replicate trail 32 := by
      rw [List.dropWhile_append_of_pos fun c hc => decide_eq_true (List.eq_of_mem_replicate hc),
        List.cons_append, List.dropWhile_cons_of_neg (by simpa using hd)]
    have hstop : (List.replicate trail (32 : UInt8)).takeWhile isDigit = []
        ∧ (List.replicate trail (32 : UInt8)).dropWhile isDigit = List.replicate trail 32 := by
      cases trail with
      | zero => exact ⟨rfl, rfl⟩
      | succ trail => exact ⟨by simp [List.replicate_succ, hblank],
          by simp [List.replicate_succ, hblank]⟩
    have hnumber : digitsOf (List.replicate lead 32 ++ (d :: more ++ List.replicate trail 32))
        = d :: more := by
      rw [digitsOf, hdrop, List.takeWhile_append_of_pos hdigits, hstop.1, List.append_nil]
    have hbehind : behindDigits (List.replicate lead 32 ++ (d :: more ++ List.replicate trail 32))
        = List.replicate trail 32 := by
      rw [behindDigits, hdrop, List.dropWhile_append_of_pos hdigits, hstop.2]
    rw [hnumber, hbehind]
    exact ⟨rfl, hne, fun c hc => List.eq_of_mem_replicate hc⟩
  · rintro ⟨rfl, hne, hbehind⟩
    refine ⟨⟨(params.takeWhile (· = 32)).length, (behindDigits params).length, ?_⟩, hne,
      fun c hc => List.mem_takeWhile_imp hc⟩
    have hlead : List.replicate (params.takeWhile (· = 32)).length 32
        = params.takeWhile (· = (32 : UInt8)) :=
      (List.eq_replicate_of_mem fun c hc => by simpa using List.mem_takeWhile_imp hc).symm
    have htrail : List.replicate (behindDigits params).length 32 = behindDigits params :=
      (List.eq_replicate_of_mem hbehind).symm
    calc params = params.takeWhile (· = 32) ++ params.dropWhile (· = 32) :=
          List.takeWhile_append_dropWhile.symm
      _ = params.takeWhile (· = 32) ++ (digitsOf params ++ behindDigits params) := by
          exact congrArg _ List.takeWhile_append_dropWhile.symm
      _ = _ := by rw [hlead, htrail]

/-! ### The line -/

/-- The limit is exact or declared invalid. -/
def SizeExact (params : Bytes) (caps : Capabilities) : Prop :=
  caps.hasSize = true
    ∧ (caps.sizeLimitValid = true ↔ ∃ digits, Spells params digits ∧ numeral digits ≤ sizeMax)
    ∧ ∀ digits, Spells params digits → numeral digits ≤ sizeMax → caps.sizeLimit = numeral digits

/-- **When a SIZE limit is exact.** After a SIZE line the limit is exact or invalid as the parameter
is well formed or not, unless a number that fits is followed by something else than spaces; then it
passes for well formed. -/
theorem sizeExact_iff (caps : Capabilities) (text : Bytes)
    (hname : ciEqual (kwOf text) Known.size.name = true) :
    SizeExact (paramsOf text) (parseLine caps text) ↔ ¬GarbageBehind (paramsOf text) := by
  rw [parseLine_known caps hname]
  generalize paramsOf text = params
  unfold SizeExact Known.body
  dsimp only
  rw [parseSizeParam_eq]
  simp only [spells_iff]
  by_cases hread : digitsOf params ≠ [] ∧ numeral (digitsOf params) ≤ sizeMax
  · rw [if_pos hread]
    constructor
    · rintro ⟨-, hvalid, -⟩ ⟨-, -, c, hc, hne⟩
      obtain ⟨_, ⟨-, -, hblank⟩, -⟩ := hvalid.mp rfl
      exact hne (hblank c hc)
    · intro hclean
      have hblank : ∀ c ∈ behindDigits params, c = 32 := by
        intro c hc
        by_contra hne
        exact hclean ⟨hread.1, hread.2, c, hc, hne⟩
      refine ⟨rfl, ⟨fun _ => ⟨_, ⟨rfl, hread.1, hblank⟩, hread.2⟩, fun _ => rfl⟩, ?_⟩
      rintro _ ⟨rfl, -, -⟩ -
      rfl
  · rw [if_neg hread]
    have hnone {digits : Bytes} (hspells : digits = digitsOf params ∧ digitsOf params ≠ []
        ∧ ∀ c ∈ behindDigits params, c = 32) (hfits : numeral digits ≤ sizeMax) : False := by
      obtain ⟨rfl, hne, -⟩ := hspells
      exact hread ⟨hne, hfits⟩
    refine iff_of_true ⟨rfl, ⟨by simp, ?_⟩, ?_⟩ fun hgarbage => hread ⟨hgarbage.1, hgarbage.2.1⟩
    · rintro ⟨digits, hspells, hfits⟩
      exact (hnone hspells hfits).elim
    · intro digits hspells hfits
      exact (hnone hspells hfits).elim

/-- A limit with a space in front of it and behind it. -/
theorem sizeExact_blanks :
    ciEqual (kwOf (bytes "SIZE  1024 ")) Known.size.name = true
      ∧ SizeExact (paramsOf (bytes "SIZE  1024 ")) (parseLine init (bytes "SIZE  1024 ")) := by
  have hname : ciEqual (kwOf (bytes "SIZE  1024 ")) Known.size.name = true := by decide
  refine ⟨hname, (sizeExact_iff init _ hname).mpr ?_⟩
  rintro ⟨-, -, c, hc, hne⟩
  have hbehind : behindDigits (paramsOf (bytes "SIZE  1024 ")) = [32] := by decide
  rw [hbehind, List.mem_singleton] at hc
  exact hne hc

/-- "123abc" passes for 123. -/
theorem garbage_passes :
    ¬SizeExact (paramsOf (bytes "SIZE 123abc")) (parseLine init (bytes "SIZE 123abc")) := by
  rintro ⟨-, hvalid, -⟩
  have hpasses : (parseLine init (bytes "SIZE 123abc")).sizeLimitValid = true := by decide
  obtain ⟨digits, hspells, -⟩ := hvalid.mp hpasses
  obtain ⟨-, -, hblank⟩ := (spells_iff _ _).mp hspells
  exact absurd (hblank 97 (by decide)) (by decide)

end Cap

end SmtpClient
