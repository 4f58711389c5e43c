import SmtpClient.Base.BoundedLog
import SmtpClient.Proof.Dispatch

/-!
# The catch-all store

Over any sequence of lines the store is a log of those that match no known name: the first
thirty-two of them, each cut to the size of a slot and marked if that lost anything, and the number
of the others.
-/

namespace SmtpClient

namespace Cap

/-- A line that is not blank and whose keyword is no known name. -/
def isUnknown (text : Bytes) : Bool :=
  !text.isEmpty && Known.all.all fun known => !ciEqual (kwOf text) known.name

def unknownLines (texts : List Bytes) : List Bytes := texts.filter isUnknown

/-- What a slot holds of a line. -/
def slotOf (text : Bytes) : CapUnknown where
  keyword := (kwOf text).take 31
  params := (paramsOf text).take 127
  truncated := decide (31 < (kwOf text).length ∨ 127 < (paramsOf text).length)

abbrev UnknownLog := BoundedLog CapUnknown maxUnknown

/-- The set holds this log. -/
def Holds (caps : Capabilities) (log : UnknownLog) : Prop :=
  caps.unknown = log.entries ∧ caps.unknownOverflowCount = .ofNat log.dropped

theorem isUnknown_iff (text : Bytes) :
    isUnknown text = true
      ↔ text ≠ [] ∧ ∀ known : Known, ciEqual (kwOf text) known.name = false := by
  simp only [isUnknown, Bool.and_eq_true, Bool.not_eq_true', List.isEmpty_eq_false_iff,
    List.all_eq_true, Known.mem_all, true_implies]

theorem body_unknown (known : Known) (caps : Capabilities) (params : Bytes) :
    (known.body caps params).unknown = caps.unknown
      ∧ (known.body caps params).unknownOverflowCount = caps.unknownOverflowCount := by
  have hkept (caps' : Capabilities) : (known.putBack caps caps').unknown = caps'.unknown
      ∧ (known.putBack caps caps').unknownOverflowCount = caps'.unknownOverflowCount := by
    cases known <;> exact ⟨rfl, rfl⟩
  obtain ⟨hunknown, hoverflow⟩ := hkept (known.body caps params)
  rw [← hunknown, ← hoverflow, known.putBack_body]
  exact ⟨rfl, rfl⟩

theorem slot_eq (text : Bytes) :
    (⟨(boundedCopy maxKeywordLen (kwOf text)).1, (boundedCopy maxParamLen (paramsOf text)).1,
      (boundedCopy maxKeywordLen (kwOf text)).2 || (boundedCopy maxParamLen (paramsOf text)).2⟩
      : CapUnknown) = slotOf text := by
  rw [slotOf, Bool.decide_or]
  rfl

theorem Holds.storeUnknown {caps : Capabilities} {log : UnknownLog} (h : Holds caps log)
    (text : Bytes) :
    Holds (Cap.storeUnknown caps (kwOf text) (paramsOf text)) (log.push (slotOf text)) := by
  obtain ⟨hunknown, hoverflow⟩ := h
  unfold Cap.storeUnknown
  split <;> rename_i hroom <;> rw [hunknown] at hroom
  · obtain ⟨hentries, hdropped⟩ := BoundedLog.push_of_le hroom (slotOf text)
    refine ⟨hunknown.trans hentries.symm, ?_⟩
    rw [hdropped, UInt64.ofNat_add, ← hoverflow]
    rfl
  · obtain ⟨hentries, hdropped⟩ := BoundedLog.push_of_lt (Nat.lt_of_not_le hroom) (slotOf text)
    refine ⟨?_, hoverflow.trans (congrArg UInt64.ofNat hdropped.symm)⟩
    dsimp only
    rw [slot_eq, hunknown, hentries]

theorem Holds.parseLine {caps : Capabilities} {log : UnknownLog} (h : Holds caps log)
    (text : Bytes) :
    Holds (Cap.parseLine caps text) (if isUnknown text then log.push (slotOf text) else log) := by
  by_cases hne : text = []
  · subst hne
    exact h
  rw [parseLine_eq caps hne]
  cases hdispatch : dispatch (extractKeywordAndKey text).1 with
  | some known =>
      have hname := (dispatch_eq_some_iff text known).mp hdispatch
      have hknown : ¬isUnknown text = true := by
        intro hunknown
        exact absurd hname (by simp [((isUnknown_iff text).mp hunknown).2 known])
      obtain ⟨hunknown, hoverflow⟩ := body_unknown known caps (paramsOf text)
      rw [if_neg hknown]
      exact ⟨hunknown.trans h.1, hoverflow.trans h.2⟩
  | none =>
      have hunknown : isUnknown text = true :=
        (isUnknown_iff text).mpr ⟨hne, (dispatch_eq_none_iff text).mp hdispatch⟩
      rw [if_pos hunknown]
      exact h.storeUnknown text

theorem Holds.foldl {caps : Capabilities} {log : UnknownLog} (h : Holds caps log)
    (texts : List Bytes) :
    Holds (texts.foldl Cap.parseLine caps)
      (((unknownLines texts).map slotOf).foldl BoundedLog.push log) := by
  induction texts generalizing caps log with
  | nil => exact h
  | cons text texts ih =>
      have hnext := ih (h.parseLine text)
      rw [List.foldl_cons, unknownLines, List.filter_cons]
      split <;> rename_i hunknown
      · rw [if_pos hunknown] at hnext
        exact hnext
      · rw [if_neg hunknown] at hnext
        exact hnext

/-- **No unknown extension is lost or reordered.** The two counts add up to the number of the lines,
in the arithmetic of a `size_t`. -/
theorem unknown_store (texts : List Bytes) :
    let caps := texts.foldl parseLine init
    caps.unknown.length = min (unknownLines texts).length 32
      ∧ caps.unknownOverflowCount.toNat = ((unknownLines texts).length - 32) % 2 ^ 64
      ∧ .ofNat caps.unknown.length + caps.unknownOverflowCount
        = UInt64.ofNat (unknownLines texts).length
      ∧ ∀ j, j < caps.unknown.length → ∃ text, (unknownLines texts)[j]? = some text
        ∧ caps.unknown[j]? = some (slotOf text) := by
  intro caps
  have hstart : Holds init (BoundedLog.empty : UnknownLog) := ⟨rfl, rfl⟩
  obtain ⟨hunknown, hoverflow⟩ := hstart.foldl texts
  obtain ⟨hentries, hdropped⟩ :=
    @BoundedLog.foldl_push CapUnknown maxUnknown ((unknownLines texts).map slotOf)
  have hslots : caps.unknown = ((unknownLines texts).map slotOf).take 32 := hunknown.trans hentries
  have hcount : caps.unknownOverflowCount = .ofNat ((unknownLines texts).length - 32) := by
    rw [← List.length_map slotOf]
    exact hoverflow.trans (congrArg UInt64.ofNat hdropped)
  have hlength : caps.unknown.length = min (unknownLines texts).length 32 := by
    rw [hslots, List.length_take, List.length_map, Nat.min_comm]
  refine ⟨hlength, ?_, ?_, ?_⟩
  · rw [hcount]
    exact UInt64.toNat_ofNat'
  · rw [hcount, ← UInt64.ofNat_add, hlength]
    congr 1
    omega
  intro j hj
  have hbound : j < (unknownLines texts).length := by omega
  refine ⟨(unknownLines texts)[j], List.getElem?_eq_getElem hbound, ?_⟩
  rw [hslots, List.getElem?_take_of_lt (by omega), List.getElem?_map,
    List.getElem?_eq_getElem hbound]
  rfl

end Cap

end SmtpClient
