import SmtpClient.HeaderEncoding

/-!
# Header values

`smtp_header_value.c`, its names less the prefix: one pass over a header value, which takes folds as
pairs and encoded words as wholes. A failed verdict carries the offset `smtp_hdrval_fail` records;
the texts of the errors, which no verdict depends on, are left out. A NULL value is the empty one.
-/

namespace SmtpClient

namespace HeaderValue

open HeaderEncoding (equals question validateEncodedWord)

def maxLineLen : Nat := 998

def isWsp (c : UInt8) : Bool := c == 32 || c == 9

def isVchar (c : UInt8) : Bool := 33 ≤ c && c ≤ 126

def isDisallowedControl (c : UInt8) : Bool :=
  if c = cr ∨ c = lf then false else !isVchar c && !isWsp c

inductive Err where
  | empty
  | controlChar
  | bareCr
  | bareLf
  | foldNotWsp
  | lineTooLong
  | encodedWordInvalid
  deriving DecidableEq, Repr

/-- An error and the offset it is reported at. -/
abbrev Failure := Err × Nat

/-- The variables of the loop of `smtp_hdrval_validate`. -/
structure Cursor where
  i : Nat
  lineLen : Nat
  deriving DecidableEq, Repr

/-- The length check at the end of the loop's body. -/
def Cursor.checked (s : Cursor) : Except Failure Cursor :=
  if maxLineLen < s.lineLen then .error (.lineTooLong, s.i) else .ok s

/-- `smtp_hdrval_step_handle_fold`; the line length is left as it is behind the last CRLF. -/
def stepHandleFold (value : Bytes) (s : Cursor) : Except Failure Cursor :=
  if value[s.i + 1]? ≠ some lf then .error (.bareCr, s.i)
  else if s.i + 2 = value.length then .ok { s with i := value.length }
  else if !(value[s.i + 2]?).any isWsp then .error (.foldNotWsp, s.i + 2)
  else .ok ⟨s.i + 2, 0⟩

/-- A loop of the locator from `start` on: where the first `?` or CR stands, or the value ends. -/
def scanRun (value : Bytes) (start : Nat) : Nat :=
  start + ((value.drop start).takeWhile fun c => c != question && c != cr).length

/-- `smtp_hdrval_locate_encoded_word_candidate`: the end of the candidate, if one is found. -/
def locateEncodedWordCandidate (value : Bytes) (start : Nat) : Option Nat :=
  let charsetEnd := scanRun value (start + 2)
  if value[charsetEnd]? ≠ some question then none
  else
    let encodingPos := charsetEnd + 1
    let encodingDelim := encodingPos + 1
    if value[encodingDelim]? ≠ some question then none
    else
      let textEnd := scanRun value (encodingDelim + 1)
      if value[textEnd]? ≠ some question ∨ value[textEnd + 1]? ≠ some equals then none
      else some (textEnd + 2)

/-- One round of the loop of `smtp_hdrval_validate` at the byte `c`. -/
def step (value : Bytes) (c : UInt8) (s : Cursor) : Except Failure Cursor :=
  if c = cr then stepHandleFold value s
  else if c = lf then .error (.bareLf, s.i)
  else if isDisallowedControl c then .error (.controlChar, s.i)
  else
    let candidate :=
      if c = equals ∧ value[s.i + 1]? = some question then locateEncodedWordCandidate value s.i
      else none
    match candidate with
    | some stop =>
        match validateEncodedWord ((value.take stop).drop s.i) with
        | .error _ => .error (.encodedWordInvalid, s.i)
        | .ok () => (Cursor.mk stop (s.lineLen + (stop - s.i))).checked
    | none => (Cursor.mk (s.i + 1) (s.lineLen + 1)).checked

theorem checked_eq_ok {s s' : Cursor} : s.checked = .ok s' ↔ s.lineLen ≤ maxLineLen ∧ s = s' := by
  unfold Cursor.checked
  split
  · rename_i h
    exact ⟨nofun, fun heq => absurd heq.1 (Nat.not_le.mpr h)⟩
  · rename_i h
    rw [Except.ok.injEq]
    exact ⟨fun heq => ⟨Nat.le_of_not_lt h, heq⟩, And.right⟩

theorem lt_of_locate {value : Bytes} {start stop : Nat}
    (h : locateEncodedWordCandidate value start = some stop) : start < stop := by
  have hscan (k : Nat) : k ≤ scanRun value k := Nat.le_add_right _ _
  simp only [locateEncodedWordCandidate] at h
  split at h
  · cases h
  split at h
  · cases h
  split at h
  · cases h
  have hfirst := hscan (start + 2)
  have hsecond := hscan (scanRun value (start + 2) + 1 + 1 + 1)
  have hstop := Option.some.inj h
  omega

/-- Every round goes on. -/
theorem lt_of_step {value : Bytes} {c : UInt8} {s s' : Cursor} (hlt : s.i < value.length)
    (h : step value c s = .ok s') : s.i < s'.i := by
  simp only [step] at h
  split at h
  · simp only [stepHandleFold] at h
    split at h
    · cases h
    split at h
    · cases h
      exact hlt
    split at h
    · cases h
    · cases h
      exact Nat.lt_add_of_pos_right (by decide)
  split at h
  · cases h
  split at h
  · cases h
  split at h
  · rename_i stop hcandidate
    split at h
    · cases h
    obtain ⟨-, rfl⟩ := checked_eq_ok.mp h
    split at hcandidate
    · exact lt_of_locate hcandidate
    · cases hcandidate
  · obtain ⟨-, rfl⟩ := checked_eq_ok.mp h
    exact Nat.lt_succ_self s.i

/-- The loop of `smtp_hdrval_validate`. -/
def validateLoop (value : Bytes) (s : Cursor) : Except Failure Unit :=
  if hlt : s.i < value.length then
    match h : step value value[s.i] s with
    | .error failure => .error failure
    | .ok s' => validateLoop value s'
  else .ok ()
termination_by value.length - s.i
decreasing_by
  have hnext := lt_of_step hlt h
  omega

/-- `smtp_hdrval_validate`. -/
def validate (value : Bytes) : Except Failure Unit :=
  if value = [] then .error (.empty, 0) else validateLoop value ⟨0, 0⟩

end HeaderValue

end SmtpClient
