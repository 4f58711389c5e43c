import Mathlib.Algebra.Group.Nat.Defs
import Mathlib.Data.List.Basic
import Mathlib.Data.List.TakeWhile
import Mathlib.Tactic.Common

/-!
# Bytes, fixed-size buffers and C strings

What a C program does to a `char` array, over lists of bytes: a buffer has a size that no operation
changes, `blit` overwrites a stretch of it and leaves the rest as it was, stale bytes included, and
`slice` reads a stretch back. A C string is represented by the bytes before its terminating NUL, so
a bounded copy or an `snprintf` into `size` bytes keeps the first `size - 1` of them.
-/

namespace SmtpClient

abbrev Bytes := List UInt8

def cr : UInt8 := 13
def lf : UInt8 := 10

/-- The bytes of an ASCII string literal. -/
def bytes (text : String) : Bytes := text.toList.map fun c => UInt8.ofNat c.toNat

/-- What holds of all 256 bytes. -/
theorem forall_byte {p : UInt8 → Prop} (h : ∀ n : Fin 256, p (UInt8.ofNat n.val)) (c : UInt8) :
    p c := by
  have hc := h c.toFin
  rwa [show UInt8.ofNat c.toFin.val = c from UInt8.ofNat_toNat] at hc

theorem getElem?_behind {front back : Bytes} {i : Nat} (k : Nat) (h : i = front.length + k) :
    (front ++ back)[i]? = back[k]? := by
  rw [List.getElem?_append_right (by omega), h, Nat.add_sub_cancel_left]

/-- What stands between two stretches of a text. -/
theorem take_drop_between (front text back : Bytes) :
    ((front ++ (text ++ back)).take (front.length + text.length)).drop front.length = text := by
  rw [← List.append_assoc, ← List.length_append, List.take_left, List.drop_left]

/-- A `char[size]`. -/
structure Buffer (size : Nat) where
  bytes : Bytes
  length_eq : bytes.length = size

namespace Buffer

variable {size : Nat}

/-- What `memset(buf, 0, size)` leaves. -/
def zero (size : Nat) : Buffer size := ⟨List.replicate size 0, by simp⟩

/-- `memcpy(buf + offset, data, length)`, cut at the end of the buffer. -/
def blit (buffer : Buffer size) (offset : Nat) (data : Bytes) : Buffer size :=
  ⟨buffer.bytes.take offset ++ data.take (size - offset) ++ buffer.bytes.drop (offset + data.length),
    by
      simp only [List.length_append, List.length_take, List.length_drop, buffer.length_eq]
      omega⟩

/-- `buf[offset .. offset + length)`. -/
def slice (buffer : Buffer size) (offset length : Nat) : Bytes :=
  (buffer.bytes.drop offset).take length

@[simp] theorem slice_zero_length (buffer : Buffer size) (offset : Nat) :
    buffer.slice offset 0 = [] := by simp [slice]

theorem length_slice_le (buffer : Buffer size) (offset length : Nat) :
    (buffer.slice offset length).length ≤ length := by
  simp only [slice, List.length_take]
  omega

theorem length_slice (buffer : Buffer size) {length : Nat} (h : length ≤ size) :
    (buffer.slice 0 length).length = length := by
  simp only [slice, List.drop_zero, List.length_take, buffer.length_eq]
  omega

theorem length_slice_of_le (buffer : Buffer size) {offset length : Nat}
    (h : offset + length ≤ size) : (buffer.slice offset length).length = length := by
  simp only [slice, List.length_take, List.length_drop, buffer.length_eq]
  omega

/-- Writing at the end of a prefix extends the prefix by what was written, whatever the buffer held
behind it. -/
theorem slice_blit (buffer : Buffer size) {offset : Nat} {data : Bytes}
    (h : offset + data.length ≤ size) :
    (buffer.blit offset data).slice 0 (offset + data.length) = buffer.slice 0 offset ++ data := by
  have hlength : (buffer.bytes.take offset ++ data).length = offset + data.length := by
    simp only [List.length_append, List.length_take, buffer.length_eq]
    omega
  have hdata : data.take (size - offset) = data := List.take_of_length_le (by omega)
  simp only [slice, blit, List.drop_zero, hdata]
  rw [← hlength, List.take_left]

/-- What lies before the place written to is kept. -/
theorem slice_blit_before (buffer : Buffer size) (offset : Nat) (data : Bytes)
    (h : offset ≤ size) : (buffer.blit offset data).slice 0 offset = buffer.slice 0 offset := by
  have hlength : (buffer.bytes.take offset).length = offset := by
    simp only [List.length_take, buffer.length_eq]
    omega
  have htake : ∀ rest : Bytes, (buffer.bytes.take offset ++ rest).take offset
      = buffer.bytes.take offset := by
    intro rest
    conv_lhs => rw [← hlength]
    rw [hlength, List.take_append_of_le_length (by omega), List.take_take, Nat.min_self]
  simp only [slice, blit, List.drop_zero, List.append_assoc]
  exact htake _

theorem slice_blit_zero (buffer : Buffer size) {data : Bytes} (h : data.length ≤ size) :
    (buffer.blit 0 data).slice 0 data.length = data := by
  have hslice := @slice_blit _ buffer 0 data (by omega)
  simpa [slice] using hslice

end Buffer

/-- What a NUL-terminated destination of `size` bytes holds after `snprintf` or a bounded copy. -/
def clip (size : Nat) (text : Bytes) : Bytes := text.take (size - 1)

/-- The string a `char*` denotes: the bytes before the first NUL. -/
def cstr (text : Bytes) : Bytes := text.takeWhile (· ≠ 0)

theorem mem_of_mem_clip {size : Nat} {text : Bytes} {c : UInt8} (h : c ∈ clip size text) :
    c ∈ text := List.mem_of_mem_take h

theorem mem_of_mem_cstr {text : Bytes} {c : UInt8} (h : c ∈ cstr text) : c ∈ text :=
  (List.takeWhile_sublist _).subset h

theorem length_clip (size : Nat) (text : Bytes) :
    (clip size text).length = min (size - 1) text.length := by simp [clip]

/-- Text behind the end is cut off, and text across it is cut there. -/
theorem clip_append (size : Nat) (text more : Bytes) :
    clip size (text ++ more)
      = if text.length < size then
          (clip size text).take text.length ++ clip (size - text.length) more
        else clip size text := by
  split
  · rename_i hlt
    have hall : clip size text = text := List.take_of_length_le (Nat.le_sub_one_of_lt hlt)
    rw [hall, List.take_length, clip, clip, List.take_append,
      List.take_of_length_le (Nat.le_sub_one_of_lt hlt), Nat.sub_right_comm]
  · rename_i hle
    exact List.take_append_of_le_length (by omega)

theorem cstr_of_ne {text : Bytes} (h : ∀ c ∈ text, c ≠ 0) : cstr text = text := by
  rw [cstr, List.takeWhile_eq_self_iff]
  simpa using h

/-- A string with its NUL is read back as that string. -/
theorem cstr_of_slice {size : Nat} {buffer : Buffer size} {text : Bytes}
    (hslice : buffer.slice 0 (text.length + 1) = text ++ [0]) (h : ∀ c ∈ text, c ≠ 0) :
    cstr buffer.bytes = text := by
  rw [Buffer.slice, List.drop_zero] at hslice
  rw [cstr, ← List.take_append_drop (text.length + 1) buffer.bytes, hslice, List.append_assoc,
    List.takeWhile_append_of_pos (by simpa using h), List.singleton_append,
    List.takeWhile_cons_of_neg (by simp), List.append_nil]

end SmtpClient
