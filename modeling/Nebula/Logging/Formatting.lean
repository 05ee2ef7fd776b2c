import Nebula.Library.Bytes
import Nebula.Library.Text

/-!
How a log message is put together. `LogHandle::log` and `LogServer::writeLogMessage` format a header
and a body into a buffer, one behind the other, and see to it that the message ends in a newline;
they differ in the buffer, and in what they take for its size when the message does not fit.

`formatMessage_spec` says which bytes are in the buffer afterwards, and that no byte has been stored
next to it.
-/

set_option autoImplicit false
set_option relaxedAutoImplicit false

namespace Nebula.Logging

open Nebula.Library

/-! ### Levels -/

/-- `LogLevel::Constants`. -/
inductive LogLevel where
  | emerg
  | alert
  | crit
  | err
  | warning
  | notice
  | info
  | debug
  deriving DecidableEq

namespace LogLevel

/-- The value of a constant. -/
def value : LogLevel → ℤ
  | emerg => 0
  | alert => 1
  | crit => 2
  | err => 3
  | warning => 4
  | notice => 5
  | info => 6
  | debug => 7

/-- `LogLevel::toString`. -/
def toString (c : ℤ) (abbr : Bool) : Bytes :=
  if c = emerg.value then ascii (if abbr then "eme" else "emerg")
  else if c = alert.value then ascii (if abbr then "ale" else "alert")
  else if c = crit.value then ascii (if abbr then "cri" else "crit")
  else if c = err.value then ascii "err"
  else if c = warning.value then ascii (if abbr then "war" else "warning")
  else if c = notice.value then ascii (if abbr then "not" else "notice")
  else if c = info.value then ascii (if abbr then "inf" else "info")
  else if c = debug.value then ascii (if abbr then "deb" else "debug")
  else ascii (if abbr then "<?>" else "<unknown>")

/-- The abbreviations have three letters. -/
theorem length_toString (level : LogLevel) : (toString level.value true).length = 3 := by
  cases level <;> decide

end LogLevel

/-! ### Formatting -/

/-- What `Time::strTimestamp` leaves in an array of 64 bytes. -/
structure Timestamp where
  bytes : Bytes
  length_lt : bytes.length < 64

/-- The body of `log` and `writeLogMessage` between the allocation of the buffer and the use of the
message, with the number of its bytes; `full` stands for `sizeof(buffer) - 1`. There is no message
if the header cannot be formatted. -/
def formatMessage (buffer : Buffer UInt8) (bufferSize full : ℕ) (header body : Bytes) :
    Option (ℤ × Buffer UInt8) :=
  let (len, buffer) := buffer.snprintf 0 bufferSize header
  if len < 0 then none
  else
    let (delta, buffer) := buffer.snprintf len ((bufferSize : ℤ) - len).toNat body
    let len := if delta ≥ bufferSize - len then (full : ℤ) else len + delta
    if len = full then some (len + 1, buffer.write len newline)
    else
      let last := buffer.cell (len - 1)
      let buffer := buffer.touch (len - 1)
      if last ≠ newline then some (len + 1, buffer.write len newline) else some (len, buffer)

/-- How many bytes of a text are taken for the message. -/
def kept (size full : ℕ) (text : Bytes) : ℕ := if text.length < size then text.length else full

/-- The first bytes of a text, with a newline behind them unless they end in one; it is always there
when their number is the one that stands for a full buffer. -/
def withNewline (full n : ℕ) (text : Bytes) : Bytes :=
  if n = full ∨ (text.take n).getLast? ≠ some newline then text.take n ++ [newline] else text.take n

section Spec

variable {b : Buffer UInt8} {size full : ℕ} {header body text : Bytes}

/-- There are as many bytes in the buffer as are taken. -/
theorem kept_le (hfull : full < size) (text : Bytes) :
    kept size full text ≤ (text.take (size - 1)).length := by
  rw [List.length_take, kept]
  split_ifs <;> omega

theorem kept_pos (hpos : 0 < text.length) (hne : kept size full text ≠ full) :
    0 < kept size full text := by
  unfold kept at hne ⊢
  split_ifs at hne ⊢
  · exact hpos
  · exact absurd rfl hne

/-- The bytes that are taken, as they are in the buffer. -/
theorem slice_kept (hfull : full < size) (b : Buffer UInt8) (text : Bytes) :
    (b.store 0 (text.take (size - 1))).slice 0 (kept size full text) =
      text.take (kept size full text) := by
  have hle := kept_le hfull text
  have hslice := Buffer.slice_store b 0 hle
  rw [List.length_take, Nat.le_min] at hle
  rw [zero_add, List.take_take, Nat.min_eq_left hle.1] at hslice
  exact hslice

/-- The last of the bytes that are taken. -/
theorem getLast?_kept (hfull : full < size) (b : Buffer UInt8) (text : Bytes)
    (hpos : 0 < kept size full text) :
    (text.take (kept size full text)).getLast? =
      some ((b.store 0 (text.take (size - 1))).cell (kept size full text - 1)) := by
  rw [← slice_kept hfull b, Buffer.slice_eq_concat (by omega), List.getLast?_concat]

/-- What is done with the text when it is in the buffer. -/
theorem formatMessage_eq {stored : Buffer UInt8} {n : ℕ} (hheader : header.length < size)
    (body : Bytes) (hstored : b.store 0 ((header ++ body).take (size - 1)) = stored)
    (hn : kept size full (header ++ body) = n) :
    formatMessage b size full header body =
      if (n : ℤ) = full then some ((n : ℤ) + 1, stored.write n newline)
      else if stored.cell (n - 1) ≠ newline then
        some ((n : ℤ) + 1, (stored.touch (n - 1)).write n newline)
      else some ((n : ℤ), stored.touch (n - 1)) := by
  have hlen : (if (body.length : ℤ) ≥ size - header.length then (full : ℤ)
      else header.length + body.length) = n := by
    rw [← hn, kept, List.length_append]
    split_ifs <;> omega
  have hnonneg : ¬ (header.length : ℤ) < 0 := by omega
  have hresult : ∀ (b : Buffer UInt8) (i : ℤ) (size : ℕ) (text : Bytes),
      (b.snprintf i size text).1 = text.length := fun _ _ _ _ ↦ rfl
  unfold formatMessage
  simp only [hresult, if_neg hnonneg, b.snprintf_snprintf hheader, hlen, hstored]

/-- The message consists of the bytes that are taken, and a newline. -/
theorem formatMessage_spec (hsize : b.size = size) (hfull : full < size) (hne : header ≠ [])
    (hheader : header.length < size) (body : Bytes) :
    ∃ len b', formatMessage b size full header body = some (len, b') ∧ b'.size = size ∧
      b'.strayed = b.strayed ∧
      b'.slice 0 len = withNewline full (kept size full (header ++ body)) (header ++ body) := by
  have hpos : 0 < (header ++ body).length := by
    have := List.length_pos_iff.mpr hne
    rw [List.length_append]
    omega
  have hroom : (b.store 0 ((header ++ body).take (size - 1))).size = size :=
    (Buffer.size_store ..).trans hsize
  have hstrayed : (b.store 0 ((header ++ body).take (size - 1))).strayed = b.strayed := by
    refine Buffer.strayed_store le_rfl ?_
    rw [List.length_take]
    omega
  have hle := kept_le hfull (header ++ body)
  have hslice := slice_kept hfull b (header ++ body)
  have hlast := getLast?_kept hfull b (header ++ body)
  generalize hstored : b.store 0 ((header ++ body).take (size - 1)) = stored at *
  generalize hn : kept size full (header ++ body) = n at *
  have hbounds : stored.InBounds n := by
    rw [List.length_take] at hle
    exact ⟨by omega, by omega⟩
  have hwritten : (stored.write n newline).slice 0 (n + 1) =
      (header ++ body).take n ++ [newline] := by
    rw [Buffer.slice_push (by omega), hslice]
  have hwrite : (stored.write n newline).strayed = b.strayed :=
    (Buffer.strayed_write_of_inBounds hbounds _).trans hstrayed
  rw [formatMessage_eq hheader body hstored hn, withNewline]
  by_cases hnfull : n = full
  · rw [if_pos (congrArg Nat.cast hnfull), if_pos (Or.inl hnfull)]
    exact ⟨_, _, rfl, hroom, hwrite, hwritten⟩
  · have hnpos : 0 < n := hn ▸ kept_pos hpos (hn.symm ▸ hnfull)
    have htouch : stored.touch (n - 1) = stored :=
      Buffer.touch_of_inBounds ⟨by omega, by have := hbounds.2; omega⟩
    rw [if_neg (mod_cast hnfull), hlast hnpos, htouch]
    by_cases hnewline : stored.cell (n - 1) = newline
    · rw [if_neg (not_not.mpr hnewline), if_neg (by simp [hnfull, hnewline])]
      exact ⟨_, _, rfl, hroom, hstrayed, hslice⟩
    · rw [if_pos hnewline, if_pos (Or.inr (by simpa using hnewline))]
      exact ⟨_, _, rfl, hroom, hwrite, hwritten⟩

end Spec

end Nebula.Logging
