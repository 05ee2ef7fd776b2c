import Nebula.Logging.FileHandle
import Nebula.Logging.LogHandle

/-!
`LogServer::writeLogMessage`, with which the log server reports about itself: it formats a message
into a buffer of 4 KiB on the stack and hands it to `FileHandle::writeMessage`.

`passesFramed_iff` says when the record has one newline at its end: always, except when the text
fills the buffer and its last byte in the buffer is a newline already.
-/

set_option autoImplicit false
set_option relaxedAutoImplicit false

namespace Nebula.Logging.LogServer

open Nebula.Library LogHandle

/-- `sizeof(buffer)`. -/
abbrev bufferSize : ℕ := 4096

/-- `"[%s %s LogServer] "`. -/
def header (timestamp : Timestamp) (level : LogLevel) : Bytes :=
  ascii "[" ++ timestamp.bytes ++ ascii " " ++ LogLevel.toString level.value true ++
    ascii " LogServer] "

/-- What `writeLogMessage` does: its result, the buffer when it returns, the bytes that are passed
to `FileHandle::writeMessage`, and the file handle and the system calls afterwards. -/
structure Written where
  result : ℤ
  buffer : Buffer UInt8
  message : Option Bytes
  fileHandle : FileHandle
  calls : List (FileCall Bytes)

/-- `buffer`; `cells` is what the stack holds where it lies. -/
def stackBuffer (cells : ℤ → UInt8) : Buffer UInt8 := ⟨bufferSize, cells, false⟩

/-- The end of `writeLogMessage`, where `write` returns `result`. -/
def passOn (fileHandle : FileHandle) (result : ℤ) (buffer : Buffer UInt8) :
    Option (ℤ × Buffer UInt8) → Written
  | none => ⟨-1, buffer, none, fileHandle, []⟩
  | some (len, buffer) =>
      let message := buffer.slice 0 len
      let written := fileHandle.writeMessage message result
      ⟨(BitVec.ofInt 32 written.1).toInt, buffer, some message, written.2.1, written.2.2⟩

/-- `writeLogMessage`. -/
def writeLogMessage (fileHandle : FileHandle) (cells : ℤ → UInt8) (timestamp : Timestamp)
    (level : LogLevel) (body : Bytes) (result : ℤ) : Written :=
  passOn fileHandle result (stackBuffer cells)
    (formatMessage (stackBuffer cells) bufferSize (bufferSize - 1) (header timestamp level) body)

/-! ### The record -/

variable {text : Bytes}

theorem length_header (timestamp : Timestamp) (level : LogLevel) :
    (header timestamp level).length = timestamp.bytes.length + 17 := by
  have hlevel := level.length_toString
  have hopen : (ascii "[").length = 1 := rfl
  have hblank : (ascii " ").length = 1 := rfl
  have hname : (ascii " LogServer] ").length = 12 := rfl
  simp only [header, List.length_append, hlevel, hopen, hblank, hname]
  omega

theorem header_ne_nil (timestamp : Timestamp) (level : LogLevel) : header timestamp level ≠ [] :=
  List.ne_nil_of_length_pos (by rw [length_header]; omega)

theorem length_header_lt (timestamp : Timestamp) (level : LogLevel) :
    (header timestamp level).length < bufferSize := by
  have := timestamp.length_lt
  rw [length_header]
  simp only [bufferSize]
  omega

/-- Whether the text fits or not, the bytes that are taken are its first 4095. -/
theorem take_kept (text : Bytes) :
    text.take (kept bufferSize (bufferSize - 1) text) = text.take (bufferSize - 1) := by
  unfold kept
  split_ifs with hfits
  · rw [List.take_length, List.take_of_length_le (by omega)]
  · rfl

theorem kept_eq_full_iff :
    kept bufferSize (bufferSize - 1) text = bufferSize - 1 ↔ bufferSize - 1 ≤ text.length := by
  unfold kept
  split_ifs <;> omega

/-- The first 4095 bytes of a text, with a newline behind them if they are that many or do not end
in one. -/
def framed (text : Bytes) : Bytes :=
  if bufferSize - 1 ≤ text.length then text.take (bufferSize - 1) ++ [newline]
  else frame (bufferSize - 1) text

theorem withNewline_kept (text : Bytes) :
    withNewline (bufferSize - 1) (kept bufferSize (bufferSize - 1) text) text = framed text := by
  unfold withNewline framed
  rw [take_kept]
  by_cases hfull : bufferSize - 1 ≤ text.length
  · rw [if_pos (Or.inl (kept_eq_full_iff.mpr hfull)), if_pos hfull]
  · have hkept : kept bufferSize (bufferSize - 1) text ≠ bufferSize - 1 :=
      mt kept_eq_full_iff.mp hfull
    rw [if_neg hfull, frame]
    by_cases hlast : (text.take (bufferSize - 1)).getLast? = some newline
    · rw [if_pos hlast, if_neg (not_or.mpr ⟨hkept, not_not.mpr hlast⟩)]
    · rw [if_neg hlast, if_pos (Or.inr hlast)]

theorem writeLogMessage_spec (fileHandle : FileHandle) (cells : ℤ → UInt8) (timestamp : Timestamp)
    (level : LogLevel) (body : Bytes) (result : ℤ) :
    (writeLogMessage fileHandle cells timestamp level body result).buffer.strayed = false ∧
      (writeLogMessage fileHandle cells timestamp level body result).message =
        some (framed (header timestamp level ++ body)) := by
  have hsize : (stackBuffer cells).size = bufferSize := rfl
  have hfull : bufferSize - 1 < bufferSize := by simp only [bufferSize]; omega
  obtain ⟨len, b, hformat, -, hstrayed, hslice⟩ :=
    formatMessage_spec hsize hfull (header_ne_nil timestamp level)
      (length_header_lt timestamp level) body
  unfold writeLogMessage
  rw [hformat]
  exact ⟨hstrayed, congrArg some (hslice.trans (withNewline_kept _))⟩

/-- The first bytes of the text are passed on, with one newline behind them if they do not end in
one, and every store was inside the buffer. -/
structure PassesFramed (text : Bytes) (w : Written) : Prop where
  framed : w.message = some (frame (bufferSize - 1) text)
  unstrayed : w.buffer.strayed = false

/-- A newline is appended to bytes that end in one already. -/
theorem append_newline_ne_frame {limit : ℕ} (hlast : (text.take limit).getLast? = some newline) :
    text.take limit ++ [newline] ≠ frame limit text := by
  rw [frame, if_pos hlast]
  exact fun h ↦ List.cons_ne_nil _ _ (List.append_right_eq_self.mp h)

theorem append_newline_eq_frame {limit : ℕ} (hlast : (text.take limit).getLast? ≠ some newline) :
    text.take limit ++ [newline] = frame limit text := (if_neg hlast).symm

/-- The record has one newline at its end unless the text fills the buffer and the last of the bytes
that are taken is a newline. -/
theorem passesFramed_iff (fileHandle : FileHandle) (cells : ℤ → UInt8) (timestamp : Timestamp)
    (level : LogLevel) (body : Bytes) (result : ℤ) :
    PassesFramed (header timestamp level ++ body)
        (writeLogMessage fileHandle cells timestamp level body result) ↔
      ¬ (bufferSize - 1 ≤ (header timestamp level ++ body).length ∧
        ((header timestamp level ++ body).take (bufferSize - 1)).getLast? = some newline) := by
  obtain ⟨hstrayed, hmessage⟩ := writeLogMessage_spec fileHandle cells timestamp level body result
  generalize header timestamp level ++ body = text at *
  generalize writeLogMessage fileHandle cells timestamp level body result = w at *
  by_cases hfull : bufferSize - 1 ≤ text.length
  · unfold framed at hmessage
    rw [if_pos hfull] at hmessage
    refine ⟨fun h hboth ↦ ?_, fun h ↦ ⟨hmessage.trans (congrArg some ?_), hstrayed⟩⟩
    · exact append_newline_ne_frame hboth.2 (Option.some.inj (hmessage.symm.trans h.framed))
    · exact append_newline_eq_frame fun hlast ↦ h ⟨hfull, hlast⟩
  · unfold framed at hmessage
    rw [if_neg hfull] at hmessage
    exact iff_of_true ⟨hmessage, hstrayed⟩ fun h ↦ hfull h.1

/-- A body that ends in a newline and fills the buffer exactly. -/
def fillingBody : Bytes := List.replicate 4077 120 ++ [newline]

/-- A second newline is written behind such a body: an empty line in the log. -/
theorem not_passesFramed_fillingBody :
    let w := writeLogMessage .new (fun _ ↦ 0) blank .info fillingBody 4096
    w.message = some (header blank .info ++ fillingBody ++ [newline]) ∧
      ¬ PassesFramed (header blank .info ++ fillingBody) w := by
  intro w
  have hlength : (header blank .info ++ fillingBody).length = bufferSize - 1 := by
    rw [List.length_append, length_header, fillingBody, List.length_append, List.length_replicate]
    rfl
  have htake : (header blank .info ++ fillingBody).take (bufferSize - 1) =
      header blank .info ++ fillingBody := List.take_of_length_le hlength.le
  have hlast : ((header blank .info ++ fillingBody).take (bufferSize - 1)).getLast? =
      some newline := by
    rw [htake, fillingBody, ← List.append_assoc, List.getLast?_concat]
  have hmessage := (writeLogMessage_spec .new (fun _ ↦ 0) blank .info fillingBody 4096).2
  unfold framed at hmessage
  rw [if_pos hlength.ge] at hmessage
  refine ⟨hmessage.trans (by rw [htake]), fun h ↦ ?_⟩
  exact append_newline_ne_frame hlast (Option.some.inj (hmessage.symm.trans h.framed))

end Nebula.Logging.LogServer
