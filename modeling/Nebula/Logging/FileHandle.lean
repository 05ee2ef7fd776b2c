import Nebula.Library.Bytes
import Nebula.Library.OpenFiles
import Nebula.Strings.Strlcat

/-!
The file of the log server, `internal::FileHandle`: `setConfig` builds the name of the log file and
opens it, `writeMessage` writes to it, `switchFile` closes it and opens the next one, and the
destructor closes the last. Each of them returns, besides the handle it leaves, the system calls it
has made.

C strings are lists of bytes without the terminating zero. What the system answers is an argument:
the result of a `write`, and for a new file what `strftime` makes of the format and `mkstemp` of the
template.
-/

set_option autoImplicit false
set_option relaxedAutoImplicit false

namespace Nebula.Logging

open Nebula.Library Nebula.Strings

/-- `"_%Y.%m.%d.%H.%M.%S_XXXXXX"`. -/
def formatSuffix : Bytes := ascii "_%Y.%m.%d.%H.%M.%S_XXXXXX"

/-! ### The handle -/

structure FileHandle where
  logFile : Bytes
  format : Bytes
  fd : ℤ
  numWrite : BitVec 32
  maxWrite : BitVec 32
  pathLen : ℕ
  /-- A byte has been stored outside `log_file_`. -/
  strayed : Bool

/-- What the system answers when a file is opened: the result of `Time::formatEpochTime`, and the
file name and descriptor that `mkstemp`, or `open` for `/dev/tty`, returns. -/
structure Answers where
  formatEpochTime : Bytes → Bytes
  mkstemp : Bytes → Bytes × ℤ
  openTty : ℤ

namespace FileHandle

/-- The constructor. -/
def new : FileHandle := ⟨[], [], -1, 0, 0, 0, false⟩

/-- The call that obtained a descriptor, if it was successful. -/
def opened (fd : ℤ) : List (FileCall Bytes) := if fd < 0 then [] else [.opened fd]

/-- The first part of `setConfig`: the directory, which ends in a slash. -/
def setDir (h : FileHandle) (logDir : Bytes) : FileHandle :=
  let (logFile, pathLen) := strlcpy logDir pathMax
  if endsWith logFile slash then { h with logFile := logFile, pathLen := pathLen }
  else
    let (logFile, pathLen) := strlcat logFile slash pathMax
    { h with logFile := logFile, pathLen := pathLen }

/-- `setConfig`; `frequency` is not used. -/
def setConfig (h : FileHandle) (logDir : Option Bytes) (namePrefix : Bytes) (_frequency : BitVec 32)
    (answers : Answers) : FileHandle × List (FileCall Bytes) :=
  let h := { h with logFile := [], format := [] }
  let h :=
    match logDir with
    | none => h
    | some logDir => h.setDir logDir
  if h.pathLen ≠ 0 then
    let (format, _) := strlcpy namePrefix (nameMax + 1)
    let (format, _) := strlcat format formatSuffix (nameMax + 1)
    let (template, _) := strlcat h.logFile (answers.formatEpochTime format) pathMax
    let (logFile, fd) := answers.mkstemp template
    ({ h with format := format, logFile := logFile, fd := fd }, opened fd)
  else ({ h with fd := answers.openTty }, opened answers.openTty)

def fsyncToDisk (h : FileHandle) : FileHandle × List (FileCall Bytes) :=
  if h.fd > 0 ∧ h.pathLen ≠ 0 ∧ h.numWrite = h.maxWrite then
    ({ h with numWrite := 0 }, [.fsync h.fd])
  else (h, [])

/-- `writeMessage`, where `write` returns `result`. -/
def writeMessage (h : FileHandle) (message : Bytes) (result : ℤ) :
    ℤ × FileHandle × List (FileCall Bytes) :=
  if h.fd ≥ 0 then
    if result ≥ 0 then
      let (h', calls) := fsyncToDisk { h with numWrite := h.numWrite + 1 }
      (result, h', .write h.fd message result :: calls)
    else (result, h, [.write h.fd message result])
  else (-1, h, [])

/-- `switchFile`; it returns `false`. -/
def switchFile (h : FileHandle) (answers : Answers) :
    Bool × FileHandle × List (FileCall Bytes) :=
  if h.pathLen ≠ 0 then
    let (h, synced) := h.fsyncToDisk
    let closed := FileCall.close h.fd
    let logFile := h.logFile.take h.pathLen
    let (template, _) := strlcat logFile (answers.formatEpochTime h.format) pathMax
    let (logFile, fd) := answers.mkstemp template
    (false,
      { h with
        logFile := logFile
        fd := fd
        strayed := h.strayed || decide (h.pathLen ≥ pathMax) },
      synced ++ closed :: opened fd)
  else (false, h, [])

/-- The destructor. -/
def destroy (h : FileHandle) : List (FileCall Bytes) :=
  if h.fd > 0 then
    (if h.pathLen ≠ 0 ∧ h.numWrite ≠ 0 then [.fsync h.fd] else []) ++ [.close h.fd]
  else []

@[simp] theorem fd_writeMessage (h : FileHandle) (message : Bytes) (result : ℤ) :
    (h.writeMessage message result).2.1.fd = h.fd := by
  unfold writeMessage fsyncToDisk
  split_ifs <;> rfl

/-- With an open file, `write` is called once, with the message. -/
theorem calls_writeMessage {h : FileHandle} (hfd : 0 ≤ h.fd) (message : Bytes) (result : ℤ) :
    (h.writeMessage message result).2.2 = [.write h.fd message result] ∨
      (h.writeMessage message result).2.2 = [.write h.fd message result, .fsync h.fd] := by
  unfold writeMessage fsyncToDisk
  rw [if_pos hfd]
  split_ifs
  · exact Or.inr rfl
  · exact Or.inl rfl
  · exact Or.inl rfl

end FileHandle

end Nebula.Logging
