import Nebula.Logging.Formatting
import Nebula.Strings.Strlcpy

/-!
`LogHandle`, the client's end of a connection to the log server: `log` formats a message into a
buffer of 64 KiB, which is allocated for the first one, and hands it to `send`.

`sendsFramed_iff` says that the datagram is the text with a newline behind it exactly as long as the
text is shorter than the buffer.
-/

set_option autoImplicit false
set_option relaxedAutoImplicit false

namespace Nebula.Logging

open Nebula.Library Nebula.Strings

abbrev maxMessageLendth : ℕ := 65536

/-- `sizeof(identity_)`. -/
abbrev identitySize : ℕ := 64

/-- `sizeof(buffer_)`: the size of a pointer. -/
abbrev bufferPointerSize : ℕ := 8

structure LogHandle where
  logLevel : LogLevel
  connFd : ℤ
  identity : Bytes
  buffer : Option (Buffer UInt8)
  bufferSize : ℕ

namespace LogHandle

/-- The constructor. -/
def new (identity : Bytes) (level : LogLevel) : LogHandle :=
  ⟨level, -1, (strlcpy identity identitySize).1, none, 0⟩

def setConnFd (h : LogHandle) (fd : ℤ) : LogHandle := { h with connFd := fd }

def setLogLevel (h : LogHandle) (level : LogLevel) : LogHandle :=
  if level.value ≥ LogLevel.emerg.value ∧ level.value ≤ LogLevel.debug.value then
    { h with logLevel := level }
  else h

/-- `"[%s %s %s]\t"`. -/
def header (h : LogHandle) (timestamp : Timestamp) (level : LogLevel) : Bytes :=
  ascii "[" ++ timestamp.bytes ++ ascii " " ++ LogLevel.toString level.value true ++ ascii " " ++
    h.identity ++ ascii "]\t"

/-- The buffer, with a call of `malloc` if there is none; `cells` is what the memory holds that
`malloc` returns, if it does. -/
def allocated (h : LogHandle) (cells : Option (ℤ → UInt8)) : Option (Buffer UInt8 × ℕ) :=
  match h.buffer with
  | some buffer => some (buffer, h.bufferSize)
  | none => cells.map fun cells ↦ (⟨maxMessageLendth, cells, false⟩, maxMessageLendth)

/-- `log`: its result, the datagram that is handed to `send`, and the handle afterwards. -/
def log (h : LogHandle) (cells : Option (ℤ → UInt8)) (timestamp : Timestamp) (level : LogLevel)
    (body : Bytes) (send : ℤ → Bytes → ℤ) : ℤ × Option Bytes × LogHandle :=
  match h.allocated cells with
  | none => (-1, none, h)
  | some (buffer, bufferSize) =>
      let h := { h with buffer := some buffer, bufferSize := bufferSize }
      if level.value > h.logLevel.value then (0, none, h)
      else
        let header := h.header timestamp level
        match formatMessage buffer bufferSize (bufferPointerSize - 1) header body with
        | none => (-1, none, h)
        | some (len, buffer) =>
            let datagram := buffer.slice 0 len
            (send h.connFd datagram, some datagram, { h with buffer := some buffer })

/-- The handles that come about, whatever has been logged through them. -/
inductive Reached : LogHandle → Prop where
  | new (identity : Bytes) (level : LogLevel) : Reached (new identity level)
  | setConnFd {h : LogHandle} (fd : ℤ) (hh : Reached h) : Reached (h.setConnFd fd)
  | setLogLevel {h : LogHandle} (level : LogLevel) (hh : Reached h) : Reached (h.setLogLevel level)
  | log {h : LogHandle} (cells : Option (ℤ → UInt8)) (timestamp : Timestamp) (level : LogLevel)
      (body : Bytes) (send : ℤ → Bytes → ℤ) (hh : Reached h) :
      Reached (h.log cells timestamp level body send).2.2

/-! ### The buffer -/

/-- The identity fits into its array, and the buffer is a whole one that no store has missed. -/
structure Ready (h : LogHandle) : Prop where
  identity_lt : h.identity.length < identitySize
  buffer_ready : ∀ b, h.buffer = some b →
    b.size = maxMessageLendth ∧ h.bufferSize = maxMessageLendth ∧ b.strayed = false

variable {h : LogHandle} {cells : Option (ℤ → UInt8)} {timestamp : Timestamp} {level : LogLevel}
  {body : Bytes} {send : ℤ → Bytes → ℤ}

theorem length_header (h : LogHandle) (timestamp : Timestamp) (level : LogLevel) :
    (h.header timestamp level).length = timestamp.bytes.length + h.identity.length + 8 := by
  have hlevel := level.length_toString
  have h1 : (ascii "[").length = 1 := rfl
  have h2 : (ascii " ").length = 1 := rfl
  have h3 : (ascii "]\t").length = 2 := rfl
  simp only [header, List.length_append, hlevel, h1, h2, h3]
  omega

theorem Ready.length_header_lt (hh : h.Ready) (timestamp : Timestamp) (level : LogLevel) :
    (h.header timestamp level).length < maxMessageLendth := by
  have := timestamp.length_lt
  have := hh.identity_lt
  rw [length_header]
  simp only [identitySize, maxMessageLendth] at *
  omega

theorem header_ne_nil (h : LogHandle) (timestamp : Timestamp) (level : LogLevel) :
    h.header timestamp level ≠ [] := by
  intro hnil
  have hlength := length_header h timestamp level
  rw [hnil, List.length_nil] at hlength
  omega

theorem Ready.allocated (hh : h.Ready) {b : Buffer UInt8} {size : ℕ}
    (hb : h.allocated cells = some (b, size)) :
    b.size = maxMessageLendth ∧ size = maxMessageLendth ∧ b.strayed = false := by
  unfold LogHandle.allocated at hb
  cases hbuffer : h.buffer with
  | some old =>
    rw [hbuffer] at hb
    cases hb
    exact hh.buffer_ready _ hbuffer
  | none =>
    rw [hbuffer] at hb
    obtain ⟨cells, -, heq⟩ := Option.map_eq_some_iff.mp hb
    cases heq
    exact ⟨rfl, rfl, rfl⟩

/-- A message is due: its level is not above `log_level_`, and there is a buffer, or memory for
one. -/
def Sends (h : LogHandle) (cells : Option (ℤ → UInt8)) (level : LogLevel) : Prop :=
  level.value ≤ h.logLevel.value ∧ (h.buffer ≠ none ∨ cells ≠ none)

theorem allocated_eq_none_iff : h.allocated cells = none ↔ h.buffer = none ∧ cells = none := by
  unfold allocated
  cases h.buffer <;> simp

/-- What `log` does, whether it sends anything or not. -/
theorem Ready.log_cases (hh : h.Ready) (cells : Option (ℤ → UInt8)) (timestamp : Timestamp)
    (level : LogLevel) (body : Bytes) (send : ℤ → Bytes → ℤ) :
    (h.log cells timestamp level body send).2.2.Ready ∧
      (¬ h.Sends cells level ∧ (h.log cells timestamp level body send).2.1 = none ∨
        h.Sends cells level ∧ (h.log cells timestamp level body send).2.1 =
          some (withNewline (bufferPointerSize - 1)
            (kept maxMessageLendth (bufferPointerSize - 1) (h.header timestamp level ++ body))
            (h.header timestamp level ++ body))) := by
  unfold log
  cases hallocated : h.allocated cells with
  | none =>
    obtain ⟨hnone, hcells⟩ := allocated_eq_none_iff.mp hallocated
    exact ⟨hh, Or.inl ⟨fun hsends ↦ hsends.2.elim (absurd hnone) (absurd hcells), rfl⟩⟩
  | some allocated =>
    obtain ⟨b, size⟩ := allocated
    obtain ⟨hbsize, hsize, hstrayed⟩ := hh.allocated hallocated
    have hsome : h.buffer ≠ none ∨ cells ≠ none := by
      rw [← not_and_or, ← allocated_eq_none_iff, hallocated]
      exact Option.some_ne_none _
    by_cases hlevel : level.value > h.logLevel.value
    · simp only [if_pos hlevel]
      refine ⟨⟨hh.identity_lt, ?_⟩,
        Or.inl ⟨fun hsends ↦ absurd hsends.1 (not_le.mpr hlevel), trivial⟩⟩
      rintro b' ⟨⟩
      exact ⟨hbsize, hsize, hstrayed⟩
    · have hlarge : bufferPointerSize - 1 < size := by
        simp only [hsize, bufferPointerSize, maxMessageLendth]
        omega
      have hbsize' : b.size = size := hbsize.trans (congrArg Nat.cast hsize.symm)
      have hheaderLt : (h.header timestamp level).length < size :=
        hsize ▸ hh.length_header_lt timestamp level
      obtain ⟨len, b', hformat, hsize', hstrayed', hslice⟩ :=
        formatMessage_spec hbsize' hlarge (h.header_ne_nil timestamp level) hheaderLt body
      have hheader : ({ h with buffer := some b, bufferSize := size } : LogHandle).header
          timestamp level = h.header timestamp level := rfl
      simp only [if_neg hlevel, hheader, hformat, hslice]
      refine ⟨⟨hh.identity_lt, ?_⟩, Or.inr ⟨⟨not_lt.mp hlevel, hsome⟩, ?_⟩⟩
      · rintro b'' ⟨⟩
        exact ⟨hsize'.trans (congrArg Nat.cast hsize), hsize, hstrayed'.trans hstrayed⟩
      · rw [hsize]

theorem Reached.ready (hh : h.Reached) : h.Ready := by
  induction hh with
  | new identity level =>
    refine ⟨?_, fun b hb ↦ absurd hb.symm (Option.some_ne_none b)⟩
    show (strlcpy identity identitySize).1.length < identitySize
    rw [strlcpy_eq, List.length_take]
    exact (Nat.min_le_left ..).trans_lt (by decide)
  | setConnFd fd hh ih => exact ⟨ih.identity_lt, ih.buffer_ready⟩
  | setLogLevel level hh ih =>
    unfold LogHandle.setLogLevel
    split_ifs
    · exact ⟨ih.identity_lt, ih.buffer_ready⟩
    · exact ih
  | log cells timestamp level body send hh ih => exact (ih.log_cases ..).1

/-! ### The datagram -/

/-- The first bytes of a text, with one newline behind them if they do not end in one. -/
def frame (limit : ℕ) (text : Bytes) : Bytes :=
  if (text.take limit).getLast? = some newline then text.take limit
  else text.take limit ++ [newline]

/-- If a message is due, then the datagram is the text with a newline, and whether it is or not, at
most 64 KiB are sent and the message was stored inside the buffer. -/
structure SendsFramed (h : LogHandle) (cells : Option (ℤ → UInt8)) (timestamp : Timestamp)
    (level : LogLevel) (body : Bytes) (send : ℤ → Bytes → ℤ) : Prop where
  framed : h.Sends cells level → (h.log cells timestamp level body send).2.1 =
    some (frame (maxMessageLendth - 1) (h.header timestamp level ++ body))
  length_le : ∀ bytes, (h.log cells timestamp level body send).2.1 = some bytes →
    bytes.length ≤ maxMessageLendth
  unstrayed : ∀ b, (h.log cells timestamp level body send).2.2.buffer = some b → b.strayed = false

/-- A text that fits is framed. -/
theorem withNewline_of_lt {full : ℕ} {text : Bytes} (hfull : full < text.length)
    (hlt : text.length < maxMessageLendth) :
    withNewline full (kept maxMessageLendth full text) text =
      frame (maxMessageLendth - 1) text := by
  have hall : text.take (maxMessageLendth - 1) = text := List.take_of_length_le (by omega)
  rw [kept, if_pos hlt, withNewline, frame, List.take_length, hall]
  by_cases hlast : text.getLast? = some newline
  · rw [if_neg (by simp [hlast]; omega), if_pos hlast]
  · rw [if_pos (Or.inr hlast), if_neg hlast]

/-- Of a text that does not fit, hardly anything is sent. -/
theorem length_withNewline_of_le {full : ℕ} {text : Bytes} (hfull : full < text.length)
    (hle : maxMessageLendth ≤ text.length) :
    (withNewline full (kept maxMessageLendth full text) text).length = full + 1 := by
  rw [kept, if_neg (not_lt.mpr hle), withNewline, if_pos (Or.inl rfl), List.length_append,
    List.length_take, List.length_singleton, Nat.min_eq_left hfull.le]

theorem length_frame_le (limit : ℕ) (text : Bytes) : (frame limit text).length ≤ limit + 1 := by
  unfold frame
  split_ifs
  · rw [List.length_take]
    omega
  · rw [List.length_append, List.length_take, List.length_singleton]
    omega

theorem le_length_frame {limit : ℕ} {text : Bytes} (hle : limit ≤ text.length) :
    limit ≤ (frame limit text).length := by
  unfold frame
  split_ifs
  · rw [List.length_take]
    omega
  · rw [List.length_append, List.length_take, List.length_singleton]
    omega

/-- When a message is due, the datagram that `log` hands to `send` is the text, or its first 65535
bytes, with a newline behind it exactly when the text is shorter than the buffer. -/
theorem sendsFramed_iff (hh : h.Reached) (cells : Option (ℤ → UInt8)) (timestamp : Timestamp)
    (level : LogLevel) (body : Bytes) (send : ℤ → Bytes → ℤ) :
    h.SendsFramed cells timestamp level body send ↔
      (h.Sends cells level → (h.header timestamp level ++ body).length < maxMessageLendth) := by
  obtain ⟨hready, hcases⟩ := hh.ready.log_cases cells timestamp level body send
  have hunstrayed : ∀ b, (h.log cells timestamp level body send).2.2.buffer = some b →
      b.strayed = false := fun b hb ↦ (hready.buffer_ready b hb).2.2
  have hfull : bufferPointerSize - 1 < (h.header timestamp level ++ body).length := by
    rw [List.length_append, length_header]
    simp only [bufferPointerSize]
    omega
  rcases hcases with ⟨hsends, hnone⟩ | ⟨hsends, hsome⟩
  · refine iff_of_true ⟨fun h ↦ absurd h hsends, fun bytes hbytes ↦ ?_, hunstrayed⟩
      fun h ↦ absurd h hsends
    exact absurd (hnone.symm.trans hbytes) (Option.some_ne_none _).symm
  · constructor
    · intro hframed _
      by_contra hle
      have hlength := congrArg List.length
        (Option.some.inj (hsome.symm.trans (hframed.framed hsends)))
      rw [length_withNewline_of_le hfull (not_lt.mp hle)] at hlength
      have hlong : maxMessageLendth - 1 ≤
          (frame (maxMessageLendth - 1) (h.header timestamp level ++ body)).length :=
        le_length_frame (by omega)
      rw [← hlength] at hlong
      exact absurd hlong (by decide)
    · intro hlt
      rw [withNewline_of_lt hfull (hlt hsends)] at hsome
      refine ⟨fun _ ↦ hsome, fun bytes hbytes ↦ ?_, hunstrayed⟩
      rw [← Option.some.inj (hsome.symm.trans hbytes)]
      exact length_frame_le _ _

/-! ### Two messages -/

/-- A time stamp of nothing. -/
def blank : Timestamp := ⟨[], by decide⟩

/-- A handle that has not been used yet. -/
def client : LogHandle := LogHandle.new (ascii "a") .debug

/-- A short message. -/
theorem sendsFramed_client :
    client.Sends (some fun _ ↦ 0) .info ∧
      client.SendsFramed (some fun _ ↦ 0) blank .info (ascii "hi") fun _ _ ↦ 0 :=
  ⟨⟨by decide, Or.inr (Option.some_ne_none _)⟩,
    (sendsFramed_iff (.new (ascii "a") .debug) (some fun _ ↦ 0) blank .info (ascii "hi")
      fun _ _ ↦ 0).mpr fun _ ↦ by decide⟩

/-- Of a message of 64 KiB, the first seven bytes of the header are sent. -/
theorem not_sendsFramed_client :
    let body := List.replicate maxMessageLendth (120 : UInt8)
    client.Sends (some fun _ ↦ 0) .info ∧
      (client.log (some fun _ ↦ 0) blank .info body fun _ _ ↦ 0).2.1 = some (ascii "[ inf a\n") ∧
      ¬ client.SendsFramed (some fun _ ↦ 0) blank .info body fun _ _ ↦ 0 := by
  intro body
  have hready : client.Ready := Reached.ready (.new (ascii "a") .debug)
  have hsends : client.Sends (some fun _ ↦ 0) .info := ⟨by decide, Or.inr (Option.some_ne_none _)⟩
  have hlong : maxMessageLendth ≤ (client.header blank .info ++ body).length := by
    rw [List.length_append, List.length_replicate]
    omega
  have hsome : (client.log (some fun _ ↦ 0) blank .info body fun _ _ ↦ 0).2.1 =
      some (ascii "[ inf a\n") := by
    rcases (hready.log_cases (some fun _ ↦ 0) blank .info body fun _ _ ↦ 0).2 with
      ⟨hnot, -⟩ | ⟨-, hsome⟩
    · exact absurd hsends hnot
    · rw [hsome, kept, if_neg (not_lt.mpr hlong), withNewline, if_pos (Or.inl rfl),
        List.take_append_of_le_length (by decide)]
      rfl
  refine ⟨hsends, hsome, fun hframed ↦ ?_⟩
  have hlength := congrArg List.length (Option.some.inj (hsome.symm.trans (hframed.framed hsends)))
  have := le_length_frame
    (show maxMessageLendth - 1 ≤ (client.header blank .info ++ body).length by omega)
  rw [← hlength] at this
  exact absurd this (by decide)

end LogHandle

end Nebula.Logging
