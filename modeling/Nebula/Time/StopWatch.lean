import Nebula.Library.Bytes
import Nebula.Library.Heap
import Nebula.Library.Text

/-!
`StopWatch`, whose `message` formats the measured time into a buffer that is kept from one call to
the next and enlarged when a text does not fit.

The buffer is enlarged to the length of the text, which leaves no room for the NUL behind it: the
text loses its last byte then, although no byte is stored outside the buffer. `message_spec` says
this of one call, and `returnsWhole_iff` when it happens in no call of a sequence.
-/

set_option autoImplicit false
set_option relaxedAutoImplicit false

namespace Nebula.Time

open Nebula.Library

/-- A string of the program, without the NUL behind it. -/
structure Text where
  bytes : List UInt8
  nulFree : 0 ∉ bytes

/-- What `snprintf` makes of `"%s: %ld usec / %ld = %0.6f usec"`, from the name, the measured time
and the number of iterations; the quotient is computed from the last two. -/
abbrev Format := Text → ℤ → ℤ → Text

/-- `struct timeval`. -/
structure Timeval where
  sec : ℤ
  usec : ℤ

/-! ### The object -/

structure StopWatch where
  startTime : Timeval
  stopTime : Timeval
  started : Bool
  stopped : Bool
  messageBuf : Option (Buffer UInt8)
  bufSize : ℕ

namespace StopWatch

abbrev defaultBufSize : ℕ := 128

/-- The constructor. -/
def new : StopWatch where
  startTime := ⟨0, 0⟩
  stopTime := ⟨0, 0⟩
  started := false
  stopped := false
  messageBuf := none
  bufSize := 0

def start (sw : StopWatch) (now : Timeval) : StopWatch :=
  { sw with started := true, stopped := false, startTime := now }

def stop (sw : StopWatch) (now : Timeval) : StopWatch :=
  { sw with stopTime := now, stopped := true }

def timeCostUs (sw : StopWatch) : ℤ :=
  if sw.started && sw.stopped then
    (sw.stopTime.sec - sw.startTime.sec) * 1000000 + (sw.stopTime.usec - sw.startTime.usec)
  else 0

def reset (sw : StopWatch) : StopWatch := { sw with started := false, stopped := false }

/-- `message_buf_` and `buf_size_`, after a call of `malloc` if there is no buffer yet. -/
def ensureBuf (sw : StopWatch) (heap : Heap) : Option (Buffer UInt8 × ℕ) × Heap :=
  match sw.messageBuf with
  | some buf => (some (buf, sw.bufSize), heap)
  | none =>
      match heap.request ⟨defaultBufSize, heap.bytes heap.requests, false⟩ with
      | (none, heap) => (none, heap)
      | (some buf, heap) => (some (buf, defaultBufSize), heap)

/-- The calls of `snprintf` and `realloc`, for the text that is to be formatted. -/
def print (sw : StopWatch) (heap : Heap) (buf : Buffer UInt8) (bufSize : ℕ) (text : List UInt8) :
    List UInt8 × StopWatch × Heap :=
  let (used, buf) := buf.snprintf 0 bufSize text
  if used ≥ bufSize then
    match heap.request (Heap.enlarged buf used.toNat (heap.bytes heap.requests)) with
    | (none, heap) => (ascii "realloc() failed", { sw with messageBuf := some buf, bufSize }, heap)
    | (some temp, heap) =>
        let (_, temp) := temp.snprintf 0 used.toNat text
        (temp.text 0, { sw with messageBuf := some temp, bufSize := used.toNat }, heap)
  else (buf.text 0, { sw with messageBuf := some buf, bufSize }, heap)

/-- `message`: the string that is returned, and what the call leaves behind. -/
def message (format : Format) (sw : StopWatch) (heap : Heap) (msgName : Option Text)
    (numIterations : ℤ) : List UInt8 × StopWatch × Heap :=
  match msgName with
  | none => (ascii "invalid parameter", sw, heap)
  | some name =>
      if numIterations = 0 then (ascii "invalid parameter", sw, heap)
      else
        match sw.ensureBuf heap with
        | (none, heap) => (ascii "malloc() failed", sw, heap)
        | (some (buf, bufSize), heap) =>
            sw.print heap buf bufSize (format name sw.timeCostUs numIterations).bytes

/-! ### The buffer -/

/-- The buffer has the size that it is taken to have, and no store has missed it. -/
def Sound (sw : StopWatch) : Prop :=
  ∀ buf, sw.messageBuf = some buf → buf.size = sw.bufSize ∧ 0 < sw.bufSize ∧ buf.strayed = false

/-- The size of the buffer in which the next text is formatted first. -/
def room (sw : StopWatch) : ℕ :=
  match sw.messageBuf with
  | some _ => sw.bufSize
  | none => defaultBufSize

variable {format : Format} {sw sw' : StopWatch} {heap : Heap}

theorem sound_new : new.Sound := fun _ h ↦ absurd h (Option.some_ne_none _).symm

/-- A text that fits is returned as a whole. Another one loses its last byte, and the buffer is as
large as the text then. -/
theorem print_spec (sw : StopWatch) (hample : heap.Ample) {buf : Buffer UInt8} {size : ℕ}
    (hsize : buf.size = size) (hpos : 0 < size) (hstrayed : buf.strayed = false)
    {text : List UInt8} (htext : 0 ∉ text) :
    ∃ buf' heap', heap'.Ample ∧ buf'.size = ((max size text.length : ℕ) : ℤ) ∧
      buf'.strayed = false ∧
      sw.print heap buf size text =
        (if text.length < size then text else text.dropLast,
          { sw with messageBuf := some buf', bufSize := max size text.length }, heap') := by
  obtain ⟨hsize', hstored, hstrayed'⟩ := buf.isText_snprintf hsize hpos htext
  by_cases hfits : text.length < size
  · have hmax : max size text.length = size := by omega
    rw [List.take_of_length_le (by omega)] at hstored
    refine ⟨_, heap, hample, by rw [hmax, hsize'], hstrayed'.trans hstrayed, ?_⟩
    have hused : ¬ (text.length : ℤ) ≥ size := by omega
    rw [print, if_pos hfits, hmax]
    exact (if_neg hused).trans (congrArg (fun s ↦ (s, _, heap)) hstored.text_eq)
  · have hmax : max size text.length = text.length := by omega
    have hused : (text.length : ℤ) ≥ size := by omega
    obtain ⟨hsize'', hstored', hstrayed''⟩ := Buffer.isText_snprintf
      (Heap.enlarged (buf.snprintf 0 size text).2 text.length (heap.bytes heap.requests)) rfl
      (by omega) htext
    refine ⟨_, heap.asked, hample, by rw [hmax, hsize''],
      hstrayed''.trans (hstrayed'.trans hstrayed), ?_⟩
    rw [print, if_neg hfits, hmax, List.dropLast_eq_take]
    refine (if_pos hused).trans ?_
    rw [hample.request]
    exact congrArg (fun s ↦ (s, _, heap.asked)) hstored'.text_eq

theorem ensureBuf_spec (h : sw.Sound) (hample : heap.Ample) :
    ∃ buf heap', sw.ensureBuf heap = (some (buf, sw.room), heap') ∧ heap'.Ample ∧
      buf.size = sw.room ∧ 0 < sw.room ∧ buf.strayed = false := by
  unfold ensureBuf room
  cases hbuf : sw.messageBuf with
  | some buf => exact ⟨buf, heap, rfl, hample, h buf hbuf⟩
  | none =>
    simp only [hample.request]
    exact ⟨_, heap.asked, rfl, hample, rfl, by decide, rfl⟩

/-- What a call does in a state that can be reached, if its parameters are valid. -/
theorem message_spec (format : Format) (h : sw.Sound) (hample : heap.Ample) (name : Text)
    {numIterations : ℤ} (hvalid : numIterations ≠ 0) {text : List UInt8}
    (htext : (format name sw.timeCostUs numIterations).bytes = text) :
    ∃ sw' heap', message format sw heap (some name) numIterations =
        (if text.length < sw.room then text else text.dropLast, sw', heap') ∧
      heap'.Ample ∧ sw'.Sound ∧ sw'.room = max sw.room text.length := by
  obtain ⟨buf, heap', hensure, hample', hsize, hpos, hstrayed⟩ := ensureBuf_spec h hample
  obtain ⟨buf', heap'', hample'', hsize', hstrayed', hprint⟩ :=
    print_spec sw hample' hsize hpos hstrayed (format name sw.timeCostUs numIterations).nulFree
  rw [htext] at hsize' hprint
  refine ⟨{ sw with messageBuf := some buf', bufSize := max sw.room text.length }, heap'', ?_,
    hample'', ?_, rfl⟩
  · rw [message, if_neg hvalid, hensure, htext]
    exact hprint
  · rintro _ ⟨⟩
    exact ⟨hsize', lt_max_of_lt_left hpos, hstrayed'⟩

/-- A call returns its whole text if and only if the text is shorter than the buffer. -/
theorem message_whole_iff (h : sw.Sound) (hroom : 0 < sw.room) (hample : heap.Ample) (name : Text)
    {numIterations : ℤ} (hvalid : numIterations ≠ 0) {text : List UInt8}
    (htext : (format name sw.timeCostUs numIterations).bytes = text) :
    (message format sw heap (some name) numIterations).1 = text ↔ text.length < sw.room := by
  obtain ⟨sw', heap', hmessage, -⟩ := message_spec format h hample name hvalid htext
  rw [hmessage]
  by_cases hfits : text.length < sw.room
  · exact iff_of_true (if_pos hfits) hfits
  · refine iff_of_false (fun heq ↦ ?_) hfits
    have hlength := congrArg List.length ((if_neg hfits).symm.trans heq)
    rw [List.length_dropLast] at hlength
    omega

/-! ### Sequences of calls -/

/-- A call on a stop watch; `now` is what `gettimeofday` reports. -/
inductive Op where
  | start (now : Timeval)
  | stop (now : Timeval)
  | reset
  | message (msgName : Option Text) (numIterations : ℤ)

def Op.run (format : Format) (x : StopWatch × Heap) : Op → StopWatch × Heap
  | start now => (x.1.start now, x.2)
  | stop now => (x.1.stop now, x.2)
  | reset => (x.1.reset, x.2)
  | message msgName numIterations => (x.1.message format x.2 msgName numIterations).2

/-- What a sequence of calls on a new stop watch leaves behind. -/
def after (format : Format) (heap : Heap) (ops : List Op) : StopWatch × Heap :=
  ops.foldl (Op.run format) (new, heap)

/-- The text that is formatted by a call of `message` behind other calls. -/
def textAfter (format : Format) (heap : Heap) (before : List Op) (name : Text)
    (numIterations : ℤ) : List UInt8 :=
  (format name (after format heap before).1.timeCostUs numIterations).bytes

/-- Something holds of each call of `message` in a sequence whose parameters are valid. -/
def AtMessages (ops : List Op) (P : List Op → Text → ℤ → Prop) : Prop :=
  ∀ before name numIterations later,
    ops = before ++ .message (some name) numIterations :: later → numIterations ≠ 0 →
      P before name numIterations

/-- Each call of `message` returns its whole text, and no store is outside the buffer. -/
structure ReturnsWhole (format : Format) (heap : Heap) (ops : List Op) : Prop where
  whole : AtMessages ops fun before name numIterations ↦
    (message format (after format heap before).1 (after format heap before).2 (some name)
      numIterations).1 = textAfter format heap before name numIterations
  unstrayed : ∀ before later, ops = before ++ later → ∀ buf,
    (after format heap before).1.messageBuf = some buf → buf.strayed = false

variable {ops : List Op} {P Q : List Op → Text → ℤ → Prop}

theorem after_concat (ops : List Op) (op : Op) :
    after format heap (ops ++ [op]) = op.run format (after format heap ops) := by
  rw [after, List.foldl_concat]
  rfl

theorem AtMessages.dropLast {op : Op} (h : AtMessages (ops ++ [op]) P) : AtMessages ops P := by
  rintro before name numIterations later rfl
  exact h before name numIterations (later ++ [op]) (by simp)

theorem AtMessages.last {name : Text} {numIterations : ℤ}
    (h : AtMessages (ops ++ [.message (some name) numIterations]) P)
    (hvalid : numIterations ≠ 0) : P ops name numIterations :=
  h ops name numIterations [] rfl hvalid

/-- What holds in front of and behind a call, whatever has been called before. -/
structure Reached (x : StopWatch × Heap) : Prop where
  sound : x.1.Sound
  ample : x.2.Ample
  default_le : defaultBufSize ≤ x.1.room

/-- What a call does to the buffer: it keeps its size, unless a text is formatted that is longer. -/
theorem run_cases (format : Format) {x : StopWatch × Heap} (h : x.1.Sound) (hample : x.2.Ample)
    (op : Op) : (op.run format x).1.Sound ∧ (op.run format x).2.Ample ∧
      ((op.run format x).1.room = x.1.room ∨ ∃ name numIterations,
        op = .message (some name) numIterations ∧ numIterations ≠ 0 ∧ (op.run format x).1.room =
          max x.1.room (format name x.1.timeCostUs numIterations).bytes.length) := by
  cases op with
  | start now => exact ⟨h, hample, Or.inl rfl⟩
  | stop now => exact ⟨h, hample, Or.inl rfl⟩
  | reset => exact ⟨h, hample, Or.inl rfl⟩
  | message msgName numIterations =>
    cases msgName with
    | none => exact ⟨h, hample, Or.inl rfl⟩
    | some name =>
      by_cases hvalid : numIterations = 0
      · rw [Op.run, message, if_pos hvalid]
        exact ⟨h, hample, Or.inl rfl⟩
      · obtain ⟨sw', heap', hmessage, hample', hsound, hroom⟩ :=
          message_spec format h hample name hvalid rfl
        rw [Op.run, hmessage]
        exact ⟨hsound, hample', Or.inr ⟨name, numIterations, rfl, hvalid, hroom⟩⟩

theorem reached_after (format : Format) (hample : heap.Ample) (ops : List Op) :
    Reached (after format heap ops) := by
  induction ops using List.reverseRecOn with
  | nil => exact ⟨sound_new, hample, le_rfl⟩
  | append_singleton ops op ih =>
    obtain ⟨hsound, hample', hkept | ⟨name, numIterations, -, -, hroom⟩⟩ :=
      run_cases format ih.sound ih.ample op
    · exact after_concat ops op ▸ ⟨hsound, hample', hkept ▸ ih.default_le⟩
    · exact after_concat ops op ▸
        ⟨hsound, hample', hroom ▸ ih.default_le.trans (le_max_left ..)⟩

/-- As long as every text fits into the buffer, the buffer keeps its first size. -/
theorem room_after (hample : heap.Ample) (hfits : AtMessages ops fun before name numIterations ↦
      (textAfter format heap before name numIterations).length <
        (after format heap before).1.room) :
    (after format heap ops).1.room = defaultBufSize := by
  induction ops using List.reverseRecOn with
  | nil => rfl
  | append_singleton ops op ih =>
    have hops := ih hfits.dropLast
    have hreached := reached_after format hample ops
    rw [after_concat]
    obtain ⟨-, -, hkept | ⟨name, numIterations, rfl, hvalid, hroom⟩⟩ :=
      run_cases format hreached.sound hreached.ample op
    · exact hkept.trans hops
    · exact hroom.trans ((max_eq_left (hfits.last hvalid).le).trans hops)

/-- Every call returns its whole text if and only if every text has fewer than 128 bytes. -/
theorem returnsWhole_iff (format : Format) (heap : Heap) (hample : heap.Ample) (ops : List Op) :
    ReturnsWhole format heap ops ↔ AtMessages ops fun before name numIterations ↦
      (textAfter format heap before name numIterations).length < defaultBufSize := by
  have hiff : ∀ (before : List Op) (name : Text) (numIterations : ℤ), numIterations ≠ 0 →
      ((message format (after format heap before).1 (after format heap before).2 (some name)
          numIterations).1 = textAfter format heap before name numIterations ↔
        (textAfter format heap before name numIterations).length <
          (after format heap before).1.room) := by
    intro before name numIterations hvalid
    have hreached := reached_after format hample before
    exact message_whole_iff hreached.sound (lt_of_lt_of_le (by decide) hreached.default_le)
      hreached.ample name hvalid rfl
  constructor
  · rintro ⟨hwhole, -⟩ before name numIterations later rfl hvalid
    have hroom : (after format heap before).1.room = defaultBufSize := by
      refine room_after hample ?_
      rintro before' name' numIterations' later' rfl hvalid'
      refine (hiff _ _ _ hvalid').mp
        (hwhole _ _ _ (later' ++ .message (some name) numIterations :: later) ?_ hvalid')
      rw [List.append_assoc, List.cons_append]
    exact hroom ▸ (hiff _ _ _ hvalid).mp (hwhole _ _ _ later rfl hvalid)
  · intro hfits
    refine ⟨fun before name numIterations later heq hvalid ↦ ?_, fun before later _ buf hbuf ↦ ?_⟩
    · exact (hiff _ _ _ hvalid).mpr
        (lt_of_lt_of_le (hfits _ _ _ later heq hvalid)
          (reached_after format hample before).default_le)
    · exact ((reached_after format hample before).sound buf hbuf).2.2

/-- The texts for a measured time of 0 and one iteration. -/
def untimed : Format := fun name _ _ ↦ {
  bytes := name.bytes ++ ascii ": 0 usec / 1 = 0.000000 usec"
  nulFree := by
    intro h
    rcases List.mem_append.mp h with hname | hrest
    · exact name.nulFree hname
    · exact absurd hrest (by decide) }

/-- A name of a number of letters. -/
def letters (count : ℕ) : Text where
  bytes := List.replicate count 120
  nulFree h := absurd (List.eq_of_mem_replicate h) (by decide)

theorem length_untimed (count : ℕ) (cost numIterations : ℤ) :
    (untimed (letters count) cost numIterations).bytes.length = count + 28 := by
  rw [untimed, List.length_append, letters, List.length_replicate]
  rfl

/-- On a stop watch that has not been started, a name of 99 letters makes a text of 127 bytes. -/
theorem returnsWhole_iff_letters :
    ReturnsWhole untimed ampleHeap [.reset, .message (some (letters 99)) 1] := by
  refine (returnsWhole_iff untimed ampleHeap ample_ampleHeap _).mpr ?_
  intro before name numIterations later heq _
  have hmem : Op.message (some name) numIterations ∈
      [Op.reset, .message (some (letters 99)) 1] := by
    rw [heq]
    exact List.mem_append_right _ List.mem_cons_self
  have hname : name = letters 99 := by
    simp only [List.mem_cons, reduceCtorEq, Op.message.injEq, Option.some.injEq, List.not_mem_nil,
      or_false, false_or] at hmem
    exact hmem.1
  rw [textAfter, hname, length_untimed]
  decide

/-- One letter more, and the last byte of the text is missing. -/
theorem not_returnsWhole_letters :
    (message untimed new ampleHeap (some (letters 100)) 1).1 =
        (letters 100).bytes ++ ascii ": 0 usec / 1 = 0.000000 use" ∧
      ¬ ReturnsWhole untimed ampleHeap [.message (some (letters 100)) 1] := by
  have htext : (untimed (letters 100) new.timeCostUs 1).bytes =
      (letters 100).bytes ++ ascii ": 0 usec / 1 = 0.000000 usec" := rfl
  have hlong : ¬ ((letters 100).bytes ++ ascii ": 0 usec / 1 = 0.000000 usec").length <
      new.room := by
    rw [← htext, length_untimed]
    decide
  constructor
  · obtain ⟨sw', heap', hmessage, -⟩ :=
      message_spec untimed sound_new ample_ampleHeap (letters 100) one_ne_zero htext
    rw [hmessage, if_neg hlong, List.dropLast_append_of_ne_nil (by decide)]
    rfl
  · rintro ⟨hwhole, -⟩
    exact hlong ((message_whole_iff sound_new (by decide) ample_ampleHeap (letters 100) one_ne_zero
      htext).mp ((hwhole [] (letters 100) 1 [] rfl one_ne_zero).trans htext))

end StopWatch

end Nebula.Time
