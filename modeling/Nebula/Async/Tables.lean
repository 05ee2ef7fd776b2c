import Nebula.Library.Buffer

/-!
The tables of `AsyncEvent` and the operations on them: `addFdEvent`, `delFdEvent` and `removeFd` on
the table of file descriptors, `addTimeEvent` and `delTimeEvent` on the table of time events.

A row of the descriptor table records what is monitored, which events have fired and are still to
be handled, and the callbacks; the descriptors with events still to be handled are listed in
`listOfReadyFds`, of which the first `numReadyFds` slots are in use. The kernel is a parameter: any
type with an `epoll_ctl` that succeeds or fails as it likes.
-/

set_option autoImplicit false
set_option relaxedAutoImplicit false

namespace Nebula.Async

open Nebula.Library

/-- A set of events, as the bits of a `uint32_t`. -/
abbrev Mask := BitVec 32

namespace Mask

abbrev none : Mask := 0x00
abbrev readable : Mask := 0x01
abbrev writable : Mask := 0x02
abbrev rdwr : Mask := readable ||| writable

end Mask

/-- A function or data pointer; zero is `NULL`. -/
abbrev Pointer := ℕ

abbrev null : Pointer := 0

inductive Status where
  | error
  | ok
  deriving DecidableEq

/-! ### The kernel's side -/

abbrev epollIn : Mask := 0x001
abbrev epollOut : Mask := 0x004
abbrev epollErr : Mask := 0x008
abbrev epollHup : Mask := 0x010
abbrev epollEt : Mask := 0x80000000

inductive CtlOp where
  | add
  | mod
  | del
  deriving DecidableEq

/-- A kernel as the event loop sees it: `epollCtl` says whether the call succeeded, and `close`
closes a descriptor. -/
class EpollKernel (κ : Type*) where
  epollCtl : κ → CtlOp → ℤ → Mask → Bool × κ
  close : κ → ℤ → κ

/-- What `epoll_wait` stores for a descriptor. -/
structure EpollEvent where
  events : Mask
  fd : ℤ
  deriving DecidableEq

/-- The events asked of the kernel for a row that monitors the given set. -/
def epollEvents (monitored : Mask) : Mask :=
  let events := epollEt
  let events := if monitored &&& Mask.readable ≠ 0 then events ||| epollIn else events
  if monitored &&& Mask.writable ≠ 0 then events ||| epollOut else events

/-! ### File descriptors -/

/-- `ae_fd_event_info_t`. -/
structure FdEventInfo where
  monitored : Mask
  alreadyFired : Mask
  proc : Pointer
  procExp : Pointer
  data : Pointer
  dataExp : Pointer
  deriving DecidableEq

/-- A row after `memset(info, 0, sizeof(*info))`. -/
def FdEventInfo.zero : FdEventInfo := ⟨0, 0, null, null, 0, 0⟩

structure FdTable where
  fdTableSize : ℤ
  numMonitoredFds : ℤ
  numReadyFds : ℤ
  listOfReadyFds : Buffer ℤ
  fdEventList : ℤ → FdEventInfo

namespace FdTable

/-- The descriptors that have a row. -/
def ValidFd (t : FdTable) (fd : ℤ) : Prop := 0 ≤ fd ∧ fd < t.fdTableSize

instance (t : FdTable) (fd : ℤ) : Decidable (t.ValidFd fd) := inferInstanceAs (Decidable (_ ∧ _))

/-- The descriptor is one of the first `numReadyFds` of the ready list. -/
def Listed (t : FdTable) (fd : ℤ) : Prop := t.listOfReadyFds.Holds t.numReadyFds fd

/-- `*info = ...` for the row of a descriptor. -/
def setInfo (t : FdTable) (fd : ℤ) (info : FdEventInfo) : FdTable :=
  { t with fdEventList := Function.update t.fdEventList fd info }

/-- An access to a slot of the ready list. -/
def touchReady (t : FdTable) (i : ℤ) : FdTable :=
  { t with listOfReadyFds := t.listOfReadyFds.touch i }

/-- `list_of_ready_fds_[num_ready_fds_++] = fd`. -/
def pushReady (t : FdTable) (fd : ℤ) : FdTable :=
  { t with
    listOfReadyFds := t.listOfReadyFds.write t.numReadyFds fd
    numReadyFds := t.numReadyFds + 1 }

/-- `list_of_ready_fds_[i] = list_of_ready_fds_[--num_ready_fds_]`. -/
def dropSlot (t : FdTable) (i : ℤ) : FdTable :=
  { t with
    listOfReadyFds := t.listOfReadyFds.moveInto i (t.numReadyFds - 1)
    numReadyFds := t.numReadyFds - 1 }

/-- The loop that looks for a descriptor in the ready list and drops its slot. -/
def dropReady (t : FdTable) (fd : ℤ) : FdTable :=
  match Buffer.removeFirst (fun listed ↦ decide (listed = fd)) t.listOfReadyFds t.numReadyFds with
  | (_, listOfReadyFds, numReadyFds) =>
      { t with listOfReadyFds := listOfReadyFds, numReadyFds := numReadyFds }

/-- What `delFdEvent` and `removeFd` do once the kernel has dropped the descriptor. -/
def clearFd (t : FdTable) (fd : ℤ) : FdTable :=
  { t.setInfo fd .zero with numMonitoredFds := t.numMonitoredFds - 1 }.dropReady fd

variable {κ : Type*} [EpollKernel κ]

open EpollKernel

def addFdEvent (t : FdTable) (kernel : κ) (fd : ℤ) (mask : Mask)
    (proc data procExp dataExp : Pointer) :
    Status × FdTable × κ :=
  if fd ≥ t.fdTableSize ∨ fd < 0 then (.error, t, kernel)
  else
    let oldInfo := t.fdEventList fd
    let operation := if oldInfo.monitored = Mask.none then CtlOp.add else CtlOp.mod
    let info := { oldInfo with
      monitored := oldInfo.monitored ||| mask
      proc := proc
      data := data
      procExp := procExp
      dataExp := dataExp }
    let t := t.setInfo fd info
    match epollCtl kernel operation fd (epollEvents info.monitored) with
    | (false, kernel) => (.error, t.setInfo fd oldInfo, kernel)
    | (true, kernel) =>
        (.ok, if operation = .add then { t with numMonitoredFds := t.numMonitoredFds + 1 } else t,
          kernel)

def delFdEvent (t : FdTable) (kernel : κ) (fd : ℤ) (mask : Mask) : Status × FdTable × κ :=
  if fd ≥ t.fdTableSize ∨ fd < 0 then (.error, t, kernel)
  else if mask = Mask.none then (.ok, t, kernel)
  else
    let oldInfo := t.fdEventList fd
    let info := { oldInfo with monitored := oldInfo.monitored &&& ~~~mask }
    let t := t.setInfo fd info
    if info.monitored ≠ Mask.none then
      match epollCtl kernel .mod fd (epollEvents info.monitored) with
      | (false, kernel) => (.error, t.setInfo fd oldInfo, kernel)
      | (true, kernel) => (.ok, t, kernel)
    else
      match epollCtl kernel .del fd (epollEvents info.monitored) with
      | (false, kernel) => (.error, t.setInfo fd oldInfo, kernel)
      | (true, kernel) => (.ok, t.clearFd fd, kernel)

def removeFd (t : FdTable) (kernel : κ) (fd : ℤ) (closeIt : Bool) : Status × FdTable × κ :=
  if fd ≥ t.fdTableSize ∨ fd < 0 then (.error, t, kernel)
  else if (t.fdEventList fd).monitored = Mask.none then
    (.ok, t, if closeIt then close kernel fd else kernel)
  else
    match epollCtl kernel .del fd 0 with
    | (false, kernel) => (.error, t, kernel)
    | (true, kernel) => (.ok, t.clearFd fd, if closeIt then close kernel fd else kernel)

end FdTable

/-! ### Time events -/

/-- `ae_time_event_info_t`. -/
structure TimeEventInfo where
  timeEventId : BitVec 64
  whenMs : ℤ
  proc : Pointer
  data : Pointer
  deriving DecidableEq

structure TimeTable where
  timeEventList : Buffer TimeEventInfo
  sizeTimeEvents : ℤ
  usedTimeEvents : ℤ
  lastTimeEventId : BitVec 64

namespace TimeTable

/-- `addTimeEvent`, with the clock reading it takes when the table is not full. -/
def addTimeEvent (t : TimeTable) (now : ℤ) (msLater : BitVec 32) (proc data : Pointer) :
    Status × TimeTable :=
  if t.usedTimeEvents = t.sizeTimeEvents then (.error, t)
  else
    let event := ⟨t.lastTimeEventId + 1, now + msLater.toNat, proc, data⟩
    (.ok, { t with
      timeEventList := t.timeEventList.write t.usedTimeEvents event
      lastTimeEventId := t.lastTimeEventId + 1
      usedTimeEvents := t.usedTimeEvents + 1 })

def delTimeEvent (t : TimeTable) (timeEventId : BitVec 64) : Status × TimeTable :=
  match Buffer.removeFirst (fun event ↦ decide (event.timeEventId = timeEventId)) t.timeEventList
    t.usedTimeEvents with
  | (found, timeEventList, usedTimeEvents) =>
      (if found then .ok else .error,
        { t with timeEventList := timeEventList, usedTimeEvents := usedTimeEvents })

end TimeTable

structure AsyncEvent where
  stopped : Bool
  fds : FdTable
  times : TimeTable

/-- The object after a successful `initialize()`: `fdTableSize` is what `getdtablesize()` answered,
`sizeTimeEvents` the `time_event_hint_size`, the arrays are as `calloc` leaves them, and the last
two arguments are the memory around them. -/
def AsyncEvent.initialized (fdTableSize sizeTimeEvents : ℤ) (aroundFds : ℤ → ℤ)
    (aroundTimes : ℤ → TimeEventInfo) : AsyncEvent where
  stopped := false
  fds :=
    { fdTableSize := fdTableSize
      numMonitoredFds := 0
      numReadyFds := 0
      listOfReadyFds := .calloc fdTableSize 0 aroundFds
      fdEventList := fun _ ↦ .zero }
  times :=
    { timeEventList := .calloc sizeTimeEvents ⟨0, 0, null, 0⟩ aroundTimes
      sizeTimeEvents := sizeTimeEvents
      usedTimeEvents := 0
      lastTimeEventId := 0 }

end Nebula.Async
