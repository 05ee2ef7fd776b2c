import Nebula.Async.Tables
import Nebula.Library.Outcome
import Mathlib.Logic.Relation

/-!
Callbacks and what they may do. A callback is code of the application: it makes any finite sequence
of calls on the event loop it was called from and returns any value. What it does may depend on
everything that has happened so far, so the environment is a function of the whole `World`, whose
`log` records every exchange with the environment: clock readings, `epoll_wait` results, callbacks
entered and left, and time events added and deleted. The log is never read by the program.

Calling a `NULL` callback ends the process.
-/

set_option autoImplicit false
set_option relaxedAutoImplicit false

namespace Nebula.Async

open Nebula.Library

/-- A callback being called: for I/O on a descriptor with the row it was found in, for an exception
on a descriptor, or for a time event. -/
inductive Invocation where
  | proc (fd : ℤ) (mask : Mask) (info : FdEventInfo)
  | procExp (fd : ℤ) (info : FdEventInfo)
  | timeProc (event : TimeEventInfo)

/-- The function that is called. -/
def Invocation.entry : Invocation → Pointer
  | .proc _ _ info => info.proc
  | .procExp _ info => info.procExp
  | .timeProc event => event.proc

/-- A call of a public operation of the event loop. -/
inductive Call where
  | addFdEvent (fd : ℤ) (mask : Mask) (proc data procExp dataExp : Pointer)
  | delFdEvent (fd : ℤ) (mask : Mask)
  | removeFd (fd : ℤ) (closeIt : Bool)
  | addTimeEvent (msLater : BitVec 32) (proc data : Pointer)
  | delTimeEvent (timeEventId : BitVec 64)
  | start
  | stop

/-- What a callback does: the calls it makes, in order, and the value it returns. -/
structure Reaction where
  calls : List Call
  result : Mask

/-- Where the event loop calls a callback from: a batch, with the entries that are still to be
dispatched, or a slot of the ready list or of the time events. -/
inductive Site where
  | batch (later : List EpollEvent)
  | ready (idx : ℤ)
  | timer (i : ℤ)

/-- An exchange with the environment. A callback that returns is recorded with the place it was
called from, its result and the tables it leaves. A call of `addTimeEvent` is recorded with its
arguments and the id it stores for the caller, if it succeeds, and one of `delTimeEvent` with the id
and the result. -/
inductive Record where
  | clock (now : ℤ)
  | waited (timeoutMs : ℤ) (fired : Option (List EpollEvent))
  | called (invocation : Invocation)
  | returned (invocation : Invocation) (site : Site) (result : Mask) (ae : AsyncEvent)
  | added (msLater : BitVec 32) (proc data : Pointer) (timeEventId : Option (BitVec 64))
  | deleted (timeEventId : BitVec 64) (status : Status)

structure World (κ : Type*) where
  ae : AsyncEvent
  kernel : κ
  log : List Record

/-- The code around the event loop: what callbacks do, what `epoll_wait` delivers for a timeout
(`none` when it fails), and what the clock says. -/
structure Env (κ : Type*) where
  react : World κ → Invocation → Reaction
  epollWait : World κ → ℤ → Option (List EpollEvent)
  clock : World κ → ℤ

namespace World

variable {κ : Type*}

def record (w : World κ) (r : Record) : World κ := { w with log := r :: w.log }

def setFds (w : World κ) (t : FdTable) : World κ := { w with ae := { w.ae with fds := t } }

def setTimes (w : World κ) (t : TimeTable) : World κ := { w with ae := { w.ae with times := t } }

@[simp] theorem ae_record (w : World κ) (r : Record) : (w.record r).ae = w.ae := rfl

@[simp] theorem kernel_record (w : World κ) (r : Record) : (w.record r).kernel = w.kernel := rfl

@[simp] theorem log_record (w : World κ) (r : Record) : (w.record r).log = r :: w.log := rfl

@[simp] theorem fds_setFds (w : World κ) (t : FdTable) : (w.setFds t).ae.fds = t := rfl

@[simp] theorem times_setFds (w : World κ) (t : FdTable) :
    (w.setFds t).ae.times = w.ae.times := rfl

@[simp] theorem kernel_setFds (w : World κ) (t : FdTable) : (w.setFds t).kernel = w.kernel := rfl

@[simp] theorem log_setFds (w : World κ) (t : FdTable) : (w.setFds t).log = w.log := rfl

@[simp] theorem fds_setTimes (w : World κ) (t : TimeTable) :
    (w.setTimes t).ae.fds = w.ae.fds := rfl

@[simp] theorem times_setTimes (w : World κ) (t : TimeTable) : (w.setTimes t).ae.times = t := rfl

@[simp] theorem kernel_setTimes (w : World κ) (t : TimeTable) :
    (w.setTimes t).kernel = w.kernel := rfl

@[simp] theorem log_setTimes (w : World κ) (t : TimeTable) : (w.setTimes t).log = w.log := rfl

/-- A reading of the clock. -/
def msTimestampNow (env : Env κ) (w : World κ) : ℤ × World κ :=
  (env.clock w, w.record (.clock (env.clock w)))

def addTimeEvent (env : Env κ) (w : World κ) (msLater : BitVec 32) (proc data : Pointer) :
    Status × World κ :=
  if w.ae.times.usedTimeEvents = w.ae.times.sizeTimeEvents then
    (.error, w.record (.added msLater proc data none))
  else
    let (now, w) := w.msTimestampNow env
    let (status, times) := w.ae.times.addTimeEvent now msLater proc data
    (status, (w.setTimes times).record (.added msLater proc data (some times.lastTimeEventId)))

def delTimeEvent (w : World κ) (timeEventId : BitVec 64) : Status × World κ :=
  let (status, times) := w.ae.times.delTimeEvent timeEventId
  (status, (w.setTimes times).record (.deleted timeEventId status))

variable [EpollKernel κ]

/-- One call of a public operation. -/
def call (env : Env κ) (w : World κ) : Call → Status × World κ
  | .addFdEvent fd mask proc data procExp dataExp =>
      let (status, fds, kernel) :=
        w.ae.fds.addFdEvent w.kernel fd mask proc data procExp dataExp
      (status, { w.setFds fds with kernel := kernel })
  | .delFdEvent fd mask =>
      let (status, fds, kernel) := w.ae.fds.delFdEvent w.kernel fd mask
      (status, { w.setFds fds with kernel := kernel })
  | .removeFd fd closeIt =>
      let (status, fds, kernel) := w.ae.fds.removeFd w.kernel fd closeIt
      (status, { w.setFds fds with kernel := kernel })
  | .addTimeEvent msLater proc data => w.addTimeEvent env msLater proc data
  | .delTimeEvent timeEventId => w.delTimeEvent timeEventId
  | .start => (.ok, { w with ae := { w.ae with stopped := false } })
  | .stop => (.ok, { w with ae := { w.ae with stopped := true } })

/-- Calls made one after the other. -/
def runCalls (env : Env κ) : World κ → List Call → World κ
  | w, [] => w
  | w, c :: rest => runCalls env (w.call env c).2 rest

/-- What holds before a sequence of calls and is kept by every call holds after it. -/
theorem runCalls_induction (env : Env κ) {P : World κ → Prop}
    (hcall : ∀ w c, P w → P (w.call env c).2) : ∀ (calls : List Call) (w : World κ), P w →
      P (w.runCalls env calls) := by
  intro calls
  induction calls with
  | nil => exact fun w hw ↦ hw
  | cons c rest ih => exact fun w hw ↦ ih _ (hcall w c hw)

/-- A callback runs: the world it returns into, and its result. -/
def callback (env : Env κ) (site : Site) (w : World κ) (invocation : Invocation) :
    World κ × Mask :=
  let w := w.record (.called invocation)
  let reaction := env.react w invocation
  let w := w.runCalls env reaction.calls
  (w.record (.returned invocation site reaction.result w.ae), reaction.result)

/-- Call a callback and go on with its result, unless it is `NULL`. -/
def invoke {σ : Type*} (env : Env κ) (site : Site) (w : World κ)
    (invocation : Invocation) (stay : World κ → σ) (resume : World κ → Mask → σ) : Outcome σ :=
  if invocation.entry = null then .crashed (stay (w.record (.called invocation)))
  else
    let (w, result) := w.callback env site invocation
    .done (resume w result)

theorem invoke_of_null {σ : Type*} {env : Env κ} {site : Site} {w : World κ}
    {invocation : Invocation} {stay : World κ → σ} {resume : World κ → Mask → σ}
    (h : invocation.entry = null) : w.invoke env site invocation stay resume =
      .crashed (stay (w.record (.called invocation))) :=
  if_pos h

theorem invoke_of_ne_null {σ : Type*} {env : Env κ} {site : Site} {w : World κ}
    {invocation : Invocation} {stay : World κ → σ} {resume : World κ → Mask → σ}
    (h : invocation.entry ≠ null) : w.invoke env site invocation stay resume =
      .done (resume (w.callback env site invocation).1 (w.callback env site invocation).2) :=
  if_neg h

theorem invoke_ended {σ : Type*} (env : Env κ) (site : Site) (w : World κ)
    (invocation : Invocation) (stay : World κ → σ) (resume : World κ → Mask → σ) :
    (w.invoke env site invocation stay resume).Ended := by
  unfold invoke
  split <;> trivial

/-- A property of the outcome of a callback is one of the world it would be stuck in and one of the
state it is resumed in. -/
theorem invoke_state {σ : Type*} {P : σ → Prop} {env : Env κ} {site : Site}
    {w : World κ} {invocation : Invocation} {stay : World κ → σ} {resume : World κ → Mask → σ}
    (hstay : P (stay (w.record (.called invocation))))
    (hresume : P (resume (w.callback env site invocation).1 (w.callback env site invocation).2)) :
    P (w.invoke env site invocation stay resume).state := by
  unfold invoke
  split
  · exact hstay
  · exact hresume

end World

end Nebula.Async
