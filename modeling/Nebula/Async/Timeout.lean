import Nebula.Async.EventLoop
import Mathlib.Tactic.Push

/-!
The timeout that `eventLoop` passes to `epoll_wait`: zero when a time event is due, a millisecond
while there are ready descriptors, and else the milliseconds until the nearest deadline, narrowed to
an `int` on the way.

`sleepsUntilDue_iff` says when the loop does not sleep past a deadline: with a ready descriptor
always, and else when the narrowed number is not negative.
-/

set_option autoImplicit false
set_option relaxedAutoImplicit false

namespace Nebula.Async

open Nebula.Library

/-! ### The nearest deadline -/

namespace TimeTable

/-- The event is in the table. -/
def Pending (t : TimeTable) (event : TimeEventInfo) : Prop :=
  t.timeEventList.Holds t.usedTimeEvents event

/-- The event is in the table, and no other one is due before it. -/
def Nearest (t : TimeTable) (event : TimeEventInfo) : Prop :=
  t.Pending event ∧ ∀ other, t.Pending other → event.whenMs ≤ other.whenMs

variable {t : TimeTable}

/-- The slot that is found among the first ones has the nearest deadline of them. -/
theorem nearestSlot_spec (t : TimeTable) (count : ℕ) :
    count = 0 ∧ t.nearestSlot count = -1 ∨
      0 ≤ t.nearestSlot count ∧ t.nearestSlot count < count ∧ ∀ i : ℤ, 0 ≤ i → i < count →
        (t.timeEventList.cell (t.nearestSlot count)).whenMs ≤ (t.timeEventList.cell i).whenMs := by
  induction count with
  | zero => exact Or.inl ⟨rfl, rfl⟩
  | succ count ih =>
    refine Or.inr ?_
    have hlast : ∀ i : ℤ, i < (count + 1 : ℕ) → i = count ∨ i < count := fun i hi ↦ by omega
    rw [nearestSlot]
    split_ifs with hcloser
    · refine ⟨by omega, by omega, fun i hi hlt ↦ ?_⟩
      rcases hlast i hlt with rfl | hlt'
      · exact le_rfl
      · rcases ih with ⟨hzero, -⟩ | ⟨hnonneg, -, hleast⟩
        · omega
        · exact (hcloser.resolve_left (by omega)).le.trans (hleast i hi hlt')
    · push Not at hcloser
      obtain ⟨hnonneg, hlt, hleast⟩ := ih.resolve_left fun hnone ↦ by omega
      refine ⟨hnonneg, by omega, fun i hi hlt' ↦ ?_⟩
      rcases hlast i hlt' with rfl | hlt''
      · exact hcloser.2
      · exact hleast i hi hlt''

/-- The search over the whole table finds nothing exactly if there is no event, and else an event
with the nearest deadline. -/
theorem nearestSlot_cases (t : TimeTable) :
    (∀ event, ¬ t.Pending event) ∧ t.nearestSlot t.usedTimeEvents.toNat = -1 ∨
      0 ≤ t.nearestSlot t.usedTimeEvents.toNat ∧
        t.Nearest (t.timeEventList.cell (t.nearestSlot t.usedTimeEvents.toNat)) := by
  rcases t.nearestSlot_spec t.usedTimeEvents.toNat with ⟨hzero, hnone⟩ | ⟨hnonneg, hlt, hleast⟩
  · refine Or.inl ⟨?_, hnone⟩
    rintro event ⟨i, hi, hlt, -⟩
    omega
  · refine Or.inr ⟨hnonneg, ⟨_, hnonneg, by omega, rfl⟩, ?_⟩
    rintro other ⟨i, hi, hlt', rfl⟩
    exact hleast i hi (by omega)

end TimeTable

/-! ### The narrowed number -/

/-- `static_cast<int>` keeps what fits, and goes below zero from 2³¹ on. -/
theorem toInt32_eq (ms : ℤ) :
    toInt32 ms = if ms % 4294967296 < 2147483648 then ms % 4294967296
      else ms % 4294967296 - 4294967296 := by
  rw [toInt32, BitVec.toInt_ofInt, Int.bmod_def]
  rfl

namespace AsyncEvent

variable {ae : AsyncEvent} {ms : ℤ}

theorem waitMs_of_ready (h : ae.fds.numReadyFds > 0) : 0 ≤ ae.waitMs ms ∧ ae.waitMs ms ≤ 1 := by
  rw [waitMs, if_pos h]
  split_ifs <;> omega

theorem waitMs_of_not_ready (h : ¬ ae.fds.numReadyFds > 0) : ae.waitMs ms = ms := by
  rw [waitMs, if_neg h]
  split_ifs with hzero
  · exact hzero.symm
  · rfl

end AsyncEvent

/-! ### The timeout -/

namespace World

variable {κ : Type*}

/-- The timeout that a round of `eventLoop` passes to `epoll_wait`. -/
def timeoutMs (env : Env κ) (w : World κ) : ℤ :=
  let (msLeft, w) := w.nearestTimeEvent env
  w.ae.waitMs (toInt32 msLeft)

/-- `timeoutMs` is what `processFdEvents` is called with in a round. -/
theorem loopBody_eq [EpollKernel κ] (env : Env κ) (fuel : ℕ) (w : World κ) :
    loopBody env fuel w = ((processReadyFds env fuel w).map ReadyLoop.world).andThen fun w ↦
      (((w.nearestTimeEvent env).2.processFdEvents env (w.timeoutMs env)).map Prod.snd).andThen
        fun w ↦ (processTimeEvents env fuel w).map TimeLoop.world := rfl

variable {env : Env κ} {w : World κ} {event : TimeEventInfo}

theorem timeoutMs_of_none (h : ∀ event, ¬ w.ae.times.Pending event) :
    w.timeoutMs env = w.ae.waitMs (-1) := by
  rcases w.ae.times.nearestSlot_cases with ⟨-, hslot⟩ | ⟨-, hnearest⟩
  · unfold timeoutMs nearestTimeEvent
    rw [hslot]
    rfl
  · exact absurd hnearest.1 (h _)

theorem timeoutMs_of_nearest (h : w.ae.times.Nearest event) : w.timeoutMs env =
    w.ae.waitMs
      (toInt32 (if event.whenMs < env.clock w then 0 else event.whenMs - env.clock w)) := by
  rcases w.ae.times.nearestSlot_cases with ⟨hnone, -⟩ | ⟨hslot, hnearest⟩
  · exact absurd h.1 (hnone event)
  · have hwhen : (w.ae.times.timeEventList.cell
        (w.ae.times.nearestSlot w.ae.times.usedTimeEvents.toNat)).whenMs = event.whenMs :=
      le_antisymm (hnearest.2 event h.1) (h.2 _ hnearest.1)
    have hslot' : ¬ w.ae.times.nearestSlot w.ae.times.usedTimeEvents.toNat < 0 := by omega
    unfold timeoutMs nearestTimeEvent
    rw [if_pos hslot]
    simp only [msTimestampNow, ae_record, AsyncEvent.msLeft, if_neg hslot', hwhen, sub_neg]

/-- What a timeout should be at the time `now`: zero when an event is due, never longer than the
time until the nearest deadline, short while there are ready descriptors, and without an end only if
there is nothing else to be done. -/
structure SleepsUntilDue (w : World κ) (now timeoutMs : ℤ) : Prop where
  due : (∃ event, w.ae.times.Pending event ∧ event.whenMs ≤ now) → timeoutMs = 0
  early : (∀ event, w.ae.times.Pending event → now < event.whenMs) →
    (∃ event, w.ae.times.Pending event) →
      0 ≤ timeoutMs ∧ ∀ event, w.ae.times.Pending event → timeoutMs ≤ event.whenMs - now
  ready : w.ae.fds.numReadyFds > 0 → 0 ≤ timeoutMs ∧ timeoutMs ≤ 1
  endless : timeoutMs < 0 →
    (∀ event, ¬ w.ae.times.Pending event) ∧ ¬ w.ae.fds.numReadyFds > 0

/-- The loop does not sleep when an event is due. -/
theorem timeoutMs_of_due (h : w.ae.times.Pending event) (hdue : event.whenMs ≤ env.clock w) :
    w.timeoutMs env = 0 := by
  rcases w.ae.times.nearestSlot_cases with ⟨hnone, -⟩ | ⟨-, hnearest⟩
  · exact absurd h (hnone event)
  · have hle := hnearest.2 event h
    have hzero : ∀ ms : ℤ, ms ≤ env.clock w →
        (if ms < env.clock w then 0 else ms - env.clock w) = 0 :=
      fun ms hms ↦ by split_ifs <;> omega
    rw [timeoutMs_of_nearest hnearest, hzero _ (hle.trans hdue)]
    rfl

/-- With a ready descriptor, the loop sleeps for a millisecond at most. -/
theorem sleepsUntilDue_of_ready (hready : w.ae.fds.numReadyFds > 0) :
    w.SleepsUntilDue (env.clock w) (w.timeoutMs env) := by
  have hwait : 0 ≤ w.timeoutMs env ∧ w.timeoutMs env ≤ 1 := by
    rcases w.ae.times.nearestSlot_cases with ⟨hnone, -⟩ | ⟨-, hnearest⟩
    · exact timeoutMs_of_none hnone ▸ AsyncEvent.waitMs_of_ready hready
    · exact timeoutMs_of_nearest hnearest ▸ AsyncEvent.waitMs_of_ready hready
  refine ⟨fun ⟨event, hevent, hdue⟩ ↦ timeoutMs_of_due hevent hdue, fun hlater _ ↦ ?_,
    fun _ ↦ hwait, fun hneg ↦ by omega⟩
  refine ⟨hwait.1, fun event hevent ↦ ?_⟩
  have := hlater event hevent
  omega

/-- Without a ready descriptor, the loop sleeps as long as the narrowed number says. -/
theorem sleepsUntilDue_iff_of_nearest (hready : ¬ w.ae.fds.numReadyFds > 0)
    (h : w.ae.times.Nearest event) (hlater : env.clock w < event.whenMs) :
    w.SleepsUntilDue (env.clock w) (w.timeoutMs env) ↔
      (event.whenMs - env.clock w) % 2 ^ 32 < 2 ^ 31 := by
  have hleft : ¬ event.whenMs < env.clock w := by omega
  have htimeout : w.timeoutMs env = toInt32 (event.whenMs - env.clock w) := by
    rw [timeoutMs_of_nearest h, if_neg hleft, AsyncEvent.waitMs_of_not_ready hready]
  have hnarrow := toInt32_eq (event.whenMs - env.clock w)
  have hall : ∀ other, w.ae.times.Pending other → env.clock w < other.whenMs := fun other hother ↦
    hlater.trans_le (h.2 other hother)
  constructor
  · intro hsleeps
    have hnonneg := (hsleeps.early hall ⟨event, h.1⟩).1
    rw [htimeout, hnarrow] at hnonneg
    split_ifs at hnonneg <;> omega
  · intro hsmall
    rw [if_pos (by omega)] at hnarrow
    have hbounds : 0 ≤ w.timeoutMs env ∧ w.timeoutMs env ≤ event.whenMs - env.clock w := by omega
    refine ⟨fun ⟨other, hother, hdue⟩ ↦ timeoutMs_of_due hother hdue, fun _ _ ↦ ⟨hbounds.1, ?_⟩,
      fun hready' ↦ absurd hready' hready, fun hneg ↦ by omega⟩
    intro other hother
    have := h.2 other hother
    omega

/-- A round of the loop sleeps until the nearest deadline at most, exactly when there is a ready
descriptor, or no event that is still to come, or the milliseconds until the nearest deadline, as an
unsigned 32-bit number, are less than 2³¹. -/
theorem sleepsUntilDue_iff [EpollKernel κ] (env : Env κ) :
    (∀ fuel v, loopBody env fuel v = ((processReadyFds env fuel v).map ReadyLoop.world).andThen
      fun w ↦ (((w.nearestTimeEvent env).2.processFdEvents env (w.timeoutMs env)).map
        Prod.snd).andThen fun w ↦ (processTimeEvents env fuel w).map TimeLoop.world) ∧
    ∀ w : World κ, w.SleepsUntilDue (env.clock w) (w.timeoutMs env) ↔
      w.ae.fds.numReadyFds > 0 ∨ ∀ event, w.ae.times.Nearest event → env.clock w < event.whenMs →
        (event.whenMs - env.clock w) % 2 ^ 32 < 2 ^ 31 := by
  refine ⟨loopBody_eq env, fun w ↦ ?_⟩
  by_cases hready : w.ae.fds.numReadyFds > 0
  · exact iff_of_true (sleepsUntilDue_of_ready hready) (Or.inl hready)
  rw [or_iff_right hready]
  rcases w.ae.times.nearestSlot_cases with ⟨hnone, -⟩ | ⟨-, hnearest⟩
  · refine iff_of_true ⟨?_, ?_, ?_, ?_⟩ fun event hevent ↦ absurd hevent.1 (hnone event)
    · exact fun ⟨event, hevent, _⟩ ↦ absurd hevent (hnone event)
    · exact fun _ ⟨event, hevent⟩ ↦ absurd hevent (hnone event)
    · exact fun hready' ↦ absurd hready' hready
    · exact fun _ ↦ ⟨hnone, hready⟩
  · set event := w.ae.times.timeEventList.cell
      (w.ae.times.nearestSlot w.ae.times.usedTimeEvents.toNat)
    have hwhen : ∀ other, w.ae.times.Nearest other → other.whenMs = event.whenMs :=
      fun other hother ↦ le_antisymm (hother.2 event hnearest.1) (hnearest.2 other hother.1)
    rcases lt_or_ge (env.clock w) event.whenMs with hlater | hdue
    · rw [sleepsUntilDue_iff_of_nearest hready hnearest hlater]
      exact ⟨fun hsmall other hother _ ↦ by rwa [hwhen other hother],
        fun hsmall ↦ hsmall event hnearest hlater⟩
    · have hzero := timeoutMs_of_due hnearest.1 hdue
      refine iff_of_true ⟨fun _ ↦ hzero, ?_, ?_, ?_⟩ fun other hother hlater ↦ ?_
      · exact fun hlater _ ↦ absurd (hlater event hnearest.1) (not_lt.mpr hdue)
      · exact fun hready' ↦ absurd hready' hready
      · exact fun hneg ↦ absurd hzero hneg.ne
      · exact absurd (hwhen other hother ▸ hlater) (not_lt.mpr hdue)

/-- An event loop with one time event, three billion milliseconds from now. -/
def lateTimerWorld : World InterestSet :=
  newWorld.runCalls (constantEnv [] 0) [.addTimeEvent 3000000000 1 0]

/-- The loop waits without an end although there is a time event. -/
theorem not_sleepsUntilDue_lateTimerWorld :
    lateTimerWorld.timeoutMs (constantEnv [] 0) = -1294967296 ∧
      ¬ lateTimerWorld.SleepsUntilDue ((constantEnv [] 0).clock lateTimerWorld)
        (lateTimerWorld.timeoutMs (constantEnv [] 0)) := by
  have htimeout : lateTimerWorld.timeoutMs (constantEnv [] 0) = -1294967296 := by decide
  refine ⟨htimeout, fun hsleeps ↦ ?_⟩
  have hnone := (hsleeps.endless (by omega)).1
  exact hnone _ ⟨0, by decide, by decide, rfl⟩

end World

end Nebula.Async
