import Nebula.Async.Timeout
import Nebula.Logging.Shutdown

/-!
How long it takes to stop the log server. `destroyInstance` sets the stop flag and then waits for
the server thread, which looks at the flag only when the time event of `checkStopFlag` is due;
until then every datagram, and every signal, takes it around the event loop once more.

`stopsInTime` gives the bound. From the moment when the flag is set, the server takes at most a
fixed number of steps, one more for each datagram that is waiting, eight more for each datagram
that is still sent and six more for each interrupt; and it never waits for longer than a second.
`Session.Ticking` is what this rests on: there is one time event, due within a second, and no
descriptor is ever listed as ready, because `recvDomainSocketMessage` empties the socket.
-/

set_option autoImplicit false
set_option relaxedAutoImplicit false

namespace Nebula.Logging

open Nebula.Library Nebula.Async

/-- The steps from a position of a stopped event loop until `routine` returns. -/
def Position.stepsToReturn : Position → ℕ
  | .timeEvents _ _ => 2
  | .loopTest => 1
  | _ => 0

/-- The steps from a position until `routine` returns, when the stop flag is set and is looked at
at the given time. -/
def Position.stepsToStop (dueMs clock : ℤ) : Position → ℕ
  | .starting => 9
  | .loopTest => 8
  | .readyFds _ => 7
  | .epollWait _ => 6
  | .receiving _ => 12
  | .readingClock => if dueMs ≤ clock then 5 else 11
  | .timeEvents now i => if i = 0 then (if dueMs ≤ now then 4 else 10) else 9
  | .checkStopFlag _ _ => 3
  | .returned => 0

namespace Session

/-- The time at which the stop flag is looked at next. -/
def dueMs (s : Session) : ℤ := (s.ae.times.timeEventList.cell 0).whenMs

/-- What is known at a position. -/
def Timely (s : Session) : Position → Prop
  | .readyFds idx => 0 ≤ idx
  | .receiving slot => slot = none
  | .epollWait latest => ∃ ms, latest = some ms ∧ s.dueMs ≤ ms ∧ ms ≤ s.clock + 1000
  | .timeEvents now i => now ≤ s.clock ∧ (i = 0 ∨ i = 1)
  | .checkStopFlag now i => now ≤ s.clock ∧ i = 0 ∧ s.ae.stopped = false
  | _ => True

/-- The tables of a server that looks at the stop flag every second. -/
structure Ticking (s : Session) : Prop where
  fired : (s.ae.fds.fdEventList s.domainFd).alreadyFired = 0
  numReadyFds : s.ae.fds.numReadyFds = 0
  used : s.ae.times.usedTimeEvents = if s.ae.stopped then 0 else 1
  due : s.ae.stopped = false → s.dueMs ≤ s.clock + 1000
  timely : s.Timely s.position

/-- The steps that the server takes at most until it returns, when the stop flag is set and nothing
else happens. -/
def stepsLeft (s : Session) : ℕ :=
  if s.ae.stopped then s.position.stepsToReturn
  else s.position.stepsToStop s.dueMs s.clock + s.queue.length + if s.readable then 7 else 0

/-- What an action may add to the steps that are left. -/
def Action.delay : Action → ℕ
  | .send _ => 8
  | .server answer => if answer.interrupted then 6 else 0
  | _ => 0

/-- The steps of the server. -/
def Action.serverSteps : Action → ℕ
  | .server _ => 1
  | _ => 0

variable {s s' : Session} {answer : Answer}

/-! ### The timeout -/

/-- The loop waits until the check is due. -/
theorem Ticking.latest (h : s.Ticking) (hgoing : s.ae.stopped = false) :
    ∃ ms, s.latest = some ms ∧ s.dueMs ≤ ms ∧ ms ≤ s.clock + 1000 := by
  have hused : s.ae.times.usedTimeEvents = 1 := by rw [h.used, hgoing]; rfl
  have hready : ¬ s.ae.fds.numReadyFds > 0 := by rw [h.numReadyFds]; exact lt_irrefl 0
  have hnearest : s.ae.times.nearestSlot s.ae.times.usedTimeEvents.toNat = 0 := by
    rw [hused]
    rfl
  have hdue := h.due hgoing
  have hleft : s.ae.msLeft s.clock = if s.dueMs - s.clock < 0 then 0 else s.dueMs - s.clock := by
    simp only [AsyncEvent.msLeft, hnearest]
    rfl
  have hnarrow : toInt32 (s.ae.msLeft s.clock) = s.ae.msLeft s.clock := by
    rw [toInt32_eq, hleft]
    split_ifs <;> omega
  have hnot : ¬ s.ae.msLeft s.clock < 0 := by
    rw [hleft]
    split_ifs <;> omega
  refine ⟨s.clock + s.ae.msLeft s.clock, ?_, ?_, ?_⟩
  · simp only [Session.latest, hnarrow, AsyncEvent.waitMs_of_not_ready hready, if_neg hnot]
  · rw [hleft]
    split_ifs <;> omega
  · rw [hleft]
    split_ifs <;> omega

/-! ### One step of the server -/

/-- The server goes to another position. -/
theorem Ticking.goto (h : s.Ticking) {position : Position} (hplace : s.Timely position) :
    (s.goto position).Ticking := by
  refine ⟨h.fired, h.numReadyFds, h.used, h.due, ?_⟩
  cases position <;> exact hplace

/-- When the socket is empty, the descriptor is not listed. -/
theorem Ticking.settleFired (h : s.Ticking) :
    s.ae.fds.settleFired s.domainFd Mask.readable Mask.none = s.ae.fds := by
  have hguess : FdTable.guess (s.ae.fds.fdEventList s.domainFd) Mask.none = 0 := by
    rw [FdTable.guess, h.fired]
    simp
  unfold FdTable.settleFired
  simp only [hguess, h.fired, ne_eq, not_true_eq_false, if_false]

theorem stepsLeft_of_going (hgoing : s.ae.stopped = false) :
    s.stepsLeft = s.position.stepsToStop s.dueMs s.clock + s.queue.length +
      if s.readable then 7 else 0 := by
  rw [stepsLeft, if_neg (by rw [hgoing]; exact Bool.false_ne_true)]

theorem stepsLeft_of_stopped (hstopped : s.ae.stopped = true) :
    s.stepsLeft = s.position.stepsToReturn :=
  if_pos hstopped

/-- In a loop that goes on, a step to a position with fewer steps left is progress. -/
theorem stepsLeft_goto {position : Position} {steps : ℕ} (hgoing : s.ae.stopped = false)
    (hsteps : position.stepsToStop s.dueMs s.clock + 1 ≤
      s.position.stepsToStop s.dueMs s.clock + steps) :
    (s.goto position).stepsLeft + 1 ≤ s.stepsLeft + steps := by
  rw [stepsLeft_of_going hgoing, stepsLeft_of_going (s := s.goto position) hgoing]
  change position.stepsToStop s.dueMs s.clock + s.queue.length +
    (if s.readable then 7 else 0) + 1 ≤ _
  omega

/-- What a step of the server does: the tables stay as they are, and when the stop flag is set there
are fewer steps left. -/
structure Advances (s s' : Session) (steps : ℕ) : Prop where
  ticking : s'.Ticking
  closer : s.stopFlag = true → s'.stepsLeft + 1 ≤ s.stepsLeft + steps

theorem Ticking.advances_goto (h : s.Ticking) {position : Position} {steps : ℕ}
    (hgoing : s.ae.stopped = false) (htimely : s.Timely position)
    (hsteps : position.stepsToStop s.dueMs s.clock + 1 ≤
      s.position.stepsToStop s.dueMs s.clock + steps) : Advances s (s.goto position) steps :=
  ⟨h.goto htimely, fun _ ↦ stepsLeft_goto hgoing hsteps⟩

/-- Every step of the server is an advance, unless it is interrupted. -/
theorem Ticking.serverStep (h : s.Ticking) (haccounted : s.Accounted)
    (hstep : s.serverStep answer = some s') :
    Advances s s' (Action.delay (.server answer)) := by
  have htimely := h.timely
  have hleaving := haccounted.leaving
  unfold Session.serverStep at hstep
  cases hposition : s.position with
  | starting =>
    rw [hposition] at hstep hleaving
    have hgoing : s.ae.stopped = false := Bool.eq_false_iff.mpr hleaving
    cases hstep
    refine ⟨⟨h.fired, h.numReadyFds, h.used, h.due, trivial⟩, fun _ ↦ ?_⟩
    rw [stepsLeft_of_going hgoing, stepsLeft_of_going (by exact hgoing), hposition]
    change 8 + s.queue.length + (if s.readable then 7 else 0) + 1 ≤
      9 + s.queue.length + (if s.readable then 7 else 0) + _
    omega
  | loopTest =>
    rw [hposition] at hstep
    cases hstep
    cases hstopped : s.ae.stopped with
    | true =>
      rw [if_neg (by rw [Accounted.not_loopTest hstopped]; exact Bool.false_ne_true)]
      refine ⟨h.goto trivial, fun _ ↦ ?_⟩
      rw [stepsLeft_of_stopped hstopped, stepsLeft_of_stopped (by exact hstopped), hposition]
      exact Nat.le_add_right 1 _
    | false =>
      have htest : s.ae.loopTest = true := by
        have hpos := haccounted.numMonitoredFds_pos
        simp [AsyncEvent.loopTest, hstopped, hpos]
      rw [if_pos htest]
      refine h.advances_goto hstopped (le_refl (0 : ℤ)) ?_
      rw [hposition]
      exact Nat.le_add_right 8 _
  | readyFds idx =>
    rw [hposition] at hstep hleaving htimely
    have hgoing : s.ae.stopped = false := Bool.eq_false_iff.mpr hleaving
    cases hstep
    have hidx : 0 ≤ idx := htimely
    rw [if_neg (by rw [h.numReadyFds]; exact not_lt.mpr hidx)]
    refine h.advances_goto hgoing (h.latest hgoing) ?_
    rw [hposition]
    exact Nat.le_add_right 7 _
  | epollWait latest =>
    rw [hposition] at hstep hleaving htimely
    have hgoing : s.ae.stopped = false := Bool.eq_false_iff.mpr hleaving
    obtain ⟨ms, rfl, hms, -⟩ := htimely
    simp only at hstep
    split_ifs at hstep with hinterrupted hreadable hover
    · cases hstep
      refine h.advances_goto hgoing trivial ?_
      rw [hposition, Action.delay, if_pos hinterrupted]
      change (if s.dueMs ≤ s.clock then 5 else 11) + 1 ≤ 6 + 6
      split_ifs <;> omega
    · cases hstep
      refine ⟨⟨h.fired, h.numReadyFds, h.used, h.due, rfl⟩, fun _ ↦ ?_⟩
      rw [stepsLeft_of_going hgoing, stepsLeft_of_going (by exact hgoing), hposition,
        if_pos hreadable.1]
      change 12 + s.queue.length + 0 + 1 ≤ 6 + s.queue.length + 7 + _
      omega
    · cases hstep
      obtain ⟨ms', hms', hle⟩ := hover
      cases hms'
      refine h.advances_goto hgoing trivial ?_
      rw [hposition]
      change (if s.dueMs ≤ s.clock then 5 else 11) + 1 ≤ 6 + _
      rw [if_pos (hms.trans hle)]
      exact Nat.le_add_right 6 _
  | receiving slot =>
    rw [hposition] at hstep hleaving htimely
    have hgoing : s.ae.stopped = false := Bool.eq_false_iff.mpr hleaving
    obtain rfl : slot = none := htimely
    simp only at hstep
    cases hqueue : s.queue with
    | nil =>
      rw [hqueue] at hstep
      cases hstep
      have hdrained : s.drained none = s.goto .readingClock := by
        rw [Session.drained, h.settleFired]
        rfl
      rw [hdrained]
      refine h.advances_goto hgoing trivial ?_
      rw [hposition]
      change (if s.dueMs ≤ s.clock then 5 else 11) + 1 ≤ 12 + _
      split_ifs <;> omega
    | cons datagram rest =>
      rw [hqueue] at hstep
      cases hstep
      refine ⟨⟨h.fired, h.numReadyFds, h.used, h.due, ?_⟩, fun _ ↦ ?_⟩
      · change Session.Timely _ s.position
        rw [hposition]
        rfl
      · rw [stepsLeft_of_going hgoing, stepsLeft_of_going (by exact hgoing), hqueue]
        change s.position.stepsToStop s.dueMs s.clock + rest.length +
          (if s.readable then 7 else 0) + 1 ≤ _
        rw [List.length_cons]
        omega
  | readingClock =>
    rw [hposition] at hstep hleaving
    have hgoing : s.ae.stopped = false := Bool.eq_false_iff.mpr hleaving
    cases hstep
    refine h.advances_goto hgoing ⟨le_rfl, Or.inl rfl⟩ ?_
    rw [hposition]
    change (if (0 : ℤ) = 0 then (if s.dueMs ≤ s.clock then 4 else 10) else 9) + 1 ≤
      (if s.dueMs ≤ s.clock then 5 else 11) + _
    rw [if_pos rfl]
    split_ifs <;> omega
  | timeEvents now i =>
    rw [hposition] at hstep htimely
    obtain ⟨hnow, hi⟩ := htimely
    cases hstep
    cases hstopped : s.ae.stopped with
    | true =>
      have hused : s.ae.times.usedTimeEvents = 0 := by rw [h.used, if_pos hstopped]
      rw [if_neg (by omega)]
      refine ⟨h.goto trivial, fun _ ↦ ?_⟩
      rw [stepsLeft_of_stopped hstopped, stepsLeft_of_stopped (by exact hstopped), hposition]
      exact Nat.le_add_right 2 _
    | false =>
      have hused : s.ae.times.usedTimeEvents = 1 := by rw [h.used, hstopped]; rfl
      rcases hi with rfl | rfl
      · rw [if_pos (by omega)]
        split_ifs with hdue
        · refine h.advances_goto hstopped ⟨hnow, rfl, hstopped⟩ ?_
          rw [hposition]
          change 3 + 1 ≤ (if (0 : ℤ) = 0 then (if s.dueMs ≤ now then 4 else 10) else 9) + _
          rw [if_pos rfl]
          split_ifs <;> omega
        · refine h.advances_goto hstopped ⟨hnow, Or.inr rfl⟩ ?_
          rw [hposition]
          change 9 + 1 ≤ (if (0 : ℤ) = 0 then (if s.dueMs ≤ now then 4 else 10) else 9) + _
          rw [if_pos rfl, if_neg (show ¬ s.dueMs ≤ now from hdue)]
          exact Nat.le_add_right 10 _
      · rw [if_neg (by omega)]
        refine h.advances_goto hstopped trivial ?_
        rw [hposition]
        exact Nat.le_add_right 9 _
  | checkStopFlag now i =>
    rw [hposition] at hstep htimely
    obtain ⟨hnow, rfl, hgoing⟩ := htimely
    have hused : s.ae.times.usedTimeEvents = 1 := by rw [h.used, hgoing]; rfl
    cases hstep
    by_cases hflag : s.stopFlag = true
    · rw [Session.checkStopFlag, if_pos hflag]
      refine ⟨⟨h.fired, h.numReadyFds, ?_, fun hgoing' ↦ ?_, hnow, Or.inl rfl⟩, fun _ ↦ ?_⟩
      · change s.ae.times.usedTimeEvents - 1 = 0
        rw [hused, sub_self]
      · cases hgoing'
      · rw [stepsLeft_of_going hgoing, stepsLeft_of_stopped (by rfl), hposition]
        change 2 + 1 ≤ 3 + s.queue.length + (if s.readable then 7 else 0) + _
        omega
    · rw [Session.checkStopFlag, if_neg hflag]
      refine ⟨⟨h.fired, h.numReadyFds, h.used, fun _ ↦ ?_, hnow, Or.inr rfl⟩, fun hset ↦
        absurd hset hflag⟩
      change ((s.ae.times.reschedule 0 (now + 1000)).timeEventList.cell 0).whenMs ≤ s.clock + 1000
      rw [TimeTable.reschedule, Buffer.cell_write, if_pos rfl]
      exact Int.add_le_add_right hnow 1000
  | returned =>
    rw [hposition] at hstep
    cases hstep

/-! ### Every run -/

/-- What holds at every moment of a run. -/
structure Regular (s : Session) : Prop where
  accounted : s.Accounted
  ticking : s.Ticking

theorem Regular.next (h : s.Regular) {action : Action} (hnext : Session.next s action = some s') :
    s'.Regular := by
  refine ⟨h.accounted.next hnext, ?_⟩
  obtain ⟨hfired, hready, hused, hdue, htimely⟩ := h.ticking
  cases action with
  | send datagram =>
    cases hnext
    refine ⟨hfired, hready, hused, hdue, ?_⟩
    change Session.Timely _ s.position
    cases hposition : s.position <;> rw [hposition] at htimely <;> exact htimely
  | setStopFlag =>
    cases hnext
    refine ⟨hfired, hready, hused, hdue, ?_⟩
    change Session.Timely _ s.position
    cases hposition : s.position <;> rw [hposition] at htimely <;> exact htimely
  | wait ms =>
    cases hnext
    have hclock : s.clock ≤ s.clock + ms := Int.le_add_of_nonneg_right (Int.natCast_nonneg ms)
    refine ⟨hfired, hready, hused, fun hgoing ↦ (hdue hgoing).trans ?_, ?_⟩
    · exact Int.add_le_add_right hclock 1000
    · change Session.Timely _ s.position
      cases hposition : s.position <;> rw [hposition] at htimely
      case epollWait latest =>
        obtain ⟨latestMs, hlatest, hle, hle'⟩ := htimely
        exact ⟨latestMs, hlatest, hle, hle'.trans (Int.add_le_add_right hclock 1000)⟩
      case timeEvents now i => exact ⟨htimely.1.trans hclock, htimely.2⟩
      case checkStopFlag now i => exact ⟨htimely.1.trans hclock, htimely.2⟩
      all_goals exact htimely
  | server answer => exact (h.ticking.serverStep h.accounted hnext).ticking

/-- No action adds more to the steps that are left than its delay. -/
theorem Regular.stepsLeft (h : s.Regular) (hflag : s.stopFlag = true) {action : Action}
    (hnext : Session.next s action = some s') :
    s'.stepsLeft + action.serverSteps ≤ s.stepsLeft + action.delay := by
  cases action with
  | send datagram =>
    cases hnext
    cases hstopped : s.ae.stopped with
    | true =>
      rw [stepsLeft_of_stopped hstopped, stepsLeft_of_stopped (by exact hstopped)]
      exact Nat.le_add_right _ _
    | false =>
      rw [stepsLeft_of_going hstopped, stepsLeft_of_going (by exact hstopped)]
      change s.position.stepsToStop s.dueMs s.clock + (s.queue ++ [datagram]).length + 7 + 0 ≤
        _ + 8
      rw [List.length_append, List.length_singleton]
      omega
  | setStopFlag =>
    cases hnext
    exact Nat.le_refl _
  | wait ms =>
    cases hnext
    cases hstopped : s.ae.stopped with
    | true =>
      rw [stepsLeft_of_stopped hstopped, stepsLeft_of_stopped (by exact hstopped)]
      exact Nat.le_refl _
    | false =>
      rw [stepsLeft_of_going hstopped, stepsLeft_of_going (by exact hstopped)]
      have hle : s.position.stepsToStop s.dueMs (s.clock + ms) ≤
          s.position.stepsToStop s.dueMs s.clock := by
        cases s.position with
        | readingClock =>
          change (if s.dueMs ≤ s.clock + ms then 5 else 11) ≤ if s.dueMs ≤ s.clock then 5 else 11
          split_ifs <;> omega
        | _ => exact Nat.le_refl _
      exact Nat.add_le_add_right (Nat.add_le_add_right hle _) _
  | server answer => exact (h.ticking.serverStep h.accounted hnext).closer hflag

/-- The server takes a step, unless it has returned, or waits for a datagram or for the time that is
due within a second. -/
theorem Regular.serverStep_wait (h : s.Regular) (hposition : s.position ≠ .returned)
    (answer : Answer) :
    ∃ s', ({ s with clock := s.clock + (1000 : ℕ) } : Session).serverStep answer = some s' := by
  have htimely := h.ticking.timely
  unfold Session.serverStep
  cases hs : s.position with
  | epollWait latest =>
    rw [hs] at htimely
    obtain ⟨ms, rfl, -, hle⟩ := htimely
    simp only
    split_ifs with hinterrupted hreadable hover
    · exact ⟨_, rfl⟩
    · exact ⟨_, rfl⟩
    · exact ⟨_, rfl⟩
    · exact absurd ⟨ms, rfl, hle⟩ hover
  | receiving slot =>
    simp only
    cases s.queue <;> exact ⟨_, rfl⟩
  | returned => exact absurd hs hposition
  | _ => exact ⟨_, rfl⟩

/-- The tables after the start-up calls. -/
theorem ticking_register {fdTableSize : ℤ} {aroundFds : ℤ → ℤ} {aroundTimes : ℤ → TimeEventInfo}
    {kernel : InterestSet} {domainFd now : ℤ} {ae : AsyncEvent}
    (h : register (.initialized fdTableSize 32 aroundFds aroundTimes) kernel domainFd now = some ae)
    (fileHandle : FileHandle) : (started ae fileHandle domainFd now).Ticking := by
  unfold register at h
  rcases FdTable.addFdEvent_cases (AsyncEvent.initialized fdTableSize 32 aroundFds aroundTimes).fds
      kernel domainFd Mask.readable recvProc server null null with
    ⟨kernel', hadd, -⟩ | ⟨-, kernel', -, hadd⟩
  · rw [hadd] at h
    cases h
  · rw [hadd] at h
    cases h
    refine ⟨?_, rfl, rfl, fun _ ↦ le_rfl, trivial⟩
    exact congrArg FdEventInfo.alreadyFired
      (Function.update_self (f := fun _ : ℤ ↦ FdEventInfo.zero) domainFd _)

/-- A server whose start-up calls have succeeded. -/
theorem regular_started {fdTableSize : ℤ} {aroundFds : ℤ → ℤ} {aroundTimes : ℤ → TimeEventInfo}
    {kernel : InterestSet} {domainFd now : ℤ} {ae : AsyncEvent}
    (h : register (.initialized fdTableSize 32 aroundFds aroundTimes) kernel domainFd now = some ae)
    (fileHandle : FileHandle) : (started ae fileHandle domainFd now).Regular := by
  obtain ⟨hgoing, hnum⟩ := register_spec rfl h
  have hpos : 0 < ae.fds.numMonitoredFds := by
    rw [hnum]
    exact Int.one_pos
  exact ⟨Accounted.started hpos hgoing fileHandle domainFd now, ticking_register h fileHandle⟩

theorem stepsLeft_le (s : Session) : s.stepsLeft ≤ 19 + s.queue.length := by
  have hstop : s.position.stepsToStop s.dueMs s.clock ≤ 12 := by
    unfold Position.stepsToStop
    split <;> (try split_ifs) <;> omega
  have hreturn : s.position.stepsToReturn ≤ 2 := by
    unfold Position.stepsToReturn
    split <;> omega
  unfold Session.stepsLeft
  split_ifs <;> omega

/-- The stop flag stays set. -/
theorem stopFlag_next (hflag : s.stopFlag = true) {action : Action}
    (hnext : Session.next s action = some s') : s'.stopFlag = true := by
  cases action with
  | server answer =>
    cases serves_of_serverStep hnext with
    | loops _ hloops => exact hloops.stopFlag.trans hflag
    | receives slot datagram rest result hposition hqueue => exact hflag
    | stops _ now i hposition hset hunmoved hstopped hleaving => exact hunmoved.stopFlag.trans hflag
  | setStopFlag =>
    cases hnext
    rfl
  | _ =>
    cases hnext
    exact hflag

/-- For every log server whose start-up has succeeded, and every interleaving with its clients: from
the moment when the stop flag is set, the server takes at most nineteen steps, one more for each
datagram that is in the socket then, eight more for each one that is sent later, and six more for
each interrupt. As long as `routine` has not returned, the server takes a step within a second. -/
theorem stopsInTime (fdTableSize : ℤ) (aroundFds : ℤ → ℤ) (aroundTimes : ℤ → TimeEventInfo)
    (kernel : InterestSet) (domainFd now : ℤ) (ae : AsyncEvent)
    (hregister : register (.initialized fdTableSize 32 aroundFds aroundTimes) kernel domainFd now =
      some ae)
    (fileHandle : FileHandle) (before after : List Action) (s t : Session)
    (hbefore : System.run Session.next (started ae fileHandle domainFd now) before = some s)
    (hflag : s.stopFlag = true) (hafter : System.run Session.next s after = some t) :
    (after.map Action.serverSteps).sum ≤ 19 + s.queue.length + (after.map Action.delay).sum ∧
      (t.position = .returned ∨ ∀ answer,
        ∃ u, System.run Session.next t [.wait 1000, .server answer] = some u) := by
  have hregular : s.Regular :=
    System.run_invariant (fun _ _ _ h hnext ↦ h.next hnext) (regular_started hregister fileHandle)
      hbefore
  have hpotential := System.run_potential (I := fun s : Session ↦ s.Regular ∧ s.stopFlag = true)
    (μ := fun s ↦ s.stepsLeft) (c := Action.serverSteps) (g := Action.delay)
    (fun _ _ _ h hnext ↦ ⟨h.1.next hnext, stopFlag_next h.2 hnext⟩)
    (fun _ _ _ h hnext ↦ by exact_mod_cast h.1.stepsLeft h.2 hnext) ⟨hregular, hflag⟩ hafter
  have hle := s.stepsLeft_le
  refine ⟨by omega, or_iff_not_imp_left.mpr fun hposition answer ↦ ?_⟩
  have hregular' : t.Regular :=
    System.run_invariant (fun _ _ _ h hnext ↦ h.next hnext) hregular hafter
  obtain ⟨u, hu⟩ := hregular'.serverStep_wait hposition answer
  have hwait : Session.next t (.wait 1000) = some { t with clock := t.clock + (1000 : ℕ) } := rfl
  have hserver : Session.next { t with clock := t.clock + (1000 : ℕ) } (.server answer) = some u :=
    hu
  exact ⟨u, by rw [System.run, hwait]; simp only [System.run, hserver]⟩

/-- A message wakes the server up, and the stop flag is set while it is in the socket. -/
def untilFlag : Session :=
  (System.run next ready (steps 3 ++ [.send message] ++ steps 1 ++ [.setStopFlag])).get
    (by decide +kernel)

theorem stopsInTime_untilFlag :
    untilFlag.queue.length = 1 ∧
      ((.wait 1000 :: steps 7).map Action.serverSteps).sum ≤
        19 + untilFlag.queue.length + ((.wait 1000 :: steps 7).map Action.delay).sum :=
  ⟨by decide +kernel, (stopsInTime 8 (fun _ ↦ 0) (fun _ ↦ ⟨0, 0, null, 0⟩)
    ⟨fun _ ↦ none, fun _ ↦ false⟩ 3 0 registered (Option.some_get _).symm logFile.1 _ _ untilFlag
    ((System.run next untilFlag (.wait 1000 :: steps 7)).get (by decide +kernel))
    (Option.some_get _).symm (by decide +kernel) (Option.some_get _).symm).1⟩

end Session

end Nebula.Logging
