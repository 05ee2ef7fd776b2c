import Nebula.Async.BatchDispatch
import Nebula.Async.TimeDispatch
import Mathlib.Data.List.Infix

/-!
`eventLoop`: the ready list, a batch from `epoll_wait`, and the time events, over and over again.

Which I/O callbacks are called by whom is decided long before: a callback that unregisters another
descriptor can leave entries for it in the batch, and one that unregisters some of the events of a
descriptor can leave them among those still to be handled. `Record.Careful` is what a callback has
to leave behind when it returns: no entry of the batch and no listed descriptor that would be
called back for events it does not monitor. `eventLoop_registered` says that in every run whose
callbacks are careful, each I/O callback is the one of a registered descriptor, called for events
that the descriptor monitors.
-/

set_option autoImplicit false
set_option relaxedAutoImplicit false

namespace Nebula.Async

open Nebula.Library FdTable

/-! ### The loop -/

/-- The slot with the nearest deadline among the first `count`, or a negative number. -/
def TimeTable.nearestSlot (t : TimeTable) : ℕ → ℤ
  | 0 => -1
  | count + 1 =>
      let idx := t.nearestSlot count
      if idx < 0 ∨
          (t.timeEventList.cell count).whenMs < (t.timeEventList.cell idx).whenMs then count
      else idx

/-- `static_cast<int>` of an `int64_t`. -/
def toInt32 (ms : ℤ) : ℤ := (BitVec.ofInt 32 ms).toInt

namespace AsyncEvent

/-- The loop test of `eventLoop`. -/
def loopTest (ae : AsyncEvent) : Bool :=
  !ae.stopped && (decide (ae.fds.numMonitoredFds > 0) || decide (ae.times.usedTimeEvents > 0))

/-- What `nearestTimeEvent` makes of a clock reading. -/
def msLeft (ae : AsyncEvent) (now : ℤ) : ℤ :=
  let idx := ae.times.nearestSlot ae.times.usedTimeEvents.toNat
  let msLeft := (ae.times.timeEventList.cell idx).whenMs - now
  if idx < 0 then -1 else if msLeft < 0 then 0 else msLeft

/-- The timeout that is passed to `epoll_wait`. -/
def waitMs (ae : AsyncEvent) (msLeft : ℤ) : ℤ :=
  if msLeft = 0 then 0 else if ae.fds.numReadyFds > 0 then 1 else msLeft

end AsyncEvent

section Loop

variable {κ : Type*}

/-- `nearestTimeEvent`: the milliseconds that are left, or `-1` without a time event. -/
def World.nearestTimeEvent (env : Env κ) (w : World κ) : ℤ × World κ :=
  if 0 ≤ w.ae.times.nearestSlot w.ae.times.usedTimeEvents.toNat then
    let (now, w) := w.msTimestampNow env
    (w.ae.msLeft now, w)
  else (-1, w)

variable [EpollKernel κ]

def loopBody (env : Env κ) (fuel : ℕ) (w : World κ) : Outcome (World κ) :=
  ((processReadyFds env fuel w).map ReadyLoop.world).andThen fun w ↦
    let (msLeft, w) := w.nearestTimeEvent env
    ((w.processFdEvents env (w.ae.waitMs (toInt32 msLeft))).map Prod.snd).andThen fun w ↦
      (processTimeEvents env fuel w).map TimeLoop.world

/-- `eventLoop`, with at most `rounds` iterations of it, and at most `fuel` of each loop in it. -/
def eventLoop (env : Env κ) (rounds fuel : ℕ) (w : World κ) : Outcome (World κ) :=
  whileLoop (fun w ↦ w.ae.loopTest) (loopBody env fuel) rounds w

end Loop

/-! ### What a callback leaves behind -/

namespace FdTable

/-- The events of a descriptor that are still to be handled are monitored. -/
def PendingMonitored (t : FdTable) (fd : ℤ) : Prop :=
  (t.fdEventList fd).alreadyFired &&& ~~~(t.fdEventList fd).monitored = 0

/-- Every registered descriptor has a callback. -/
def ProcsSet (t : FdTable) : Prop :=
  ∀ fd, (t.fdEventList fd).monitored ≠ 0 → (t.fdEventList fd).proc ≠ null

/-- The entry is not going to be handled as I/O, or for monitored events. -/
def Expects (t : FdTable) (ee : EpollEvent) : Prop :=
  ee.IsException (t.fdEventList ee.fd) ∨
    ee.aeEvents &&& ~~~(t.fdEventList ee.fd).monitored = 0

/-- Every registered descriptor has a callback, and no listed one has events still to be handled
that it does not monitor. -/
structure Calm (t : FdTable) : Prop where
  procsSet : t.ProcsSet
  pending : ∀ fd, t.Listed fd → t.PendingMonitored fd

/-- The result of an I/O callback can be taken into account where it was called from: it does not
leave the descriptor listed with events that it does not monitor, or with none at all. -/
def Settles (t : FdTable) (fd : ℤ) (mask : Mask) : Site → Mask → Prop
  | .batch _, result => t.Listed fd →
      if guess (t.fdEventList fd) result ≠ 0 then t.PendingMonitored fd
      else (t.fdEventList fd).alreadyFired &&& ~~~mask = 0
  | .ready idx, result => guess (t.fdEventList fd) result = 0 → t.listOfReadyFds.cell idx = fd →
      t.numReadyFds ≤ idx →
        0 < t.numReadyFds ∧ (t.Listed fd → t.listOfReadyFds.cell (t.numReadyFds - 1) = fd)
  | .timer _, _ => True

end FdTable

/-- The entries of the batch that are still to be dispatched. -/
def Site.later : Site → List EpollEvent
  | .batch later => later
  | _ => []

/-- What a callback has to leave behind. -/
def Record.Careful : Record → Prop
  | .returned (.proc fd mask _) site result ae =>
      ae.fds.ProcsSet ∧ (∀ fd', fd' ≠ fd → ae.fds.Listed fd' → ae.fds.PendingMonitored fd') ∧
        (∀ ee ∈ site.later, ae.fds.Expects ee) ∧ ae.fds.Settles fd mask site result
  | .returned _ site _ ae => ae.fds.Calm ∧ ∀ ee ∈ site.later, ae.fds.Expects ee
  | _ => True

/-- An I/O callback that is called is the one of a registered descriptor, and is called for events
that the descriptor monitors. -/
def Record.Registered : Record → Prop
  | .called (.proc _ mask info) =>
      (info.monitored ≠ 0 ∧ info.proc ≠ null) ∧ mask ≠ 0 ∧ mask &&& ~~~info.monitored = 0
  | _ => True

/-- All callbacks that have returned so far were careful. -/
def World.Careful {κ : Type*} (w : World κ) : Prop := ∀ r ∈ w.log, r.Careful

/-- All I/O callbacks that have been called so far were those of registered descriptors. -/
def World.Registered {κ : Type*} (w : World κ) : Prop := ∀ r ∈ w.log, r.Registered

/-! ### Masks -/

theorem ne_zero_of_mask {mask monitored : Mask} (hmask : mask ≠ 0)
    (hsub : mask &&& ~~~monitored = 0) : monitored ≠ 0 := by
  rintro rfl
  refine hmask ?_
  rwa [show ~~~(0 : Mask) = BitVec.allOnes 32 from rfl, BitVec.and_allOnes] at hsub

theorem and_not_or_eq_zero {a b c : Mask} (ha : a &&& ~~~c = 0) (hb : b &&& ~~~c = 0) :
    (a ||| b) &&& ~~~c = 0 := by
  rw [BitVec.and_or_distrib_right, ha, hb]
  rfl

theorem guess_and_not_monitored (info : FdEventInfo) (result : Mask) :
    guess info result &&& ~~~info.monitored = 0 := by
  rw [guess, BitVec.and_assoc, BitVec.and_not_self]
  exact BitVec.and_zero

/-! ### The events of a batch entry -/

/-- Whether a mask has one given event. -/
theorem and_twoPow_ne_zero {i : ℕ} (mask : Mask) (hi : i < 32) :
    mask &&& BitVec.twoPow 32 i ≠ 0 ↔ mask.getLsbD i = true := by
  rw [BitVec.and_twoPow]
  split_ifs with hbit
  · refine iff_of_true (fun hzero ↦ ?_) hbit
    have htrue := congrArg (fun x : Mask ↦ x.getLsbD i) hzero
    simp [hi] at htrue
  · exact iff_of_false (fun h ↦ h rfl) hbit

theorem twoPow_and_not_eq_zero {i : ℕ} {mask : Mask} (hbit : mask.getLsbD i = true) :
    BitVec.twoPow 32 i &&& ~~~mask = 0 := by
  rw [BitVec.twoPow_and, if_neg (by simp [hbit])]
  rfl

theorem getLsbD_of_sub {mask mask' : Mask} (hsub : mask &&& ~~~mask' = 0) {i : ℕ}
    (hbit : mask.getLsbD i = true) : mask'.getLsbD i = true := by
  have h := congrArg (fun x : Mask ↦ x.getLsbD i) hsub
  have hi : i < 32 := BitVec.lt_of_getLsbD hbit
  simpa [hbit, hi] using h

/-- What the kernel is asked for, bit by bit. -/
theorem getLsbD_epollEvents (monitored : Mask) :
    (epollEvents monitored).getLsbD 0 = monitored.getLsbD 0 ∧
      (epollEvents monitored).getLsbD 2 = monitored.getLsbD 1 := by
  have hin : monitored &&& Mask.readable ≠ 0 ↔ monitored.getLsbD 0 = true :=
    and_twoPow_ne_zero (i := 0) monitored (by decide)
  have hout : monitored &&& Mask.writable ≠ 0 ↔ monitored.getLsbD 1 = true :=
    and_twoPow_ne_zero (i := 1) monitored (by decide)
  rw [epollEvents_eq, if_congr hin rfl rfl, if_congr hout rfl rfl]
  cases monitored.getLsbD 0 <;> cases monitored.getLsbD 1 <;> decide

theorem aeEvents_and_not_eq_zero {ee : EpollEvent} {monitored : Mask}
    (hin : ee.events.getLsbD 0 = true → monitored.getLsbD 0 = true)
    (hout : ee.events.getLsbD 2 = true → monitored.getLsbD 1 = true) :
    ee.aeEvents &&& ~~~monitored = 0 := by
  have hread : ee.events &&& epollIn ≠ 0 → Mask.readable &&& ~~~monitored = 0 := fun h ↦
    twoPow_and_not_eq_zero (i := 0) (hin ((and_twoPow_ne_zero (i := 0) _ (by decide)).mp h))
  have hwrite : ee.events &&& epollOut ≠ 0 → Mask.writable &&& ~~~monitored = 0 := fun h ↦
    twoPow_and_not_eq_zero (i := 1) (hout ((and_twoPow_ne_zero (i := 2) _ (by decide)).mp h))
  have hnone : Mask.none &&& ~~~monitored = 0 := BitVec.zero_and
  unfold EpollEvent.aeEvents
  simp only
  split_ifs with hO hI hI
  · exact and_not_or_eq_zero (and_not_or_eq_zero hnone (hread hI)) (hwrite hO)
  · exact and_not_or_eq_zero hnone (hwrite hO)
  · exact and_not_or_eq_zero hnone (hread hI)
  · exact hnone

/-! ### The table after a result has been taken into account -/

namespace FdTable

/-- The tables have the same registrations; which events are still to be handled may differ. -/
structure SameRegistrations (t t' : FdTable) : Prop where
  fdTableSize : t'.fdTableSize = t.fdTableSize
  row : ∀ fd, ∃ fired, t'.fdEventList fd = { t.fdEventList fd with alreadyFired := fired }

variable {t t' : FdTable} {fd : ℤ} {aeEvents result : Mask}

theorem SameRegistrations.validFd_iff (h : SameRegistrations t t') :
    t'.ValidFd fd ↔ t.ValidFd fd := by
  rw [ValidFd, ValidFd, h.fdTableSize]

theorem SameRegistrations.procsSet (h : SameRegistrations t t') (hprocs : t.ProcsSet) :
    t'.ProcsSet := by
  intro fd
  obtain ⟨fired, hrow⟩ := h.row fd
  rw [hrow]
  exact hprocs fd

theorem SameRegistrations.expects (h : SameRegistrations t t') {ee : EpollEvent}
    (hexpects : t.Expects ee) : t'.Expects ee := by
  obtain ⟨fired, hrow⟩ := h.row ee.fd
  unfold Expects
  rw [hrow]
  exact hexpects

theorem SameRegistrations.agrees (h : SameRegistrations t t') {watched : ℤ → Option Mask}
    (hagrees : Agrees t watched) : Agrees t' watched := by
  intro fd events hevents
  obtain ⟨hvalid, heq⟩ := hagrees fd events hevents
  obtain ⟨fired, hrow⟩ := h.row fd
  rw [ValidFd, h.fdTableSize, hrow]
  exact ⟨hvalid, heq⟩

theorem sameRegistrations_settleFired :
    SameRegistrations t (t.settleFired fd aeEvents result) where
  fdTableSize := fdTableSize_settleFired
  row fd' := by
    rw [fdEventList_settleFired]
    split_ifs with heq
    · exact ⟨_, by rw [heq]⟩
    · exact ⟨_, rfl⟩

theorem sameRegistrations_settleReady {idx : ℤ} (hbounds : t.listOfReadyFds.InBounds idx) :
    SameRegistrations t (t.settleReady idx fd result) where
  fdTableSize := by
    rw [settleReady_eq hbounds]
    split_ifs <;> rfl
  row fd' := by
    rw [fdEventList_settleReady hbounds]
    split_ifs with heq
    · exact ⟨_, by rw [heq]⟩
    · exact ⟨_, rfl⟩

theorem calm_settleFired (h : t.Sound) (hprocs : t.ProcsSet)
    (hpending : ∀ fd', fd' ≠ fd → t.Listed fd' → t.PendingMonitored fd') {later : List EpollEvent}
    (hsettles : t.Settles fd aeEvents (.batch later) result) :
    (t.settleFired fd aeEvents result).Calm where
  procsSet := sameRegistrations_settleFired.procsSet hprocs
  pending := by
    intro fd' hlisted
    rw [h.listed_settleFired] at hlisted
    unfold PendingMonitored
    rw [fdEventList_settleFired]
    split_ifs at hlisted ⊢ with heq hguess
    · -- what has been pending is monitored, and so is what the callback returned
      change firedAfter _ _ _ &&& ~~~(t.fdEventList fd).monitored = 0
      rw [firedAfter, if_pos hguess]
      refine and_not_or_eq_zero ?_ (guess_and_not_monitored _ _)
      rcases hlisted with hlisted | hnone
      · have hpendingFd := hsettles hlisted
        rwa [if_pos hguess] at hpendingFd
      · rw [hnone]
        exact BitVec.zero_and
    · have hrest := hsettles hlisted.1
      rw [if_neg hguess] at hrest
      exact absurd hrest hlisted.2
    · exact hpending fd' heq hlisted

theorem calm_settleReady {idx : ℤ} (hbounds : t.listOfReadyFds.InBounds idx) (hprocs : t.ProcsSet)
    (hpending : ∀ fd', fd' ≠ fd → t.Listed fd' → t.PendingMonitored fd') :
    (t.settleReady idx fd result).Calm where
  procsSet := (sameRegistrations_settleReady hbounds).procsSet hprocs
  pending := by
    intro fd' hlisted
    unfold PendingMonitored
    rw [fdEventList_settleReady hbounds]
    split_ifs with heq
    · exact guess_and_not_monitored _ _
    · exact hpending fd' heq (listed_of_settleReady hbounds hlisted)

/-- A listed descriptor of a calm table may be called back. -/
theorem Calm.registered (hcalm : t.Calm) (h : t.Sound) (hlisted : t.Listed fd) :
    (Record.called (.proc fd (t.fdEventList fd).alreadyFired (t.fdEventList fd))).Registered := by
  have hfired := h.fired fd hlisted
  have hpending := hcalm.pending fd hlisted
  have hmonitored := ne_zero_of_mask hfired hpending
  exact ⟨⟨hmonitored, hcalm.procsSet fd hmonitored⟩, hfired, hpending⟩

/-- So may the descriptor of an expected entry. -/
theorem ProcsSet.registered (hprocs : t.ProcsSet) {ee : EpollEvent} (hexpects : t.Expects ee)
    (hno : ¬ ee.IsException (t.fdEventList ee.fd)) (hio : ee.aeEvents ≠ Mask.none) :
    (Record.called (.proc ee.fd ee.aeEvents (t.fdEventList ee.fd))).Registered := by
  have hmask := hexpects.resolve_left hno
  have hmonitored := ne_zero_of_mask hio hmask
  exact ⟨⟨hmonitored, hprocs ee.fd hmonitored⟩, hio, hmask⟩

end FdTable

/-! ### Callbacks -/

section Runs

variable {env : Env InterestSet} {w w' : World InterestSet}

/-- The state of the event loop in which callbacks may be called. -/
structure Serviceable (w : World InterestSet) : Prop where
  sound : w.ae.fds.Sound
  calm : w.ae.fds.Calm
  agrees : Agrees w.ae.fds w.kernel.watched

/-- As long as all callbacks have been careful, only those of registered descriptors have been
called, and `Q` holds. -/
def Guarded (Q : World InterestSet → Prop) (w : World InterestSet) : Prop :=
  w.Careful → w.Registered ∧ Q w

theorem World.Careful.of_adds {Q : Record → Prop} (hadds : World.Adds Q w w') (h : w'.Careful) :
    w.Careful := by
  obtain ⟨new, hlog, -⟩ := hadds
  exact fun r hr ↦ h r (hlog ▸ List.mem_append_right new hr)

theorem World.Registered.of_adds (hadds : World.Adds Record.Registered w w') (h : w.Registered) :
    w'.Registered := by
  obtain ⟨new, hlog, hnew⟩ := hadds
  intro r hr
  rw [hlog] at hr
  exact (List.mem_append.mp hr).elim (hnew r) (h r)

theorem agrees_runCalls (calls : List Call) (h : Agrees w.ae.fds w.kernel.watched) :
    Agrees (w.runCalls env calls).ae.fds (w.runCalls env calls).kernel.watched :=
  World.runCalls_induction env (P := fun w ↦ Agrees w.ae.fds w.kernel.watched)
    (fun w c hw ↦ hw.exchange (exchange_call env w c)) calls w h

/-- The log only grows in a callback. -/
theorem adds_true_callback (site : Site) (w : World InterestSet) (invocation : Invocation) :
    World.Adds (fun _ ↦ True) w (w.callback env site invocation).1 :=
  World.adds_callback (fun _ ↦ trivial) (fun _ _ _ _ ↦ trivial) (fun _ _ ↦ trivial) trivial
    (fun _ _ ↦ trivial) w

/-- What a careful callback that may be called leaves behind. -/
theorem callback_careful {site : Site} (invocation : Invocation)
    (hinvocation : (Record.called invocation).Registered) (hregistered : w.Registered)
    (h : Serviceable w) (hcareful : (w.callback env site invocation).1.Careful) :
    (w.callback env site invocation).1.Registered ∧
      (w.callback env site invocation).1.ae.fds.Sound ∧
      Agrees (w.callback env site invocation).1.ae.fds
        (w.callback env site invocation).1.kernel.watched ∧
      (Record.returned invocation site (w.callback env site invocation).2
        (w.callback env site invocation).1.ae).Careful :=
  ⟨hregistered.of_adds (World.adds_callback (fun _ ↦ trivial) (fun _ _ _ _ ↦ trivial)
      (fun _ _ ↦ trivial) hinvocation (fun _ _ ↦ trivial) w),
    h.sound.changes (World.changes_callback env site w invocation),
    agrees_runCalls (w := w.record (.called invocation)) _ h.agrees,
    hcareful _ (List.mem_cons_self ..)⟩

/-! ### The three phases -/

/-- The entries of the batch that are still to be dispatched may be dispatched. -/
def Awaits (later : List EpollEvent) (w : World InterestSet) : Prop :=
  Serviceable w ∧ ∀ ee ∈ later, w.ae.fds.ValidFd ee.fd ∧ w.ae.fds.Expects ee

/-- The valid descriptors stay valid in a callback. -/
theorem validFd_callback {site : Site} {invocation : Invocation} {fd : ℤ} :
    (w.callback env site invocation).1.ae.fds.ValidFd fd ↔ w.ae.fds.ValidFd fd := by
  rw [ValidFd, ValidFd, changes_fdTableSize (World.changes_callback env site w invocation)]

variable (env) in
theorem guarded_dispatchEntry {ee : EpollEvent} {later : List EpollEvent}
    (hw : Guarded (Awaits (ee :: later)) w) :
    Guarded (Awaits later) (w.dispatchEntry env later ee).state := by
  unfold World.dispatchEntry
  simp only
  split_ifs with hexception hio
  · refine World.invoke_state (P := Guarded (Awaits later)) ?_ ?_
    · intro hcareful
      obtain ⟨hregistered, hserviceable, hawaits⟩ :=
        hw (hcareful.of_adds (World.adds_record (Q := fun _ ↦ True) w trivial))
      exact ⟨hregistered.of_adds (World.adds_record w trivial),
        ⟨hserviceable.sound, hserviceable.calm, hserviceable.agrees⟩,
        fun ee' hee' ↦ hawaits ee' (List.mem_cons_of_mem ee hee')⟩
    · intro hcareful
      obtain ⟨hregistered, hserviceable, hawaits⟩ :=
        hw (hcareful.of_adds (adds_true_callback ..))
      obtain ⟨hregistered', hsound, hagrees, hcalm, hexpects⟩ :=
        callback_careful (.procExp ee.fd (w.ae.fds.fdEventList ee.fd)) trivial
          hregistered hserviceable hcareful
      exact ⟨hregistered', ⟨hsound, hcalm, hagrees⟩, fun ee' hee' ↦
        ⟨validFd_callback.mpr (hawaits ee' (List.mem_cons_of_mem ee hee')).1, hexpects ee' hee'⟩⟩
  · refine World.invoke_state (P := Guarded (Awaits later)) ?_ ?_
    · intro hcareful
      obtain ⟨hregistered, hserviceable, hawaits⟩ :=
        hw (hcareful.of_adds (World.adds_record (Q := fun _ ↦ True) w trivial))
      have hcalled := hserviceable.calm.procsSet.registered
        (hawaits ee (List.mem_cons_self ..)).2 hexception hio
      exact ⟨hregistered.of_adds (World.adds_record w hcalled),
        ⟨hserviceable.sound, hserviceable.calm, hserviceable.agrees⟩,
        fun ee' hee' ↦ hawaits ee' (List.mem_cons_of_mem ee hee')⟩
    · intro hcareful
      have hcareful' : (w.callback env (.batch later)
          (.proc ee.fd ee.aeEvents (w.ae.fds.fdEventList ee.fd))).1.Careful := hcareful
      obtain ⟨hregistered, hserviceable, hawaits⟩ :=
        hw (hcareful'.of_adds (adds_true_callback ..))
      have hcalled := hserviceable.calm.procsSet.registered
        (hawaits ee (List.mem_cons_self ..)).2 hexception hio
      obtain ⟨hregistered', hsound, hagrees, hprocs, hpending, hexpects, hsettles⟩ :=
        callback_careful _ hcalled hregistered hserviceable hcareful'
      have hvalid := (hawaits ee (List.mem_cons_self ..)).1
      refine ⟨hregistered', ⟨hsound.settleFired (validFd_callback.mpr hvalid),
          calm_settleFired hsound hprocs hpending hsettles,
          sameRegistrations_settleFired.agrees hagrees⟩, fun ee' hee' ↦ ⟨?_, ?_⟩⟩
      · exact (sameRegistrations_settleFired.validFd_iff).mpr
          (validFd_callback.mpr (hawaits ee' (List.mem_cons_of_mem ee hee')).1)
      · exact sameRegistrations_settleFired.expects (hexpects ee' hee')
  · intro hcareful
    obtain ⟨hregistered, hserviceable, hawaits⟩ := hw hcareful
    exact ⟨hregistered, hserviceable, fun ee' hee' ↦ hawaits ee' (List.mem_cons_of_mem ee hee')⟩

theorem guarded_dispatchBatch : ∀ {batch : List EpollEvent} {w : World InterestSet},
    Guarded (Awaits batch) w → Guarded Serviceable (w.dispatchBatch env batch).state := by
  intro batch
  induction batch with
  | nil => exact fun hw hcareful ↦ ⟨(hw hcareful).1, (hw hcareful).2.1⟩
  | cons ee later ih =>
    intro w hw
    have hentry := guarded_dispatchEntry env hw
    refine Outcome.state_andThen (fun hcareful ↦ ⟨(hentry hcareful).1, (hentry hcareful).2.1⟩)
      fun w' hw' ↦ ih ?_
    rwa [hw'] at hentry

/-- What is relied on of `epoll_wait`: it reports descriptors of the interest set, input and output
only if it is asked for them, and apart from that only hangups and errors. -/
def EpollWaitReports (env : Env InterestSet) : Prop :=
  ∀ w timeoutMs batch, env.epollWait w timeoutMs = some batch →
    (batch.map EpollEvent.fd).Nodup ∧ ∀ ee ∈ batch, ∃ events,
      w.kernel.watched ee.fd = some events ∧
        ee.events &&& ~~~(events ||| epollHup ||| epollErr) = 0

/-- A descriptor that is reported may be dispatched. -/
theorem EpollWaitReports.awaits (henv : EpollWaitReports env) {timeoutMs : ℤ}
    {batch : List EpollEvent} (hbatch : env.epollWait w timeoutMs = some batch)
    (h : Serviceable w) : Awaits batch w := by
  refine ⟨h, fun ee hee ↦ ?_⟩
  obtain ⟨events, hwatched, hsub⟩ := (henv w timeoutMs batch hbatch).2 ee hee
  obtain ⟨hvalid, rfl⟩ := h.agrees ee.fd events hwatched
  obtain ⟨hin, hout⟩ := getLsbD_epollEvents (w.ae.fds.fdEventList ee.fd).monitored
  refine ⟨hvalid, Or.inr (aeEvents_and_not_eq_zero (fun hbit ↦ ?_) fun hbit ↦ ?_)⟩
  · have hbit' := getLsbD_of_sub hsub hbit
    rw [BitVec.getLsbD_or, BitVec.getLsbD_or, hin] at hbit'
    simpa using hbit'
  · have hbit' := getLsbD_of_sub hsub hbit
    rw [BitVec.getLsbD_or, BitVec.getLsbD_or, hout] at hbit'
    simpa using hbit'

theorem Serviceable.record (h : Serviceable w) (r : Record) : Serviceable (w.record r) :=
  ⟨h.sound, h.calm, h.agrees⟩

/-- Exchanges that do not call an I/O callback do not matter. -/
theorem Guarded.record (hw : Guarded Serviceable w) {r : Record} (hr : r.Registered) :
    Guarded Serviceable (w.record r) := by
  intro hcareful
  have hadds : World.Adds Record.Registered w (w.record r) := World.adds_record w hr
  obtain ⟨hregistered, hserviceable⟩ := hw (hcareful.of_adds hadds)
  exact ⟨hregistered.of_adds hadds, hserviceable.record r⟩

theorem guarded_processFdEvents (henv : EpollWaitReports env) (timeoutMs : ℤ)
    (hw : Guarded Serviceable w) :
    Guarded Serviceable (w.processFdEvents env timeoutMs).state.2 := by
  unfold World.processFdEvents
  cases hbatch : env.epollWait w timeoutMs with
  | none => exact hw.record trivial
  | some batch =>
    simp only [Outcome.state_map]
    refine guarded_dispatchBatch fun hcareful ↦ ?_
    obtain ⟨hregistered, hserviceable⟩ :=
      hw (hcareful.of_adds (World.adds_record (Q := fun _ ↦ True) w trivial))
    exact ⟨hregistered.of_adds (World.adds_record w trivial),
      hserviceable.record _, (henv.awaits hbatch hserviceable).2⟩

theorem guarded_readyBody {x : ReadyLoop InterestSet} (hidx : 0 ≤ x.idx)
    (hx : Guarded Serviceable x.world) (hguard : readyGuard x = true) :
    0 ≤ (readyBody env x).state.idx ∧ Guarded Serviceable (readyBody env x).state.world := by
  have hlt : x.idx < x.world.ae.fds.numReadyFds := by simpa [readyGuard] using hguard
  -- the log of the world in which the cursor is read is the log of the world itself
  have hstart : x.world.Careful → x.world.Registered ∧ Serviceable x.reading ∧
      (Record.called x.invocation).Registered ∧ x.reading.ae.fds = x.world.ae.fds := by
    intro hcareful
    obtain ⟨hregistered, hserviceable⟩ := hx hcareful
    have hbounds := hserviceable.sound.keyed.inBounds hidx hlt
    have hreading : x.reading.ae.fds = x.world.ae.fds := touchReady_of_inBounds hbounds
    refine ⟨hregistered, ⟨?_, ?_, ?_⟩, ?_, hreading⟩
    · rw [hreading]; exact hserviceable.sound
    · rw [hreading]; exact hserviceable.calm
    · rw [hreading]; exact hserviceable.agrees
    · exact hserviceable.calm.registered hserviceable.sound ⟨x.idx, hidx, hlt, rfl⟩
  refine World.invoke_state
    (P := fun y : ReadyLoop InterestSet ↦ 0 ≤ y.idx ∧ Guarded Serviceable y.world) ?_ ?_
  · refine ⟨hidx, fun hcareful ↦ ?_⟩
    obtain ⟨hregistered, hserviceable, hcalled, -⟩ :=
      hstart (hcareful.of_adds (World.adds_record (Q := fun _ ↦ True) x.reading trivial))
    exact ⟨World.Registered.of_adds (World.adds_record x.reading hcalled) hregistered,
      hserviceable.record _⟩
  · refine ⟨?_, fun hcareful ↦ ?_⟩
    · change 0 ≤ if _ then x.idx + 1 else x.idx
      split
      · exact Int.le_add_one hidx
      · exact hidx
    · have hcareful' : (x.returned env).1.Careful := hcareful
      obtain ⟨hregistered, hserviceable, hcalled, hreading⟩ :=
        hstart (World.Careful.of_adds (adds_true_callback _ x.reading _) hcareful')
      obtain ⟨hregistered', hsound, hagrees, hprocs, hpending, -, hsettles⟩ :=
        callback_careful (w := x.reading) _ hcalled hregistered hserviceable hcareful'
      have hchanges := World.changes_callback env (.ready x.idx) x.reading x.invocation
      have hbounds : (x.returned env).1.ae.fds.listOfReadyFds.InBounds x.idx := by
        have hbefore := hserviceable.sound.keyed.inBounds hidx (hreading ▸ hlt)
        rw [Buffer.InBounds, hserviceable.sound.size_eq, ← changes_fdTableSize hchanges,
          ← hsound.size_eq] at hbefore
        exact hbefore
      have htrail := hserviceable.sound.trail_changes hchanges x.fd x.idx
        (by rw [hreading]; rfl)
      refine ⟨hregistered', ?_, ?_, ?_⟩
      · exact hsound.settleReady hbounds htrail hsettles
      · exact calm_settleReady hbounds hprocs hpending
      · exact (sameRegistrations_settleReady hbounds).agrees hagrees

theorem guarded_processReadyFds (fuel : ℕ) (hw : Guarded Serviceable w) :
    Guarded Serviceable (processReadyFds env fuel w).state.world :=
  (whileLoop_state
    (I := fun x : ReadyLoop InterestSet ↦ 0 ≤ x.idx ∧ Guarded Serviceable x.world)
    (fun _ hx hguard ↦ guarded_readyBody hx.1 hx.2 hguard) fuel ⟨0, 0, w⟩ ⟨le_rfl, hw⟩).2

theorem guarded_timeBody {x : TimeLoop InterestSet} (hx : Guarded Serviceable x.world) :
    Guarded Serviceable (timeBody env x).state.world := by
  have hreading : Guarded Serviceable x.reading := fun hcareful ↦
    ⟨(hx hcareful).1, (hx hcareful).2.sound, (hx hcareful).2.calm, (hx hcareful).2.agrees⟩
  unfold timeBody
  split_ifs with hdue
  · refine World.invoke_state
      (P := fun y : TimeLoop InterestSet ↦ Guarded Serviceable y.world) ?_ ?_
    · exact hreading.record trivial
    · intro hcareful
      have hcareful' : (x.reading.callback env (.timer x.i) (.timeProc x.event)).1.Careful :=
        hcareful
      obtain ⟨hregistered, hserviceable⟩ := hreading (hcareful'.of_adds (adds_true_callback ..))
      obtain ⟨hregistered', hsound, hagrees, hcalm, -⟩ :=
        callback_careful (.timeProc x.event) trivial hregistered hserviceable
          hcareful'
      exact ⟨hregistered', hsound, hcalm, hagrees⟩
  · exact hreading

theorem guarded_processTimeEvents (fuel : ℕ) (hw : Guarded Serviceable w) :
    Guarded Serviceable (processTimeEvents env fuel w).state.world :=
  whileLoop_state (I := fun x : TimeLoop InterestSet ↦ Guarded Serviceable x.world)
    (fun _ hx _ ↦ guarded_timeBody hx) fuel _ (Guarded.record hw trivial)

theorem guarded_nearestTimeEvent (hw : Guarded Serviceable w) :
    Guarded Serviceable (w.nearestTimeEvent env).2 := by
  unfold World.nearestTimeEvent
  simp only
  split_ifs
  · exact hw.record trivial
  · exact hw

/-! ### Every run -/

theorem guarded_loopBody (henv : EpollWaitReports env) (fuel : ℕ) (hw : Guarded Serviceable w) :
    Guarded Serviceable (loopBody env fuel w).state := by
  refine Outcome.state_map_andThen (guarded_processReadyFds fuel hw) fun hready ↦ ?_
  refine Outcome.state_map_andThen
    (guarded_processFdEvents henv _ (guarded_nearestTimeEvent hready))
    fun hfds ↦ ?_
  rw [Outcome.state_map]
  exact guarded_processTimeEvents fuel hfds

/-- Registering a descriptor with a callback leaves a calm table. -/
theorem calm_addFdEvent {fd : ℤ} {mask : Mask} {proc data procExp dataExp : Pointer}
    (h : w.ae.fds.Calm) (hproc : proc ≠ null) :
    (w.call env (.addFdEvent fd mask proc data procExp dataExp)).2.ae.fds.Calm := by
  rcases addFdEvent_cases w.ae.fds w.kernel fd mask proc data procExp dataExp with
    ⟨kernel', heq, -⟩ | ⟨-, kernel', -, heq⟩
  · simpa only [World.call, heq, World.fds_setFds] using h
  · simp only [World.call, heq]
    refine ⟨fun fd' hmonitored ↦ ?_, fun fd' hlisted ↦ ?_⟩
    · change ((w.ae.fds.setInfo fd _).fdEventList fd').proc ≠ null
      change ((w.ae.fds.setInfo fd _).fdEventList fd').monitored ≠ 0 at hmonitored
      rw [fdEventList_setInfo] at hmonitored ⊢
      split_ifs at hmonitored ⊢ with hfd
      · exact hproc
      · exact h.procsSet fd' hmonitored
    · have hpending := h.pending fd' hlisted
      change ((w.ae.fds.setInfo fd _).fdEventList fd').alreadyFired &&&
        ~~~((w.ae.fds.setInfo fd _).fdEventList fd').monitored = 0
      rw [fdEventList_setInfo]
      split_ifs with hfd
      · subst hfd
        rw [PendingMonitored] at hpending
        change (w.ae.fds.fdEventList fd').alreadyFired &&&
          ~~~((w.ae.fds.fdEventList fd').monitored ||| mask) = 0
        rw [BitVec.not_or, ← BitVec.and_assoc, hpending]
        exact BitVec.zero_and
      · exact hpending

/-- The states between which the event loop runs: a new one, and what calls from outside and
completed runs of `eventLoop` make of it. The calls from outside, too, leave a calm table. -/
inductive Started (env : Env InterestSet) : World InterestSet → Prop where
  | initialized (fdTableSize sizeTimeEvents : ℤ) (aroundFds : ℤ → ℤ)
      (aroundTimes : ℤ → TimeEventInfo) (spurious : ℕ → Bool) (hsize : 0 ≤ fdTableSize) :
      Started env ⟨.initialized fdTableSize sizeTimeEvents aroundFds aroundTimes,
        ⟨fun _ ↦ none, spurious⟩, []⟩
  | call (w : World InterestSet) (c : Call) (hw : Started env w)
      (hcalm : (w.call env c).2.ae.fds.Calm) : Started env (w.call env c).2
  | looped (w w' : World InterestSet) (rounds fuel : ℕ) (hw : Started env w)
      (hdone : eventLoop env rounds fuel w = .done w') : Started env w'

theorem guarded_eventLoop (henv : EpollWaitReports env) (rounds fuel : ℕ)
    (hw : Guarded Serviceable w) : Guarded Serviceable (eventLoop env rounds fuel w).state :=
  whileLoop_state (fun _ hw _ ↦ guarded_loopBody henv fuel hw) rounds w hw

theorem Started.guarded (henv : EpollWaitReports env) (hw : Started env w) :
    Guarded Serviceable w := by
  induction hw with
  | initialized fdTableSize sizeTimeEvents aroundFds aroundTimes spurious hsize =>
    have hnot : ∀ fd, ¬ (AsyncEvent.initialized fdTableSize sizeTimeEvents aroundFds
        aroundTimes).fds.Listed fd := fun fd ⟨i, hi, hlt, _⟩ ↦ absurd hlt (not_lt.mpr hi)
    refine fun _ ↦ ⟨fun r hr ↦ absurd hr List.not_mem_nil, ⟨rfl, ⟨le_rfl, hsize, ?_⟩, ?_, ?_⟩,
      ⟨fun fd hmonitored ↦ absurd rfl hmonitored, fun fd hfd ↦ absurd hfd (hnot fd)⟩,
      fun fd events hevents ↦ by cases hevents⟩
    · exact fun i j hi hlt ↦ absurd hlt (not_lt.mpr hi)
    · exact fun fd hfd ↦ absurd hfd (hnot fd)
    · exact fun fd hfd ↦ absurd hfd (hnot fd)
  | call w c hw hcalm ih =>
    intro hcareful
    have hadds : World.Adds Record.Registered w (w.call env c).2 :=
      World.adds_call (fun _ ↦ trivial) (fun _ _ _ _ ↦ trivial) (fun _ _ ↦ trivial) w c
    obtain ⟨hregistered, hserviceable⟩ := ih (hcareful.of_adds hadds)
    exact ⟨hregistered.of_adds hadds,
      (World.change_call env w c).sound hserviceable.sound, hcalm,
      hserviceable.agrees.exchange (exchange_call env w c)⟩
  | looped w w' rounds fuel hw hdone ih =>
    have hguarded := guarded_eventLoop henv rounds fuel ih
    rwa [hdone] at hguarded

/-- In every run of the event loop, up to any moment of it, if all callbacks that have returned were
careful, then every I/O callback that has been called was the callback of a registered descriptor,
called for a set of events, not empty, that the descriptor monitored at that moment. -/
theorem eventLoop_registered (env : Env InterestSet) (henv : EpollWaitReports env)
    (w : World InterestSet) (hw : Started env w) (rounds fuel : ℕ)
    (hcareful : (eventLoop env rounds fuel w).state.Careful) :
    ∀ fd mask info, Record.called (.proc fd mask info) ∈ (eventLoop env rounds fuel w).state.log →
      info.monitored ≠ 0 ∧ info.proc ≠ null ∧ mask ≠ 0 ∧ mask &&& ~~~info.monitored = 0 := by
  intro fd mask info hmem
  have hregistered := ((guarded_eventLoop henv rounds fuel (hw.guarded henv)) hcareful).1
  obtain ⟨⟨hmonitored, hproc⟩, hmask, hsub⟩ := hregistered _ hmem
  exact ⟨hmonitored, hproc, hmask, hsub⟩

end Runs

/-! ### A descriptor that is removed while an entry for it is waiting -/

/-- Both ends of a connection, registered for input. -/
def twoFdsWorld : World InterestSet :=
  newWorld.runCalls (constantEnv [] 0)
    [.addFdEvent 3 .readable 1 0 0 0, .addFdEvent 4 .readable 2 0 0 0]

/-- Input arrives for descriptors 3 and 4, as long as both are watched for it. -/
def bothReadableEnv (react : World InterestSet → Invocation → Reaction) : Env InterestSet where
  react := react
  epollWait w _ :=
    if w.kernel.watched 3 = some (epollEvents .readable) ∧
        w.kernel.watched 4 = some (epollEvents .readable) then
      some [⟨epollIn, 3⟩, ⟨epollIn, 4⟩]
    else none
  clock _ := 0

theorem epollWaitReports_bothReadableEnv (react : World InterestSet → Invocation → Reaction) :
    EpollWaitReports (bothReadableEnv react) := by
  intro w timeoutMs batch hbatch
  simp only [bothReadableEnv] at hbatch
  split_ifs at hbatch with hwatched
  cases hbatch
  refine ⟨by decide, fun ee hee ↦ ?_⟩
  rcases List.mem_cons.mp hee with rfl | hee
  · exact ⟨_, hwatched.1, by decide⟩
  · rw [List.mem_singleton.mp hee]
    exact ⟨_, hwatched.2, by decide⟩

theorem calm_newWorld : newWorld.ae.fds.Calm :=
  ⟨fun _ hmonitored ↦ absurd rfl hmonitored, fun _ ⟨_, hi, hlt, _⟩ ↦ absurd hlt (not_lt.mpr hi)⟩

theorem started_twoFdsWorld (env : Env InterestSet) : Started env twoFdsWorld := by
  have hnew : Started env newWorld :=
    .initialized 8 4 (fun _ ↦ 0) (fun _ ↦ ⟨0, 0, null, 0⟩) (fun _ ↦ false) (by decide)
  have hfirst : (newWorld.call env (.addFdEvent 3 .readable 1 0 0 0)).2.ae.fds.Calm :=
    calm_addFdEvent calm_newWorld (by decide)
  exact .call _ (.addFdEvent 4 .readable 2 0 0 0)
    (.call newWorld (.addFdEvent 3 .readable 1 0 0 0) hnew hfirst)
    (calm_addFdEvent hfirst (by decide))

/-- What is left behind by a callback that returns `NONE` and has called nothing. -/
theorem careful_returned_twoFdsWorld {fd : ℤ} {mask : Mask} {info : FdEventInfo}
    {later : List EpollEvent} {ae : AsyncEvent} (hae : ae.fds = twoFdsWorld.ae.fds)
    (hlater : ∀ ee ∈ later, twoFdsWorld.ae.fds.Expects ee) :
    (Record.returned (.proc fd mask info) (.batch later) 0 ae).Careful := by
  have hfirst :
      (newWorld.call (constantEnv [] 0) (.addFdEvent 3 .readable 1 0 0 0)).2.ae.fds.Calm :=
    calm_addFdEvent calm_newWorld (by decide)
  have hcalm : twoFdsWorld.ae.fds.Calm := calm_addFdEvent hfirst (by decide)
  have hnot : ∀ fd, ¬ twoFdsWorld.ae.fds.Listed fd := fun _ ⟨_, hi, hlt, _⟩ ↦
    absurd hlt (not_lt.mpr hi)
  simp only [Record.Careful, hae]
  exact ⟨hcalm.procsSet, fun fd' _ hlisted ↦ absurd hlisted (hnot fd'), hlater,
    fun hlisted ↦ absurd hlisted (hnot fd)⟩

/-- Both callbacks are called and return `NONE`: the second one is that of a registered row. -/
theorem registered_twoFdsWorld :
    ∃ info, Record.called (.proc 4 .readable info) ∈
        (eventLoop (bothReadableEnv fun _ _ ↦ ⟨[], 0⟩) 1 1 twoFdsWorld).state.log ∧
      info.monitored ≠ 0 ∧ info.proc ≠ null ∧ Mask.readable ≠ 0 ∧
        Mask.readable &&& ~~~info.monitored = 0 := by
  have hmem : Record.called (.proc 4 .readable (twoFdsWorld.ae.fds.fdEventList 4)) ∈
      (eventLoop (bothReadableEnv fun _ _ ↦ ⟨[], 0⟩) 1 1 twoFdsWorld).state.log :=
    List.mem_of_getElem? (i := 2) rfl
  refine ⟨_, hmem, eventLoop_registered _ (epollWaitReports_bothReadableEnv _) twoFdsWorld
    (started_twoFdsWorld _) 1 1 ?_ 4 .readable _ hmem⟩
  have hsecond : twoFdsWorld.ae.fds.Expects ⟨epollIn, 4⟩ := Or.inr (by decide)
  refine List.forall_mem_cons.mpr ⟨trivial, ?_⟩
  refine List.forall_mem_cons.mpr ⟨careful_returned_twoFdsWorld rfl (by simp), ?_⟩
  refine List.forall_mem_cons.mpr ⟨trivial, ?_⟩
  refine List.forall_mem_cons.mpr ⟨careful_returned_twoFdsWorld rfl (by simpa using hsecond), ?_⟩
  refine List.forall_mem_cons.mpr ⟨trivial, List.forall_mem_cons.mpr ⟨trivial, ?_⟩⟩
  exact fun r hr ↦ absurd hr List.not_mem_nil

/-- The callback of descriptor 3 removes descriptor 4, whose `NULL` callback is called next. -/
theorem not_registered_removedFd :
    let env := bothReadableEnv fun _ invocation ↦
      match invocation with
      | .proc 3 _ _ => ⟨[.removeFd 4 false], 0⟩
      | _ => ⟨[], 0⟩
    EpollWaitReports env ∧ Started env twoFdsWorld ∧ ∃ info,
      Record.called (.proc 4 .readable info) ∈ (eventLoop env 1 1 twoFdsWorld).state.log ∧
        info.monitored = 0 ∧ info.proc = null :=
  ⟨epollWaitReports_bothReadableEnv _, started_twoFdsWorld _, .zero, List.mem_cons_self ..,
    rfl, rfl⟩

end Nebula.Async
