import Nebula.Async.Throughout
import Nebula.Library.Alarms

/-!
The time events of an event loop over its whole life. The log shows when the clock is read, which
calls of `addTimeEvent` and `delTimeEvent` are made and what they return, and when a time callback
is called and returns (`World.sightings`). Every log is that of a trace of the alarm service
(`Tracks`): `addTimeEvent` sets an alarm with the delay, the callback and the data it is given,
under the id it returns; `delTimeEvent` cancels the one with the id it is given; a callback that is
called and returns is an alarm that rings and is settled. So time callbacks are called for the times
they are due, never earlier, and not again after the event has been deleted or its callback has
returned zero (`eventLoop_punctual`).

The service is tracked as long as callbacks of time events leave their own events where they are:
the result of a callback is written to the slot it was called from. The ids of events are 64 bits
wide, and each of them costs a reading of the clock.
-/

set_option autoImplicit false
set_option relaxedAutoImplicit false

namespace Nebula.Async

open Nebula.Library Alarms

/-! ### What is seen of time events -/

/-- The clock has been read, a time event has been added or deleted, or a time callback has been
called or has returned. -/
inductive Sighting where
  | clock (now : ℤ)
  | added (delay : ℕ) (proc data : Pointer) (id : Option (BitVec 64))
  | deleted (id : BitVec 64) (status : Status)
  | called (id : BitVec 64) (entry : TimeEntry)
  | returned (id : BitVec 64) (rc : ℕ)

def Record.sighting? : Record → Option Sighting
  | .clock now => some (.clock now)
  | .added msLater proc data id => some (.added msLater.toNat proc data id)
  | .deleted id status => some (.deleted id status)
  | .called (.timeProc event) => some (.called event.timeEventId event.entry)
  | .returned (.timeProc event) _ rc _ => some (.returned event.timeEventId rc.toNat)
  | _ => none

/-- The time of an entry, with its callback and its data. -/
def TimeEntry.alarm (entry : TimeEntry) : ℤ × Pointer × Pointer :=
  (entry.whenMs, entry.proc, entry.data)

/-- What an action of the alarm service looks like from outside. -/
def sightings : Action (BitVec 64) (Pointer × Pointer) → List Sighting
  | .set id now delay data => [.clock now, .added delay data.1 data.2 (some id)]
  | .refuse delay data => [.added delay data.1 data.2 none]
  | .cancel id found => [.deleted id (if found then .ok else .error)]
  | .look now => [.clock now]
  | .round now => [.clock now]
  | .ring id _ alarm => [.called id ⟨alarm.1, alarm.2.1, alarm.2.2⟩]
  | .settle id again => [.returned id again]

def Record.isClock : Record → Bool
  | .clock _ => true
  | _ => false

/-- A time callback that is called is not `NULL`, and when it returns, its event is still in the
slot that it was called from. -/
def Record.Orderly : Record → Prop
  | .called (.timeProc event) => event.proc ≠ null
  | .returned (.timeProc event) (.timer i) _ ae =>
      i < ae.times.usedTimeEvents ∧
        (ae.times.timeEventList.cell i).timeEventId = event.timeEventId
  | _ => True

/-- The records are orderly, and there are fewer clock readings than ids. -/
structure Orderly (log : List Record) : Prop where
  records : ∀ r ∈ log, r.Orderly
  clocks : log.countP Record.isClock < 2 ^ 64

theorem Orderly.tail {r : Record} {log : List Record} (h : Orderly (r :: log)) : Orderly log where
  records r' hr' := h.records r' (List.mem_cons_of_mem r hr')
  clocks := lt_of_le_of_lt (List.sublist_cons_self ..).countP_le h.clocks

namespace World

variable {κ : Type*}

/-- What has been seen of time events, the first sighting first. -/
def sightings (w : World κ) : List Sighting := w.log.reverse.filterMap Record.sighting?

theorem sightings_record (w : World κ) (r : Record) :
    (w.record r).sightings = w.sightings ++ r.sighting?.toList := by
  rw [sightings, log_record, List.reverse_cons, List.filterMap_append]
  refine congrArg (w.sightings ++ ·) ?_
  cases hr : r.sighting? with
  | none => exact List.filterMap_cons_none hr
  | some sighting => exact List.filterMap_cons_some hr

end World

theorem Record.sighting?_of_not_ofTime {r : Record} (h : ¬ r.OfTime) : r.sighting? = none := by
  cases r with
  | clock now => exact absurd trivial h
  | added => exact absurd trivial h
  | deleted => exact absurd trivial h
  | called invocation =>
    cases invocation with
    | timeProc event => exact absurd trivial h
    | _ => rfl
  | returned invocation site result ae =>
    cases invocation with
    | timeProc event => exact absurd trivial h
    | _ => rfl
  | _ => rfl

/-! ### The service that is tracked -/

section Tracks

variable {κ : Type*}

/-- The world shows what the trace of the service does, and its table holds what is pending. -/
structure Tracks (w : World κ) (trace : List (Action (BitVec 64) (Pointer × Pointer)))
    (s : Alarms (BitVec 64) (Pointer × Pointer)) : Prop where
  run : service.run .empty trace = some s
  seen : trace.flatMap sightings = w.sightings
  wellFormed : w.ae.times.WellFormed
  pending : ∀ id, s.pending id = (w.ae.times.asMap id).map TimeEntry.alarm
  used : ∀ id, s.used id = true ↔ id ≠ 0 ∧ id ≤ w.ae.times.lastTimeEventId
  counted : w.ae.times.lastTimeEventId.toNat ≤ w.log.countP Record.isClock

/-- As long as the log is orderly, the world tracks a service with the given alarm ringing and the
given clock reading. -/
def Serving (ringing : Option (BitVec 64)) (now : ℤ) (w : World κ) : Prop :=
  Orderly w.log → ∃ trace s, Tracks w trace s ∧ s.ringing = ringing ∧ s.now = now

variable {w w' : World κ} {ringing : Option (BitVec 64)} {now : ℤ}
  {trace : List (Action (BitVec 64) (Pointer × Pointer))}
  {s t : Alarms (BitVec 64) (Pointer × Pointer)} {a : Action (BitVec 64) (Pointer × Pointer)}

/-- The service takes an action. -/
theorem Tracks.act (h : Tracks w trace s) (hstep : service s a = some t)
    (hseen : w'.sightings = w.sightings ++ sightings a)
    (hwellFormed : w'.ae.times.WellFormed)
    (hpending : ∀ id, t.pending id = (w'.ae.times.asMap id).map TimeEntry.alarm)
    (hused : ∀ id, t.used id = true ↔ id ≠ 0 ∧ id ≤ w'.ae.times.lastTimeEventId)
    (hcounted : w'.ae.times.lastTimeEventId.toNat ≤ w'.log.countP Record.isClock) :
    Tracks w' (trace ++ [a]) t where
  run := System.run_append_eq_some.mpr ⟨s, h.run, by rw [System.run, hstep]; rfl⟩
  seen := by rw [List.flatMap_append, List.flatMap_singleton, h.seen, hseen]
  wellFormed := hwellFormed
  pending := hpending
  used := hused
  counted := hcounted

/-- The service takes an action that does not touch the table. -/
theorem Tracks.act_record (h : Tracks w trace s) (hstep : service s a = some t) {r : Record}
    (hseen : r.sighting?.toList = sightings a) (hpending : t.pending = s.pending)
    (hused : t.used = s.used) : Tracks (w.record r) (trace ++ [a]) t :=
  h.act hstep (by rw [World.sightings_record, hseen]) h.wellFormed
    (fun id ↦ by rw [hpending]; exact h.pending id) (fun id ↦ by rw [hused]; exact h.used id)
    (h.counted.trans (List.sublist_cons_self ..).countP_le)

theorem Tracks.record (h : Tracks w trace s) {r : Record} (hr : r.sighting? = none) :
    Tracks (w.record r) trace s where
  run := h.run
  seen := by rw [World.sightings_record, hr, h.seen]; exact (List.append_nil _).symm
  wellFormed := h.wellFormed
  pending := h.pending
  used := h.used
  counted := h.counted.trans (List.sublist_cons_self ..).countP_le

/-! ### The steps of a round -/

theorem Serving.record (h : Serving ringing now w) {r : Record} (hr : ¬ r.OfTime) :
    Serving ringing now (w.record r) := by
  intro horderly
  obtain ⟨trace, s, htracks, hs⟩ := h horderly.tail
  exact ⟨trace, s, htracks.record (Record.sighting?_of_not_ofTime hr), hs⟩

/-- What happens to the descriptors is not seen. -/
theorem Serving.congr (h : Serving ringing now w) (hlog : w'.log = w.log)
    (htimes : w'.ae.times = w.ae.times) : Serving ringing now w' := by
  intro horderly
  rw [hlog] at horderly
  obtain ⟨trace, s, htracks, hs⟩ := h horderly
  refine ⟨trace, s, ⟨htracks.run, ?_, ?_, ?_, ?_, ?_⟩, hs⟩
  · rw [World.sightings, hlog]
    exact htracks.seen
  · rw [htimes]
    exact htracks.wellFormed
  · rw [htimes]
    exact htracks.pending
  · rw [htimes]
    exact htracks.used
  · rw [htimes, hlog]
    exact htracks.counted

/-- The clock is looked at. -/
theorem Serving.look (h : Serving ringing now w) (reading : ℤ) :
    Serving ringing now (w.record (.clock reading)) := by
  intro horderly
  obtain ⟨trace, s, htracks, hs⟩ := h horderly.tail
  exact ⟨_, s, htracks.act_record (a := .look reading) rfl rfl rfl rfl, hs⟩

/-- A round begins. -/
theorem Serving.round (h : Serving none now w) (reading : ℤ) :
    Serving none reading (w.record (.clock reading)) := by
  intro horderly
  obtain ⟨trace, s, htracks, hringing, -⟩ := h horderly.tail
  exact ⟨_, _, htracks.act_record (service_round.mpr ⟨hringing, rfl⟩) rfl rfl rfl, hringing, rfl⟩

/-! ### Calls -/

/-- The id that is handed out next, as long as there are ids left. -/
theorem toNat_next {last : BitVec 64} (h : last ≠ BitVec.allOnes 64) :
    (last + 1).toNat = last.toNat + 1 := by
  have hlt := BitVec.lt_def.mp (TimeTable.lt_lastTimeEventId_add_one
    (t := ⟨.calloc 0 ⟨0, 0, null, 0⟩ fun _ ↦ ⟨0, 0, null, 0⟩, 0, 0, last⟩) h)
  change last.toNat < (last + 1).toNat at hlt
  rw [BitVec.toNat_add] at hlt ⊢
  change last.toNat < (last.toNat + 1) % 2 ^ 64 at hlt
  change (last.toNat + 1) % 2 ^ 64 = last.toNat + 1
  omega

theorem used_next {last id : BitVec 64} (h : last ≠ BitVec.allOnes 64) :
    id ≠ 0 ∧ id ≤ last + 1 ↔ id = last + 1 ∨ id ≠ 0 ∧ id ≤ last := by
  have hnext := toNat_next h
  have hzero : id = 0 ↔ id.toNat = 0 := BitVec.toNat_inj.symm
  have heq : id = last + 1 ↔ id.toNat = last.toNat + 1 := by rw [← BitVec.toNat_inj, hnext]
  rw [BitVec.le_def, BitVec.le_def, hnext, heq, Ne, hzero]
  omega

variable {env : Env κ}

/-- `addTimeEvent` sets an alarm, or refuses to. -/
theorem Serving.addTimeEvent (h : Serving ringing now w) (msLater : BitVec 32)
    (proc data : Pointer) : Serving ringing now (w.addTimeEvent env msLater proc data).2 := by
  unfold World.addTimeEvent
  split_ifs with hfull
  · intro horderly
    obtain ⟨trace, s, htracks, hs⟩ := h horderly.tail
    exact ⟨_, s, htracks.act_record (a := .refuse msLater.toNat (proc, data)) rfl rfl rfl rfl, hs⟩
  intro horderly
  have horderly' : Orderly (.clock (env.clock w) :: w.log) := horderly.tail
  obtain ⟨trace, s, htracks, hringing, hnow⟩ := h horderly'.tail
  have hclocks := horderly'.clocks
  rw [List.countP_cons_of_pos rfl] at hclocks
  have hids : w.ae.times.lastTimeEventId ≠ BitVec.allOnes 64 := by
    intro heq
    have := htracks.counted
    rw [heq, BitVec.toNat_allOnes] at this
    omega
  have hmap := htracks.wellFormed.asMap_addTimeEvent hids hfull (env.clock w) msLater proc data
  have hfollows : w.ae.times.Follows (fun _ ↦ False)
      (w.ae.times.addTimeEvent (env.clock w) msLater proc data).2 :=
    htracks.wellFormed.follows_addTimeEvent hids (env.clock w) msLater proc data
  have hlast : (w.ae.times.addTimeEvent (env.clock w) msLater proc data).2.lastTimeEventId =
      w.ae.times.lastTimeEventId + 1 := by
    rw [TimeTable.addTimeEvent, if_neg hfull]
  have hfree : s.used (w.ae.times.lastTimeEventId + 1) = false := by
    rw [Bool.eq_false_iff, Ne, htracks.used]
    rintro ⟨-, hle⟩
    exact absurd (TimeTable.lt_lastTimeEventId_add_one hids) (BitVec.not_lt.mpr hle)
  refine ⟨_, _, htracks.act (a := .set _ (env.clock w) msLater.toNat (proc, data))
    (service_set.mpr ⟨hfree, rfl⟩) ?_ hfollows.wellFormed ?_ ?_ ?_, hringing, hnow⟩
  · refine (World.sightings_record _ _).trans ?_
    change (w.record (.clock (env.clock w))).sightings ++ [.added msLater.toNat proc data
      (some (w.ae.times.addTimeEvent (env.clock w) msLater proc data).2.lastTimeEventId)] = _
    rw [World.sightings_record, hlast, List.append_assoc]
    rfl
  · intro id
    change Function.update s.pending _ _ id =
      ((w.ae.times.addTimeEvent (env.clock w) msLater proc data).2.asMap id).map TimeEntry.alarm
    rw [hmap, Function.update_apply, Function.update_apply]
    split_ifs
    · rfl
    · exact htracks.pending id
  · intro id
    change Function.update s.used _ true id = true ↔ id ≠ 0 ∧
      id ≤ (w.ae.times.addTimeEvent (env.clock w) msLater proc data).2.lastTimeEventId
    rw [hlast, used_next hids, Function.update_apply, ← htracks.used]
    split_ifs with heq
    · exact iff_of_true rfl (Or.inl heq)
    · exact ⟨Or.inr, fun h ↦ h.resolve_left heq⟩
  · change (w.ae.times.addTimeEvent (env.clock w) msLater proc data).2.lastTimeEventId.toNat ≤
      (Record.added msLater proc data _ :: Record.clock (env.clock w) :: w.log).countP
        Record.isClock
    rw [hlast, toNat_next hids, List.countP_cons_of_neg (by simp [Record.isClock]),
      List.countP_cons_of_pos rfl]
    exact Nat.add_le_add_right htracks.counted 1

/-- `delTimeEvent` cancels an alarm. -/
theorem Serving.delTimeEvent (h : Serving ringing now w) (id : BitVec 64) :
    Serving ringing now (w.delTimeEvent id).2 := by
  intro horderly
  have horderly' : Orderly w.log := Orderly.tail horderly
  obtain ⟨trace, s, htracks, hringing, hnow⟩ := h horderly'
  have hfound : (s.pending id).isSome = (w.ae.times.asMap id).isSome := by
    rw [htracks.pending, Option.isSome_map]
  refine ⟨_, { s with pending := Function.update s.pending id none },
    htracks.act (service_cancel.mpr ⟨rfl, rfl⟩) ?_
      (htracks.wellFormed.follows_delTimeEvent id).wellFormed ?_ ?_ ?_, hringing, hnow⟩
  · refine (World.sightings_record _ _).trans ?_
    change w.sightings ++ [.deleted id (w.ae.times.delTimeEvent id).1] = _
    rw [htracks.wellFormed.status_delTimeEvent, ← hfound]
    rfl
  · intro id'
    change Function.update s.pending id none id' =
      ((w.ae.times.delTimeEvent id).2.asMap id').map TimeEntry.alarm
    rw [htracks.wellFormed.asMap_delTimeEvent, Function.update_apply, Function.update_apply]
    split_ifs
    · rfl
    · exact htracks.pending id'
  · exact htracks.used
  · exact htracks.counted.trans (List.sublist_cons_self ..).countP_le

variable [EpollKernel κ]

theorem Serving.call (h : Serving ringing now w) (c : Call) :
    Serving ringing now (w.call env c).2 := by
  cases c with
  | addTimeEvent msLater proc data => exact h.addTimeEvent msLater proc data
  | delTimeEvent id => exact h.delTimeEvent id
  | _ => exact h.congr rfl rfl

theorem Serving.runCalls (h : Serving ringing now w) (calls : List Call) :
    Serving ringing now (w.runCalls env calls) :=
  World.runCalls_induction env (P := Serving ringing now) (fun _ c hw ↦ hw.call c) calls w h

/-! ### A round of `processTimeEvents` -/

omit [EpollKernel κ] in
/-- What is written back to a slot in use is for the event in the slot. -/
theorem asMap_writeBack {t : TimeTable} (h : t.WellFormed) {i : ℤ} (hi : 0 ≤ i)
    (hlt : i < t.usedTimeEvents) (now : ℤ) (rc : Mask) :
    (t.writeBack i now rc).asMap = Function.update t.asMap (t.timeEventList.cell i).timeEventId
      (if rc = 0 then none
      else some { (t.timeEventList.cell i).entry with whenMs := now + rc.toNat }) := by
  by_cases hrc : rc = 0
  · rw [TimeTable.writeBack, if_neg (not_not.mpr hrc), if_pos hrc, h.asMap_dropSlot hi hlt]
  · rw [TimeTable.writeBack, if_pos hrc, if_neg hrc, h.asMap_reschedule hi hlt]

/-- The loop of `processTimeEvents` between its iterations. -/
structure TimeLoop.Tracked (x : TimeLoop κ) : Prop where
  i_nonneg : 0 ≤ x.i
  serving : Serving none x.now x.world

omit [EpollKernel κ] in
/-- The callback of a pending event that is due is called. -/
theorem Serving.ring (h : Serving none now w) {i : ℤ} (hi : 0 ≤ i)
    (hlt : i < w.ae.times.usedTimeEvents)
    (hdue : (w.ae.times.timeEventList.cell i).whenMs ≤ now) :
    Serving (some (w.ae.times.timeEventList.cell i).timeEventId) now
      (w.record (.called (.timeProc (w.ae.times.timeEventList.cell i)))) := by
  intro horderly
  obtain ⟨trace, s, htracks, hringing, hnow⟩ := h horderly.tail
  have hpending := htracks.pending (w.ae.times.timeEventList.cell i).timeEventId
  rw [htracks.wellFormed.asMap_cell hi hlt] at hpending
  exact ⟨_, _, htracks.act_record (service_ring.mpr ⟨⟨hringing, hnow, hpending, hdue⟩, rfl⟩) rfl rfl
    rfl, rfl, hnow⟩

omit [EpollKernel κ] in
/-- The result of a callback is written to the slot of its event. -/
theorem Serving.settle {event : TimeEventInfo} (h : Serving (some event.timeEventId) now w) {i : ℤ}
    (hi : 0 ≤ i) (rc : Mask) :
    Serving none now ((w.record (.returned (.timeProc event) (.timer i) rc w.ae)).setTimes
      (w.ae.times.writeBack i now rc)) := by
  intro horderly
  obtain ⟨hlt, hcell⟩ := horderly.records _ List.mem_cons_self
  have horderly' : Orderly w.log := Orderly.tail horderly
  obtain ⟨trace, s, htracks, hringing, rfl⟩ := h horderly'
  have hpending : s.pending event.timeEventId =
      some (w.ae.times.timeEventList.cell i).entry.alarm := by
    rw [htracks.pending, ← hcell, htracks.wellFormed.asMap_cell hi hlt]
    rfl
  have hseen := World.sightings_record w (.returned (.timeProc event) (.timer i) rc w.ae)
  have hcounted := htracks.counted.trans
    (List.sublist_cons_self (Record.returned (.timeProc event) (.timer i) rc w.ae) _).countP_le
  have hstep : service s (.settle event.timeEventId rc.toNat) = some _ :=
    service_settle.mpr ⟨hringing, rfl⟩
  refine ⟨_, _, htracks.act hstep hseen ?_ ?_ ?_ ?_, rfl, rfl⟩
  · change (w.ae.times.writeBack i s.now rc).WellFormed
    unfold TimeTable.writeBack
    split_ifs
    · exact htracks.wellFormed.reschedule _
    · exact htracks.wellFormed.dropSlot hi hlt
  · intro id
    change s.settled event.timeEventId rc.toNat id =
      ((w.ae.times.writeBack i s.now rc).asMap id).map TimeEntry.alarm
    have hzero : rc.toNat = 0 ↔ rc = 0 := BitVec.toNat_inj (y := (0 : Mask))
    rw [asMap_writeBack htracks.wellFormed hi hlt, hcell, settled, Function.update_apply,
      Function.update_apply, hpending]
    simp only [hzero]
    split_ifs
    · rfl
    · rfl
    · exact htracks.pending id
  · intro id
    change s.used id = true ↔ id ≠ 0 ∧ id ≤ (w.ae.times.writeBack i s.now rc).lastTimeEventId
    unfold TimeTable.writeBack
    split_ifs <;> exact htracks.used id
  · change (w.ae.times.writeBack i s.now rc).lastTimeEventId.toNat ≤ _
    unfold TimeTable.writeBack
    split_ifs <;> exact hcounted

theorem TimeLoop.Tracked.timeBody {x : TimeLoop κ} (h : x.Tracked) (hguard : timeGuard x = true) :
    (timeBody env x).state.Tracked := by
  have hlt : x.i < x.world.ae.times.usedTimeEvents := by simpa [timeGuard] using hguard
  have hreading : Serving none x.now x.reading := by
    intro horderly
    obtain ⟨trace, s, htracks, hs⟩ := h.serving horderly
    have htimes : x.world.ae.times.touchSlot x.i = x.world.ae.times := by
      rw [TimeTable.touchSlot, Buffer.touch_of_inBounds
        (htracks.wellFormed.keyed.inBounds h.i_nonneg hlt)]
    have heq : x.reading = x.world := by rw [TimeLoop.reading, htimes]; rfl
    exact ⟨trace, s, heq ▸ htracks, hs⟩
  refine ⟨i_nonneg_timeBody h.i_nonneg, ?_⟩
  unfold Nebula.Async.timeBody
  split_ifs with hdue
  · have hring : Serving (some x.event.timeEventId) x.now x.called :=
      hreading.ring h.i_nonneg hlt hdue
    by_cases hproc : (Invocation.timeProc x.event).entry = null
    · rw [World.invoke_of_null hproc]
      exact fun horderly ↦ absurd hproc (horderly.records _ List.mem_cons_self)
    · rw [World.invoke_of_ne_null hproc]
      exact (hring.runCalls (env.react x.called (.timeProc x.event)).calls).settle h.i_nonneg _
  · exact hreading

/-- Whatever service the world tracks, a round of `processTimeEvents` keeps it. -/
theorem Serving.processTimeEvents (h : Serving none now w) (fuel : ℕ) :
    ∃ now', Serving none now' (processTimeEvents env fuel w).state.world := by
  have hstart : TimeLoop.Tracked ⟨env.clock w, 0, 0, w.record (.clock (env.clock w))⟩ :=
    ⟨le_rfl, h.round (env.clock w)⟩
  exact ⟨_, (whileLoop_state (fun _ hx hguard ↦ hx.timeBody hguard) fuel _ hstart).serving⟩

/-! ### The whole life of an event loop -/

theorem keeps_serving (env : Env κ) : env.Keeps fun w ↦ ∃ now, Serving none now w where
  record _ _ hr h := h.imp fun _ hw ↦ hw.record hr
  calls _ _ _ h := h.imp fun _ hw ↦ hw.runCalls _
  touchReady _ _ h := h.imp fun _ hw ↦ hw.congr rfl rfl
  settleReady _ _ _ _ h := h.imp fun _ hw ↦ hw.congr rfl rfl
  settleFired _ _ _ _ h := h.imp fun _ hw ↦ hw.congr rfl rfl
  clock _ h := h.imp fun _ hw ↦ hw.look _
  processTimeEvents fuel _ h := h.elim fun _ hw ↦ hw.processTimeEvents fuel

omit [EpollKernel κ] in
/-- A new event loop, which has not read the clock yet. -/
def Unstarted (w : World κ) : Prop :=
  ∃ (fdTableSize sizeTimeEvents : ℤ) (aroundFds : ℤ → ℤ) (aroundTimes : ℤ → TimeEventInfo),
    0 ≤ sizeTimeEvents ∧
      w.ae = .initialized fdTableSize sizeTimeEvents aroundFds aroundTimes ∧ w.log = []

omit [EpollKernel κ] in
theorem Unstarted.serving (h : Unstarted w) : Serving none 0 w := by
  obtain ⟨fdTableSize, sizeTimeEvents, aroundFds, aroundTimes, hsize, hae, hlog⟩ := h
  refine fun _ ↦ ⟨[], .empty, ⟨rfl, ?_, ?_, ?_, ?_, ?_⟩, rfl, rfl⟩
  · rw [World.sightings, hlog]
    rfl
  · rw [hae]
    exact ⟨rfl, ⟨le_rfl, hsize, fun i j hi hi' ↦ absurd hi' (not_lt.mpr hi)⟩,
      fun i hi hi' ↦ absurd hi' (not_lt.mpr hi)⟩
  · intro id
    rw [hae]
    rfl
  · intro id
    rw [hae]
    refine iff_of_false Bool.false_ne_true fun ⟨hne, hle⟩ ↦ hne ?_
    exact BitVec.eq_of_toNat_eq (Nat.le_zero.mp (BitVec.le_def.mp hle))
  · rw [hae]
    exact Nat.zero_le _

/-- In every run of an event loop that was set up anew, whatever its callbacks and the calls from
outside do, as long as time callbacks leave their own events where they are and ids are left: the
clock readings, the calls of `addTimeEvent` and `delTimeEvent` with their arguments and results, and
the calls of time callbacks are those of a trace of the alarm service, and the table holds what is
pending in the service. The trace is punctual. -/
theorem eventLoop_punctual (env : Env κ) (w : World κ)
    (hw : Operated env Unstarted (fun _ ↦ True) w) (rounds fuel : ℕ)
    (horderly : Orderly (eventLoop env rounds fuel w).state.log) :
    ∃ trace s, service.run .empty trace = some s ∧
      trace.flatMap sightings = (eventLoop env rounds fuel w).state.sightings ∧
      (∀ id, s.pending id =
        ((eventLoop env rounds fuel w).state.ae.times.asMap id).map TimeEntry.alarm) ∧
      Punctual trace := by
  have hserving := hw.invariant (P := fun w ↦ ∃ now, Serving none now w)
    (fun _ hw ↦ ⟨0, hw.serving⟩) (fun _ c _ hw ↦ hw.imp fun _ hw ↦ hw.call c) (keeps_serving env)
  obtain ⟨now, hloop⟩ := (keeps_serving env).eventLoop rounds fuel hserving
  obtain ⟨trace, s, htracks, -⟩ := hloop horderly
  exact ⟨trace, s, htracks.run, htracks.seen, htracks.pending, punctual_of_run htracks.run⟩

end Tracks

instance Record.decidableOrderly : ∀ r : Record, Decidable r.Orderly
  | .called (.timeProc event) => inferInstanceAs (Decidable (event.proc ≠ null))
  | .returned (.timeProc event) (.timer i) _ ae =>
      inferInstanceAs (Decidable (i < ae.times.usedTimeEvents ∧
        (ae.times.timeEventList.cell i).timeEventId = event.timeEventId))
  | .called (.proc ..) => isTrue trivial
  | .called (.procExp ..) => isTrue trivial
  | .returned (.proc ..) _ _ _ => isTrue trivial
  | .returned (.procExp ..) _ _ _ => isTrue trivial
  | .returned (.timeProc _) (.batch _) _ _ => isTrue trivial
  | .returned (.timeProc _) (.ready _) _ _ => isTrue trivial
  | .clock _ => isTrue trivial
  | .waited .. => isTrue trivial
  | .added .. => isTrue trivial
  | .deleted .. => isTrue trivial

/-- A clock that advances by four milliseconds with every reading, and two kinds of time callbacks:
the one of proc 1 adds an event and is over, any other one asks to be called again in six
milliseconds. -/
def chainedTimersEnv : Env InterestSet where
  react _ invocation :=
    match invocation with
    | .timeProc event => if event.proc = 1 then ⟨[.addTimeEvent 1 3 9], 0⟩ else ⟨[], 6⟩
    | _ => ⟨[], 0⟩
  epollWait _ _ := none
  clock w := 4 * w.log.countP Record.isClock

/-- Two events are added and the second one is deleted. The callback of the first one adds a third
one, which is called in the next round and asks to be called again. -/
theorem eventLoop_punctual_chainedTimersEnv :
    let w := newWorld.runCalls chainedTimersEnv
      [.addTimeEvent 5 1 7, .addTimeEvent 3 2 8, .delTimeEvent 2]
    ∃ (trace : List (Action (BitVec 64) (Pointer × Pointer))) (s : Alarms _ _),
      service.run .empty trace = some s ∧ Punctual trace ∧
        trace.flatMap sightings = (eventLoop chainedTimersEnv 2 2 w).state.sightings ∧
        (eventLoop chainedTimersEnv 2 2 w).state.sightings =
          [.clock 0, .added 5 1 7 (some 1), .clock 4, .added 3 2 8 (some 2), .deleted 2 .ok,
            .clock 8, .clock 12, .called 1 ⟨5, 1, 7⟩, .clock 16, .added 1 3 9 (some 3),
            .returned 1 0, .clock 20, .clock 24, .called 3 ⟨17, 3, 9⟩, .returned 3 6] ∧
        s.pending 3 = some (30, 3, 9) ∧ s.pending 1 = none ∧ s.pending 2 = none := by
  intro w
  have hnew : Operated chainedTimersEnv Unstarted (fun _ ↦ True) newWorld :=
    .start _ ⟨8, 4, _, _, by decide, rfl, rfl⟩
  have hw : Operated chainedTimersEnv Unstarted (fun _ ↦ True) w :=
    .call _ (.delTimeEvent 2) (.call _ (.addTimeEvent 3 2 8)
      (.call _ (.addTimeEvent 5 1 7) hnew trivial) trivial) trivial
  obtain ⟨trace, s, hrun, hseen, hpending, hpunctual⟩ :=
    eventLoop_punctual chainedTimersEnv w hw 2 2 ⟨by decide, by decide⟩
  refine ⟨trace, s, hrun, hpunctual, hseen, rfl, ?_, ?_, ?_⟩
  all_goals
    rw [hpending]
    decide +kernel

end Nebula.Async
