import Nebula.Async.TimeEvents
import Nebula.Async.ReadyDispatch

/-!
`processTimeEvents`: the callbacks of the events that are due are called one after the other, and
what a callback returns is written back to the slot it was called from: a new deadline, or, for
zero, the last event moved into the slot. The callbacks themselves move the last event into the
slot of an event they delete.

The write-back is right exactly if the callback `ReturnsCleanly`: a deadline must go to the slot of
the callback's own event (or to one that is not in use, or already has the deadline), and the slot
that is dropped must be the one of its own event. A callback that deletes its own event and then
returns violates the condition as soon as another event has been moved into the slot.
`processTimeEvents_refines_iff` says that the table refines the finite map of events through a round
exactly if every callback returns cleanly.
-/

set_option autoImplicit false
set_option relaxedAutoImplicit false

namespace Nebula.Async

open Nebula.Library

/-! ### The loop -/

/-- What `processTimeEvents` makes of the result of the callback it called at slot `i`. -/
def TimeTable.writeBack (t : TimeTable) (i now : ℤ) (rc : Mask) : TimeTable :=
  if rc ≠ 0 then t.reschedule i (now + rc.toNat) else t.dropSlot i

/-- The loop variables of `processTimeEvents`. -/
structure TimeLoop (κ : Type*) where
  now : ℤ
  i : ℤ
  processed : ℤ
  world : World κ

namespace TimeLoop

variable {κ : Type*}

/-- The event at the cursor. -/
def event (x : TimeLoop κ) : TimeEventInfo := x.world.ae.times.timeEventList.cell x.i

/-- The world in which the slot at the cursor has been read. -/
def reading (x : TimeLoop κ) : World κ :=
  x.world.setTimes (x.world.ae.times.touchSlot x.i)

/-- The world the callback at the cursor is called in. -/
def called (x : TimeLoop κ) : World κ := x.reading.record (.called (.timeProc x.event))

/-- The calls that the callback at the cursor makes. -/
def calls (env : Env κ) (x : TimeLoop κ) : List Call :=
  (env.react x.called (.timeProc x.event)).calls

/-- The event at the cursor is due, and its callback can be called. -/
def Fires (x : TimeLoop κ) : Prop := x.event.whenMs ≤ x.now ∧ x.event.proc ≠ null

/-- The world the callback at the cursor returns into, and its result. -/
def returned [EpollKernel κ] (env : Env κ) (x : TimeLoop κ) : World κ × Mask :=
  x.reading.callback env (.timer x.i) (.timeProc x.event)

/-- The loop after the callback at the cursor has been called. -/
def resumed [EpollKernel κ] (env : Env κ) (x : TimeLoop κ) : TimeLoop κ :=
  { x with
    processed := x.processed + 1
    i := if (x.returned env).2 ≠ 0 then x.i + 1 else x.i
    world := (x.returned env).1.setTimes
      ((x.returned env).1.ae.times.writeBack x.i x.now (x.returned env).2) }

end TimeLoop

section Loop

variable {κ : Type*} [EpollKernel κ]

def timeBody (env : Env κ) (x : TimeLoop κ) : Outcome (TimeLoop κ) :=
  if x.event.whenMs ≤ x.now then
    x.reading.invoke env (.timer x.i) (.timeProc x.event)
      (fun w ↦ { x with processed := x.processed + 1, world := w })
      fun w rc ↦
        { x with
          processed := x.processed + 1
          i := if rc ≠ 0 then x.i + 1 else x.i
          world := w.setTimes (w.ae.times.writeBack x.i x.now rc) }
  else .done { x with i := x.i + 1, world := x.reading }

def timeGuard (x : TimeLoop κ) : Bool := decide (x.i < x.world.ae.times.usedTimeEvents)

/-- `processTimeEvents`, for at most `fuel` iterations; it returns `processed`. -/
def processTimeEvents (env : Env κ) (fuel : ℕ) (w : World κ) : Outcome (TimeLoop κ) :=
  let (now, w) := w.msTimestampNow env
  whileLoop timeGuard (timeBody env) fuel ⟨now, 0, 0, w⟩

end Loop

/-! ### The write-back -/

/-- What the result of the callback of an event may do to the map. -/
def MayWriteBack (now : ℤ) (own : BitVec 64) (rc : Mask) (m m' : TimeMap) : Prop :=
  ∀ id, m' id = m id ∨ id = own ∧
    m' id = if rc ≠ 0 then (m id).map fun entry ↦ { entry with whenMs := now + rc.toNat } else none

namespace TimeTable

/-- The result of a callback called at slot `i` for an event can be written back there. -/
def ReturnsCleanly (t : TimeTable) (i now : ℤ) (own : BitVec 64) (rc : Mask) : Prop :=
  if rc ≠ 0 then t.usedTimeEvents ≤ i ∨ (t.timeEventList.cell i).timeEventId = own ∨
    (t.timeEventList.cell i).whenMs = now + rc.toNat
  else i < t.usedTimeEvents ∧ (t.timeEventList.cell i).timeEventId = own ∨
    (0 < t.usedTimeEvents ∧ t.usedTimeEvents ≤ i) ∧
      (t.timeEventList.cell (t.usedTimeEvents - 1)).timeEventId = own

/-- What a write-back should leave: a well-formed table, reached without an access outside the
array, in which at most the one event has changed, as its callback asked for. -/
def WritesBack (t : TimeTable) (i now : ℤ) (own : BitVec 64) (rc : Mask) : Prop :=
  (t.writeBack i now rc).WellFormed ∧
    (t.writeBack i now rc).timeEventList.strayed = t.timeEventList.strayed ∧
    MayWriteBack now own rc t.asMap (t.writeBack i now rc).asMap

variable {t : TimeTable} {i now : ℤ} {own : BitVec 64} {rc : Mask}

/-- Erasing an event from the map is allowed exactly for the event itself, when its callback has
returned zero. -/
theorem mayWriteBack_erase_iff (m : TimeMap) {id : BitVec 64} (hid : m id ≠ none) :
    MayWriteBack now own 0 m (Function.update m id none) ↔ id = own := by
  constructor
  · intro hmay
    rcases hmay id with hkept | ⟨heq, -⟩
    · rw [Function.update_self] at hkept
      exact absurd hkept.symm hid
    · exact heq
  · rintro rfl id'
    rw [if_neg (not_not.mpr rfl), Function.update_apply]
    by_cases heq : id' = id
    · exact Or.inr ⟨heq, if_pos heq⟩
    · exact Or.inl (if_neg heq)

/-- A new deadline. -/
theorem WellFormed.writesBack_reschedule_iff (h : t.WellFormed)
    (hbounds : t.timeEventList.InBounds i)
    (hrc : rc ≠ 0) : t.WritesBack i now own rc ↔ t.ReturnsCleanly i now own rc := by
  have hstrayed : (t.reschedule i (now + rc.toNat)).timeEventList.strayed =
      t.timeEventList.strayed := Buffer.strayed_write_of_inBounds hbounds _
  unfold WritesBack ReturnsCleanly writeBack
  simp only [if_pos hrc, h.reschedule, hstrayed, true_and]
  rcases lt_or_ge i t.usedTimeEvents with hlt | hle
  · have hcell := h.asMap_cell hbounds.1 hlt
    rw [h.asMap_reschedule hbounds.1 hlt]
    constructor
    · intro hmay
      rcases hmay (t.timeEventList.cell i).timeEventId with hkept | ⟨hown, -⟩
      · rw [Function.update_self, hcell] at hkept
        exact Or.inr (Or.inr (congrArg TimeEntry.whenMs (Option.some.inj hkept)).symm)
      · exact Or.inr (Or.inl hown)
    · intro hclean id
      rw [Function.update_apply]
      split_ifs with hid
      · subst hid
        rcases hclean with hle | hown | hwhen
        · omega
        · exact Or.inr ⟨hown, by rw [hcell]; rfl⟩
        · exact Or.inl (by rw [hcell, ← hwhen]; rfl)
      · exact Or.inl rfl
  · rw [h.asMap_reschedule_behind hle]
    exact iff_of_true (fun _ ↦ Or.inl rfl) (Or.inl hle)

/-- A dropped slot. -/
theorem WellFormed.writesBack_dropSlot_iff (h : t.WellFormed)
    (hbounds : t.timeEventList.InBounds i) :
    t.WritesBack i now own 0 ↔ t.ReturnsCleanly i now own 0 := by
  unfold WritesBack ReturnsCleanly writeBack
  simp only [ne_eq, not_true_eq_false, if_false]
  rcases lt_or_ge i t.usedTimeEvents with hlt | hle
  · have hne : t.asMap (t.timeEventList.cell i).timeEventId ≠ none := by
      rw [h.asMap_cell hbounds.1 hlt]
      exact Option.some_ne_none _
    have hpos : 0 < t.usedTimeEvents := lt_of_le_of_lt hbounds.1 hlt
    rw [h.asMap_dropSlot hbounds.1 hlt, mayWriteBack_erase_iff _ hne]
    simp only [h.dropSlot hbounds.1 hlt, h.strayed_dropSlot hbounds hpos, hlt, not_le.mpr hlt,
      true_and, and_false, false_and, or_false]
  · rcases h.keyed.nonneg.lt_or_eq with hpos | hzero
    · have hne : t.asMap (t.timeEventList.cell (t.usedTimeEvents - 1)).timeEventId ≠ none := by
        rw [h.asMap_cell (by omega) (by omega)]
        exact Option.some_ne_none _
      rw [h.asMap_dropSlot_behind hpos hle, mayWriteBack_erase_iff _ hne]
      simp only [h.dropSlot_behind hpos hle, h.strayed_dropSlot hbounds hpos, not_lt.mpr hle, hpos,
        hle, true_and, false_and, false_or]
    · -- there is no slot to drop
      refine iff_of_false (fun hwrites ↦ ?_) (by omega)
      have hnonneg := hwrites.1.keyed.nonneg
      change 0 ≤ t.usedTimeEvents - 1 at hnonneg
      omega

/-- A result is written back as it should be exactly if it is clean. -/
theorem WellFormed.writesBack_iff (h : t.WellFormed) (hbounds : t.timeEventList.InBounds i) :
    t.WritesBack i now own rc ↔ t.ReturnsCleanly i now own rc := by
  by_cases hrc : rc = 0
  · subst hrc
    exact h.writesBack_dropSlot_iff hbounds
  · exact h.writesBack_reschedule_iff hbounds hrc

end TimeTable

/-! ### Every round of the loop -/

section Rounds

variable {κ : Type*} [EpollKernel κ] {env : Env κ} {x : TimeLoop κ}

namespace TimeLoop

/-- The id counter does not wrap around in the callback at the cursor. -/
def IdsLeft (env : Env κ) (x : TimeLoop κ) : Prop :=
  x.Fires → x.called.IdsLeft env (x.calls env)

/-- The callback at the cursor returns a result that can be written back. -/
def ReturnsCleanly (env : Env κ) (x : TimeLoop κ) : Prop :=
  x.Fires → (x.returned env).1.ae.times.ReturnsCleanly x.i x.now x.event.timeEventId
    (x.returned env).2

/-- What one iteration should do to the map: nothing if no callback is called; and else the
callback's calls delete the events they name, and the write-back concerns the callback's own event
only. The table stays well-formed, and no slot outside the array is accessed. -/
structure Refines (env : Env κ) (x : TimeLoop κ) : Prop where
  wellFormed : (timeBody env x).state.world.ae.times.WellFormed
  strayed : (timeBody env x).state.world.ae.times.timeEventList.strayed = false
  idle : ¬ x.Fires → (timeBody env x).state.world.ae.times.asMap = x.world.ae.times.asMap
  calls : x.Fires → x.world.ae.times.Follows (x.called.Deletes env (x.calls env))
    (x.returned env).1.ae.times
  writeBack : x.Fires → MayWriteBack x.now x.event.timeEventId (x.returned env).2
    (x.returned env).1.ae.times.asMap (timeBody env x).state.world.ae.times.asMap

/-- The loop between two iterations. -/
structure Intact (x : TimeLoop κ) : Prop where
  i_nonneg : 0 ≤ x.i
  wellFormed : x.world.ae.times.WellFormed
  strayed : x.world.ae.times.timeEventList.strayed = false

omit [EpollKernel κ] in
theorem Intact.inBounds (h : x.Intact) (hguard : timeGuard x = true) :
    x.world.ae.times.timeEventList.InBounds x.i :=
  h.wellFormed.keyed.inBounds h.i_nonneg (by simpa [timeGuard] using hguard)

omit [EpollKernel κ] in
/-- Reading the slot at the cursor changes nothing. -/
theorem Intact.times_reading (h : x.Intact) (hguard : timeGuard x = true) :
    x.reading.ae.times = x.world.ae.times := by
  rw [reading, World.times_setTimes, TimeTable.touchSlot,
    Buffer.touch_of_inBounds (h.inBounds hguard)]

/-- What the callback at the cursor does to the table. -/
theorem Intact.follows (h : x.Intact) (hguard : timeGuard x = true) (hfires : x.Fires)
    (hids : x.IdsLeft env) :
    x.world.ae.times.Follows (x.called.Deletes env (x.calls env))
      (x.returned env).1.ae.times := by
  have htimes : x.called.ae.times = x.world.ae.times := h.times_reading hguard
  have hfollows := World.follows_runCalls env (w := x.called)
    (by rw [htimes]; exact h.wellFormed) (hids hfires)
  rwa [htimes] at hfollows

omit [EpollKernel κ] in
/-- The slots stay where they are. -/
theorem Intact.inBounds_of_follows (h : x.Intact) (hguard : timeGuard x = true)
    {deleted : BitVec 64 → Prop} {t : TimeTable} (hfollows : x.world.ae.times.Follows deleted t) :
    t.timeEventList.InBounds x.i := by
  have hbounds := h.inBounds hguard
  rw [Buffer.InBounds, h.wellFormed.size_eq, ← hfollows.size_eq, ← hfollows.wellFormed.size_eq]
    at hbounds
  exact hbounds

end TimeLoop

open TimeLoop

theorem timeBody_ended (env : Env κ) (x : TimeLoop κ) : (timeBody env x).Ended := by
  unfold timeBody
  split
  · exact World.invoke_ended ..
  · trivial

theorem timeBody_of_fires (hfires : x.Fires) : timeBody env x = .done (x.resumed env) := by
  have hentry : (Invocation.timeProc x.event).entry ≠ null := hfires.2
  rw [timeBody, if_pos hfires.1, World.invoke_of_ne_null hentry]
  rfl

variable (env) in
/-- An iteration that calls a callback leaves what is written back. -/
theorem times_timeBody (hfires : x.Fires) :
    (timeBody env x).state.world.ae.times =
      (x.returned env).1.ae.times.writeBack x.i x.now (x.returned env).2 := by
  rw [timeBody_of_fires hfires]
  rfl

/-- An iteration that calls none leaves the table alone. -/
theorem times_timeBody_of_not_fires (hfires : ¬ x.Fires) :
    (timeBody env x).state.world.ae.times = x.reading.ae.times := by
  unfold timeBody
  split_ifs with hdue
  · have hnull : (Invocation.timeProc x.event).entry = null :=
      not_not.mp fun hproc ↦ hfires ⟨hdue, hproc⟩
    rw [World.invoke_of_null hnull]
    rfl
  · rfl

theorem i_nonneg_timeBody (hi : 0 ≤ x.i) : 0 ≤ (timeBody env x).state.i := by
  unfold timeBody
  split
  · refine World.invoke_state (P := fun y : TimeLoop κ ↦ 0 ≤ y.i) hi ?_
    change 0 ≤ if _ then x.i + 1 else x.i
    split
    · exact Int.le_add_one hi
    · exact hi
  · exact Int.le_add_one hi

/-- An iteration does what it should exactly if its callback returns cleanly. -/
theorem refines_iff (h : x.Intact) (hguard : timeGuard x = true) (hids : x.IdsLeft env) :
    x.Refines env ↔ x.ReturnsCleanly env := by
  by_cases hfires : x.Fires
  · have hfollows := h.follows hguard hfires hids
    have hbounds := h.inBounds_of_follows hguard hfollows
    have hiff : (x.returned env).1.ae.times.WritesBack x.i x.now x.event.timeEventId
        (x.returned env).2 ↔ _ := hfollows.wellFormed.writesBack_iff hbounds
    constructor
    · intro hrefines hfires'
      refine hiff.mp ⟨?_, ?_, ?_⟩
      · exact times_timeBody env hfires ▸ hrefines.wellFormed
      · rw [← times_timeBody env hfires, hrefines.strayed, hfollows.strayed, h.strayed]
      · exact times_timeBody env hfires ▸ hrefines.writeBack hfires'
    · intro hclean
      obtain ⟨hwellFormed, hstrayed, hmay⟩ := hiff.mpr (hclean hfires)
      rw [← times_timeBody env hfires] at hwellFormed hstrayed hmay
      exact ⟨hwellFormed, by rw [hstrayed, hfollows.strayed, h.strayed],
        fun hnot ↦ absurd hfires hnot, fun _ ↦ hfollows, fun _ ↦ hmay⟩
  · have htimes : (timeBody env x).state.world.ae.times = x.world.ae.times :=
      (times_timeBody_of_not_fires hfires).trans (h.times_reading hguard)
    refine iff_of_true ⟨?_, ?_, ?_, ?_, ?_⟩ fun hfires' ↦ absurd hfires' hfires
    · rw [htimes]; exact h.wellFormed
    · rw [htimes]; exact h.strayed
    · exact fun _ ↦ congrArg TimeTable.asMap htimes
    · exact fun hfires' ↦ absurd hfires' hfires
    · exact fun hfires' ↦ absurd hfires' hfires

theorem intact_timeBody (h : x.Intact) (hguard : timeGuard x = true) (hids : x.IdsLeft env)
    (hclean : x.ReturnsCleanly env) : (timeBody env x).state.Intact := by
  have hrefines := (refines_iff h hguard hids).mpr hclean
  exact ⟨i_nonneg_timeBody h.i_nonneg, hrefines.wellFormed, hrefines.strayed⟩

/-! ### The table between the rounds -/

/-- Worlds in which time events may be processed: a new event loop, after any further calls that
leave ids for events to come, whatever happens elsewhere, and after rounds of `processTimeEvents`
whose callbacks returned cleanly. -/
inductive TimesReached (env : Env κ) : World κ → Prop where
  | initialized (w : World κ) (fdTableSize sizeTimeEvents : ℤ) (aroundFds : ℤ → ℤ)
      (aroundTimes : ℤ → TimeEventInfo) (hsize : 0 ≤ sizeTimeEvents)
      (hw : w.ae = .initialized fdTableSize sizeTimeEvents aroundFds aroundTimes) :
      TimesReached env w
  | call (w : World κ) (c : Call) (hw : TimesReached env w) (hids : w.IdsLeft env [c]) :
      TimesReached env (w.call env c).2
  | elsewhere (w w' : World κ) (hw : TimesReached env w) (htimes : w'.ae.times = w.ae.times) :
      TimesReached env w'
  | round (w : World κ) (fuel : ℕ) (x : TimeLoop κ) (hw : TimesReached env w)
      (hround : ∀ n y, processTimeEvents env n w = .running y →
        y.IdsLeft env ∧ y.ReturnsCleanly env)
      (hdone : processTimeEvents env fuel w = .done x) : TimesReached env x.world

/-- Between the iterations of a round all of whose callbacks return cleanly. -/
theorem intact_processTimeEvents {w : World κ} (h : w.ae.times.WellFormed)
    (hstrayed : w.ae.times.timeEventList.strayed = false) (hround : ∀ n y,
      processTimeEvents env n w = .running y → y.IdsLeft env ∧ y.ReturnsCleanly env) (fuel : ℕ) :
    (processTimeEvents env fuel w).state.Intact :=
  whileLoop_state_of_running (C := fun y ↦ y.IdsLeft env ∧ y.ReturnsCleanly env)
    (timeBody_ended env) (fun _ hy hguard hC ↦ intact_timeBody hy hguard hC.1 hC.2)
    ⟨le_rfl, h, hstrayed⟩ fuel fun n _ y hy ↦ hround n y hy

theorem TimesReached.wellFormed {w : World κ} (h : TimesReached env w) :
    w.ae.times.WellFormed ∧ w.ae.times.timeEventList.strayed = false := by
  induction h with
  | initialized w fdTableSize sizeTimeEvents aroundFds aroundTimes hsize hw =>
    rw [hw]
    exact ⟨⟨rfl, ⟨le_rfl, hsize, fun i j hi hi' ↦ absurd hi' (not_lt.mpr hi)⟩,
      fun i hi hi' ↦ absurd hi' (not_lt.mpr hi)⟩, rfl⟩
  | call w c hw hids ih =>
    have hfollows := World.follows_call env ih.1 hids.1
    exact ⟨hfollows.wellFormed, hfollows.strayed.trans ih.2⟩
  | elsewhere w w' hw htimes ih => rwa [htimes]
  | round w fuel x hw hround hdone ih =>
    have hintact := intact_processTimeEvents ih.1 ih.2 hround fuel
    rw [hdone] at hintact
    exact ⟨hintact.wellFormed, hintact.strayed⟩

/-- The table refines the map of events through a round: it is well-formed before and after every
iteration, no slot outside the array is ever accessed, and every iteration does to the map what it
should. -/
def TableRefinesMap (env : Env κ) (w : World κ) : Prop :=
  ∀ fuel, (processTimeEvents env fuel w).state.world.ae.times.WellFormed ∧
    (processTimeEvents env fuel w).state.world.ae.times.timeEventList.strayed = false ∧
    ∀ x, processTimeEvents env fuel w = .running x → x.Refines env

/-- From every table that can be reached, and as long as the id counter does not wrap around, the
table refines the map of events through the next round exactly if every callback of the round
returns cleanly. -/
theorem processTimeEvents_refines_iff (env : Env κ) (w : World κ) (hw : TimesReached env w)
    (hids : ∀ fuel x, processTimeEvents env fuel w = .running x → x.IdsLeft env) :
    TableRefinesMap env w ↔
      ∀ fuel x, processTimeEvents env fuel w = .running x → x.ReturnsCleanly env := by
  obtain ⟨hwellFormed, hstrayed⟩ := hw.wellFormed
  have hstart : (⟨(w.msTimestampNow env).1, 0, 0, (w.msTimestampNow env).2⟩ : TimeLoop κ).Intact :=
    ⟨le_rfl, hwellFormed, hstrayed⟩
  have hiff := forall_running_iff (timeBody_ended env)
    (P := fun x ↦ x.IdsLeft env ∧ x.Refines env)
    (C := fun x ↦ x.IdsLeft env ∧ x.ReturnsCleanly env)
    (fun x h hguard hC ↦ intact_timeBody h hguard hC.1 hC.2)
    (fun x h hguard ↦ and_congr_right fun hx ↦ refines_iff h hguard hx) hstart
  constructor
  · intro hrefines fuel x hrunning
    exact (hiff.mp (fun n y hy ↦ ⟨hids n y hy, (hrefines n).2.2 y hy⟩) fuel x hrunning).2
  · intro hclean fuel
    have hround := fun n y hy ↦ And.intro (hids n y hy) (hclean n y hy)
    have hintact := intact_processTimeEvents hwellFormed hstrayed hround fuel
    exact ⟨hintact.wellFormed, hintact.strayed,
      fun x hrunning ↦ (hiff.mpr hround fuel x hrunning).2⟩

end Rounds

/-! ### An event that is deleted by its own callback -/

/-- A new event loop. -/
def newWorld : World InterestSet :=
  ⟨.initialized 8 4 (fun _ ↦ 0) fun _ ↦ ⟨0, 0, null, 0⟩, ⟨fun _ ↦ none, fun _ ↦ false⟩, []⟩

/-- An event loop with two time events that are due. -/
def twoTimersWorld : World InterestSet :=
  newWorld.runCalls (constantEnv [] 0) [.addTimeEvent 0 1 0, .addTimeEvent 0 2 0]

theorem timesReached_twoTimersWorld (calls : List Call) (result : Mask) :
    TimesReached (constantEnv calls result) twoTimersWorld := by
  have hnew : TimesReached (constantEnv calls result) newWorld :=
    .initialized _ 8 4 (fun _ ↦ 0) (fun _ ↦ ⟨0, 0, null, 0⟩) (by decide) rfl
  have hfirst := hnew.call newWorld (.addTimeEvent 0 1 0) ⟨fun _ ↦ by decide, trivial⟩
  refine hfirst.call _ (.addTimeEvent 0 2 0) ⟨fun _ ↦ ?_, trivial⟩
  change (1 : BitVec 64) ≠ BitVec.allOnes 64
  decide

/-- The callback of the first event deletes the second one, adds a third one and asks to be called
again in five milliseconds. The third event is not due in the round. -/
theorem tableRefinesMap_twoTimersWorld :
    TableRefinesMap (constantEnv [.delTimeEvent 2, .addTimeEvent 5 3 9] 5) twoTimersWorld := by
  have hdone : ∀ fuel ≥ 2, ∀ x, processTimeEvents
      (constantEnv [.delTimeEvent 2, .addTimeEvent 5 3 9] 5) fuel twoTimersWorld ≠ .running x := by
    intro fuel hfuel x hrunning
    have hstays := (whileLoop_of_le (timeBody_ended _) hfuel (by trivial)).symm.trans hrunning
    cases hstays
  refine (processTimeEvents_refines_iff _ twoTimersWorld (timesReached_twoTimersWorld _ _)
    fun fuel x hrunning ↦ ?_).mpr fun fuel x hrunning ↦ ?_
  all_goals
    obtain rfl | rfl | hfuel : fuel = 0 ∨ fuel = 1 ∨ 2 ≤ fuel := by omega
  · cases hrunning
    exact fun _ ↦ ⟨fun hadd ↦ absurd hadd (by simp), fun _ ↦ by decide, trivial⟩
  · cases hrunning
    exact fun hfires ↦ absurd hfires.1 (by decide)
  · exact absurd hrunning (hdone fuel hfuel x)
  · cases hrunning
    exact fun _ ↦ Or.inr (Or.inl rfl)
  · cases hrunning
    exact fun hfires ↦ absurd hfires.1 (by decide)
  · exact absurd hrunning (hdone fuel hfuel x)

/-- The callback of the first event deletes it and returns zero: the second event has moved into its
slot, and is dropped. -/
theorem not_tableRefinesMap_selfDeletion :
    TimesReached (constantEnv [.delTimeEvent 1] 0) twoTimersWorld ∧
      (∀ fuel x, processTimeEvents (constantEnv [.delTimeEvent 1] 0) fuel twoTimersWorld =
        .running x → x.IdsLeft (constantEnv [.delTimeEvent 1] 0)) ∧
      twoTimersWorld.ae.times.asMap 2 = some ⟨0, 2, 0⟩ ∧
      (processTimeEvents (constantEnv [.delTimeEvent 1] 0) 1
        twoTimersWorld).state.world.ae.times.asMap 2 = none ∧
      ¬ TableRefinesMap (constantEnv [.delTimeEvent 1] 0) twoTimersWorld := by
  refine ⟨timesReached_twoTimersWorld _ _, ?_, by decide, by decide, fun h ↦ ?_⟩
  · exact fun _ _ _ _ ↦ ⟨fun hadd ↦ absurd hadd (by simp), trivial⟩
  · -- no callback but that of the first event has been called
    have hrefines := (h 0).2.2 _ rfl
    rcases hrefines.writeBack ⟨by decide, by decide⟩ 2 with hkept | ⟨heq, -⟩
    · revert hkept
      decide
    · revert heq
      decide

end Nebula.Async
