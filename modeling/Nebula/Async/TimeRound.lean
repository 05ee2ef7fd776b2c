import Nebula.Async.TimeDispatch
import Nebula.Async.BatchDispatch
import Nebula.Library.Slice

/-!
One round of `processTimeEvents`, event by event. The slots behind the cursor hold the events that
are still to be looked at; a callback appends the events it adds to them, and dropping the slot at
the cursor moves the last of them to the cursor.

`processTimeEvents_exact` is about callbacks that delete no events and add only events that are not
due yet: the round comes to an end, calls the callbacks of the events that are due and no others,
each once, and leaves the other events, the ones that are to be called again, and the ones that have
been added.
-/

set_option autoImplicit false
set_option relaxedAutoImplicit false

namespace Nebula.Async

open Nebula.Library

/-- The events of a table. -/
def TimeTable.events (t : TimeTable) : List TimeEventInfo :=
  t.timeEventList.slice 0 t.usedTimeEvents

/-- The callback that is called, if one is. -/
def Record.invocation? : Record → Option Invocation
  | .called invocation => some invocation
  | _ => none

/-! ### What the calls of a callback add -/

namespace World

variable {κ : Type*} [EpollKernel κ]

/-- The event that a call adds to a table with room for it. -/
def addedBy (env : Env κ) (w : World κ) : Call → List TimeEventInfo
  | .addTimeEvent msLater proc data =>
      if w.ae.times.usedTimeEvents = w.ae.times.sizeTimeEvents then []
      else [⟨w.ae.times.lastTimeEventId + 1, env.clock w + msLater.toNat, proc, data⟩]
  | _ => []

/-- The events that a sequence of calls adds. -/
def added (env : Env κ) : World κ → List Call → List TimeEventInfo
  | _, [] => []
  | w, c :: rest => w.addedBy env c ++ added env (w.call env c).2 rest

/-- New events have been appended to the table. -/
structure Appends (w w' : World κ) (new : List TimeEventInfo) : Prop where
  used_le : w.ae.times.usedTimeEvents ≤ w'.ae.times.usedTimeEvents
  cells : ∀ i < w.ae.times.usedTimeEvents,
    w'.ae.times.timeEventList.cell i = w.ae.times.timeEventList.cell i
  slice : ∀ i ≤ w.ae.times.usedTimeEvents,
    w'.ae.times.timeEventList.slice i w'.ae.times.usedTimeEvents =
      w.ae.times.timeEventList.slice i w.ae.times.usedTimeEvents ++ new

omit [EpollKernel κ] in
theorem appends_of_times_eq {w w' : World κ} (h : w'.ae.times = w.ae.times) : Appends w w' [] := by
  constructor
  · rw [h]
  · intro i _
    rw [h]
  · intro i _
    rw [h, List.append_nil]

omit [EpollKernel κ] in
theorem Appends.trans {w w' w'' : World κ} {new new' : List TimeEventInfo} (h : Appends w w' new)
    (h' : Appends w' w'' new') : Appends w w'' (new ++ new') where
  used_le := h.used_le.trans h'.used_le
  cells i hi := (h'.cells i (hi.trans_le h.used_le)).trans (h.cells i hi)
  slice i hi := by rw [h'.slice i (hi.trans h.used_le), h.slice i hi, List.append_assoc]

theorem appends_call (env : Env κ) (w : World κ) {c : Call} (hc : ∀ id, c ≠ .delTimeEvent id) :
    Appends w (w.call env c).2 (w.addedBy env c) := by
  cases c with
  | addTimeEvent msLater proc data =>
    simp only [call, addTimeEvent, addedBy]
    split_ifs with hfull
    · exact appends_of_times_eq rfl
    · have hfull' : ¬ (w.msTimestampNow env).2.ae.times.usedTimeEvents =
          (w.msTimestampNow env).2.ae.times.sizeTimeEvents := hfull
      simp only [TimeTable.addTimeEvent, if_neg hfull']
      constructor
      · exact Int.le_add_one le_rfl
      · intro i hi
        exact (Buffer.cell_write ..).trans (if_neg hi.ne)
      · exact fun i hi ↦ Buffer.slice_push hi _
  | delTimeEvent id => exact absurd rfl (hc id)
  | _ => exact appends_of_times_eq rfl

theorem appends_runCalls (env : Env κ) : ∀ {calls : List Call} {w : World κ},
    (∀ id, .delTimeEvent id ∉ calls) → Appends w (w.runCalls env calls) (w.added env calls) := by
  intro calls
  induction calls with
  | nil => exact fun _ ↦ appends_of_times_eq rfl
  | cons c rest ih =>
    intro w hcalls
    have hcall := appends_call env w fun id heq ↦ hcalls id (heq ▸ List.mem_cons_self ..)
    exact hcall.trans (ih fun id hmem ↦ hcalls id (List.mem_cons_of_mem c hmem))

/-! ### The callbacks that are called -/

/-- The callbacks that have been called, the first one first. -/
def invocations (w : World κ) : List Invocation := w.log.reverse.filterMap Record.invocation?

omit [EpollKernel κ] in
theorem invocations_record (w : World κ) (r : Record) :
    (w.record r).invocations = w.invocations ++ r.invocation?.toList := by
  rw [invocations, log_record, List.reverse_cons, List.filterMap_append]
  refine congrArg (w.invocations ++ ·) ?_
  cases r <;> rfl

omit [EpollKernel κ] in
theorem invocations_record_of_none {r : Record} (hr : r.invocation? = none) (w : World κ) :
    (w.record r).invocations = w.invocations := by
  rw [invocations_record, hr]
  exact List.append_nil _

/-- A callback calls no other one. -/
theorem invocations_callback (env : Env κ) (site : Site) (w : World κ) (invocation : Invocation) :
    (w.callback env site invocation).1.invocations = w.invocations ++ [invocation] := by
  have hcall : ∀ (w' : World κ) (c : Call), (w'.call env c).2.invocations = w'.invocations := by
    intro w' c
    cases c with
    | addTimeEvent msLater proc data =>
      simp only [call, addTimeEvent]
      split_ifs
      · exact invocations_record_of_none rfl w'
      · exact (invocations_record_of_none rfl _).trans
          (invocations_record_of_none (r := .clock (env.clock w')) rfl w')
    | delTimeEvent id => exact invocations_record_of_none rfl (w'.setTimes _)
    | _ => rfl
  have hcalls := runCalls_induction env
    (P := fun w' ↦ w'.invocations = (w.record (.called invocation)).invocations)
    (fun w' c hw' ↦ (hcall w' c).trans hw')
    (env.react (w.record (.called invocation)) invocation).calls _ rfl
  rw [callback, invocations_record, hcalls, invocations_record]
  exact List.append_nil _

end World

/-! ### One iteration -/

namespace TimeLoop

variable {κ : Type*}

/-- The event at the cursor is due. -/
def Due (x : TimeLoop κ) : Prop := x.event.whenMs ≤ x.now

instance (x : TimeLoop κ) : Decidable x.Due := inferInstanceAs (Decidable (_ ≤ _))

/-- The events that the cursor has passed. -/
def behind (x : TimeLoop κ) : List TimeEventInfo := x.world.ae.times.timeEventList.slice 0 x.i

/-- The events from the cursor on. -/
def ahead (x : TimeLoop κ) : List TimeEventInfo :=
  x.world.ae.times.timeEventList.slice x.i x.world.ae.times.usedTimeEvents

/-- The events after the one at the cursor. -/
def rest (x : TimeLoop κ) : List TimeEventInfo :=
  x.world.ae.times.timeEventList.slice (x.i + 1) x.world.ae.times.usedTimeEvents

/-- The cursor is not behind the table. -/
def InTable (x : TimeLoop κ) : Prop := 0 ≤ x.i ∧ x.i ≤ x.world.ae.times.usedTimeEvents

theorem ahead_eq_cons {x : TimeLoop κ} (hguard : timeGuard x = true) :
    x.ahead = x.event :: x.rest :=
  Buffer.slice_eq_cons (by simpa [timeGuard] using hguard)

theorem ahead_eq_nil {x : TimeLoop κ} (hguard : timeGuard x = false) : x.ahead = [] :=
  Buffer.slice_eq_nil (by simpa [timeGuard] using hguard)

/-- The cursor moves on over an event that is not due. -/
structure Passes (x y : TimeLoop κ) : Prop where
  now : y.now = x.now
  processed : y.processed = x.processed
  inTable : y.InTable
  behind : y.behind = x.behind ++ [x.event]
  ahead : y.ahead = x.rest
  invocations : y.world.invocations = x.world.invocations

variable [EpollKernel κ]

/-- The events that the callback at the cursor adds. -/
def added (env : Env κ) (x : TimeLoop κ) : List TimeEventInfo := x.called.added env (x.calls env)

/-- The event at the cursor with its new deadline, if its callback returns one. -/
def rescheduled (env : Env κ) (x : TimeLoop κ) : Option TimeEventInfo :=
  if (x.returned env).2 ≠ 0 then
    some { x.event with whenMs := x.now + (x.returned env).2.toNat }
  else none

/-- The callback at the cursor deletes no events, and adds only events that are not due. -/
structure Tame (env : Env κ) (x : TimeLoop κ) : Prop where
  keeps : ∀ id, .delTimeEvent id ∉ x.calls env
  later : ∀ event ∈ x.added env, x.now < event.whenMs

/-- The callback at the cursor is called. -/
structure Calls (env : Env κ) (x y : TimeLoop κ) : Prop where
  now : y.now = x.now
  processed : y.processed = x.processed + 1
  inTable : y.InTable
  behind : y.behind = x.behind ++ (x.rescheduled env).toList
  ahead : y.ahead.Perm (x.rest ++ x.added env)
  invocations : y.world.invocations = x.world.invocations ++ [.timeProc x.event]

variable {env : Env κ} {x : TimeLoop κ}

theorem passes_timeBody (env : Env κ) (h : x.InTable) (hguard : timeGuard x = true)
    (hdue : ¬ x.Due) :
    ∃ y, timeBody env x = .done y ∧ x.Passes y := by
  have hlt : x.i < x.world.ae.times.usedTimeEvents := by simpa [timeGuard] using hguard
  refine ⟨_, if_neg hdue, rfl, rfl, ⟨Int.le_add_one h.1, hlt⟩, ?_, rfl, rfl⟩
  change x.world.ae.times.timeEventList.slice 0 (x.i + 1) = _
  rw [Buffer.slice_eq_concat (Int.lt_add_one_iff.mpr h.1), add_sub_cancel_right]
  rfl

theorem appends_returned (htame : x.Tame env) :
    World.Appends x.world (x.returned env).1 (x.added env) := by
  have hcalls : World.Appends x.called (x.called.runCalls env (x.calls env)) (x.added env) :=
    World.appends_runCalls env htame.keeps
  exact ⟨hcalls.used_le, hcalls.cells, hcalls.slice⟩

theorem cell_returned (hguard : timeGuard x = true) (htame : x.Tame env) :
    (x.returned env).1.ae.times.timeEventList.cell x.i = x.event :=
  (appends_returned htame).cells x.i (by simpa [timeGuard] using hguard)

theorem slice_behind_returned (hguard : timeGuard x = true) (htame : x.Tame env) :
    (x.returned env).1.ae.times.timeEventList.slice 0 x.i = x.behind :=
  Buffer.slice_congr fun i _ hi ↦ (appends_returned htame).cells i
    (hi.trans (by simpa [timeGuard] using hguard))

/-- A callback that returns a delay. -/
theorem calls_of_ne_zero (h : x.InTable) (hguard : timeGuard x = true) (htame : x.Tame env)
    (hrc : (x.returned env).2 ≠ 0) : x.Calls env (x.resumed env) := by
  have happends := appends_returned htame
  have hlt : x.i < x.world.ae.times.usedTimeEvents := by simpa [timeGuard] using hguard
  have hi : (x.resumed env).i = x.i + 1 := if_pos hrc
  have htimes : (x.resumed env).world.ae.times =
      (x.returned env).1.ae.times.reschedule x.i (x.now + (x.returned env).2.toNat) := if_pos hrc
  have hused := happends.used_le
  refine ⟨rfl, rfl, ?_, ?_, ?_, World.invocations_callback ..⟩
  · rw [InTable, hi, htimes]
    exact ⟨Int.le_add_one h.1, hlt.trans_le hused⟩
  · have hpush := Buffer.slice_push (b := (x.returned env).1.ae.times.timeEventList) h.1
      { (x.returned env).1.ae.times.timeEventList.cell x.i with
        whenMs := x.now + (x.returned env).2.toNat }
    rw [slice_behind_returned hguard htame, cell_returned hguard htame] at hpush
    rw [behind, hi, htimes, rescheduled, if_pos hrc]
    exact (congrArg (fun event ↦ ((x.returned env).1.ae.times.timeEventList.write x.i
      { event with whenMs := x.now + (x.returned env).2.toNat }).slice 0 (x.i + 1))
        (cell_returned hguard htame)).trans hpush
  · rw [ahead, hi, htimes, rest, ← happends.slice (x.i + 1) hlt]
    exact .of_eq (Buffer.slice_write_of_lt (Int.lt_add_one_iff.mpr le_rfl) _)

/-- A callback that returns zero. -/
theorem calls_of_eq_zero (h : x.InTable) (hguard : timeGuard x = true) (htame : x.Tame env)
    (hrc : (x.returned env).2 = 0) : x.Calls env (x.resumed env) := by
  have happends := appends_returned htame
  have hlt : x.i < x.world.ae.times.usedTimeEvents := by simpa [timeGuard] using hguard
  have hi : (x.resumed env).i = x.i := if_neg (not_not.mpr hrc)
  have htimes : (x.resumed env).world.ae.times = (x.returned env).1.ae.times.dropSlot x.i :=
    if_neg (not_not.mpr hrc)
  have hused := happends.used_le
  refine ⟨rfl, rfl, ?_, ?_, ?_, World.invocations_callback ..⟩
  · rw [InTable, hi, htimes]
    exact ⟨h.1, Int.le_sub_one_of_lt (hlt.trans_le hused)⟩
  · rw [behind, hi, htimes, rescheduled, if_neg (not_not.mpr hrc), Option.toList_none,
      List.append_nil, ← slice_behind_returned hguard htame]
    exact Buffer.slice_moveInto_of_le le_rfl _
  · rw [ahead, hi, htimes, rest, ← happends.slice (x.i + 1) hlt]
    exact Buffer.slice_moveInto_perm (hlt.trans_le hused)

theorem calls_resumed (h : x.InTable) (hguard : timeGuard x = true) (htame : x.Tame env) :
    x.Calls env (x.resumed env) := by
  by_cases hrc : (x.returned env).2 = 0
  · exact calls_of_eq_zero h hguard htame hrc
  · exact calls_of_ne_zero h hguard htame hrc

/-! ### All iterations -/

/-- The moments of the loop at which a callback is called. -/
def firings (env : Env κ) : ℕ → TimeLoop κ → List (TimeLoop κ)
  | 0, _ => []
  | fuel + 1, x =>
      if timeGuard x then
        match timeBody env x with
        | .done y => (if x.Due then [x] else []) ++ firings env fuel y
        | _ => []
      else []

/-- What the rest of a round does, from one moment of the loop to its end. -/
structure Ends (env : Env κ) (x : TimeLoop κ) (firings : List (TimeLoop κ)) (y : TimeLoop κ) :
    Prop where
  now : ∀ z ∈ firings, z.now = x.now
  invocations : y.world.invocations =
    x.world.invocations ++ firings.map fun z ↦ .timeProc z.event
  due : (firings.map event).Perm (x.ahead.filter fun e ↦ e.whenMs ≤ x.now)
  events : y.world.ae.times.events.Perm
    (x.behind ++ (x.ahead.filter fun e ↦ x.now < e.whenMs) ++ firings.filterMap (rescheduled env) ++
      firings.flatMap (added env))
  processed : y.processed = x.processed + firings.length

variable {y z : TimeLoop κ} {fs : List (TimeLoop κ)}

theorem ends_of_not_guard (h : x.InTable) (hguard : timeGuard x = false) : x.Ends env [] x := by
  have hi : x.world.ae.times.usedTimeEvents = x.i := by
    have hle : x.world.ae.times.usedTimeEvents ≤ x.i := by simpa [timeGuard] using hguard
    exact le_antisymm hle h.2
  have hbehind : x.world.ae.times.events = x.behind := by rw [TimeTable.events, hi, behind]
  refine ⟨by simp, (List.append_nil _).symm, ?_, ?_, (add_zero _).symm⟩
  · rw [ahead_eq_nil hguard]
    exact List.Perm.refl []
  · rw [ahead_eq_nil hguard, hbehind]
    simp only [List.filter_nil, List.filterMap_nil, List.flatMap_nil, List.append_nil]
    exact List.Perm.refl _

theorem Passes.ends (h : x.Passes y) (hguard : timeGuard x = true) (hdue : ¬ x.Due)
    (hends : y.Ends env fs z) : x.Ends env fs z := by
  have hevent : ¬ x.event.whenMs ≤ x.now := hdue
  obtain ⟨hnow, hinvocations, hcalled, hevents, hprocessed⟩ := hends
  rw [h.ahead, h.now] at hcalled hevents
  rw [h.behind] at hevents
  refine ⟨?_, ?_, ?_, ?_, ?_⟩
  · rwa [← h.now]
  · rw [hinvocations, h.invocations]
  · rw [ahead_eq_cons hguard, List.filter_cons, if_neg (by simpa using hevent)]
    exact hcalled
  · rw [ahead_eq_cons hguard, List.filter_cons, if_pos (by simpa using hevent)]
    refine hevents.trans (List.Perm.of_eq ?_)
    simp only [List.append_assoc, List.cons_append, List.nil_append]
  · rw [hprocessed, h.processed]

/-- None of the events that are added is due. -/
theorem Tame.filter_added (htame : x.Tame env) :
    ((x.added env).filter fun e ↦ e.whenMs ≤ x.now) = [] ∧
      ((x.added env).filter fun e ↦ x.now < e.whenMs) = x.added env := by
  constructor
  · exact List.filter_eq_nil_iff.mpr fun e he ↦ by simpa using htame.later e he
  · exact List.filter_eq_self.mpr fun e he ↦ by simpa using htame.later e he

theorem Calls.ends (h : x.Calls env y) (hguard : timeGuard x = true) (hdue : x.Due)
    (htame : x.Tame env) (hends : y.Ends env fs z) : x.Ends env (x :: fs) z := by
  have hevent : x.event.whenMs ≤ x.now := hdue
  obtain ⟨hnone, hall⟩ := htame.filter_added
  obtain ⟨hnow, hinvocations, hcalled, hevents, hprocessed⟩ := hends
  rw [h.now] at hnow hcalled hevents
  have hdue' := h.ahead.filter fun e ↦ e.whenMs ≤ x.now
  have hlater := h.ahead.filter fun e ↦ x.now < e.whenMs
  rw [List.filter_append, hnone, List.append_nil] at hdue'
  rw [List.filter_append, hall] at hlater
  refine ⟨?_, ?_, ?_, ?_, ?_⟩
  · exact List.forall_mem_cons.mpr ⟨rfl, hnow⟩
  · rw [hinvocations, h.invocations, List.map_cons, List.append_assoc, List.singleton_append]
  · rw [ahead_eq_cons hguard, List.filter_cons, if_pos (by simpa using hevent), List.map_cons]
    exact (hcalled.trans hdue').cons x.event
  · rw [ahead_eq_cons hguard, List.filter_cons, if_neg (by simpa using hevent)]
    rw [List.perm_iff_count] at hevents hlater ⊢
    intro event
    have hresult : (x :: fs).filterMap (rescheduled env) =
        (x.rescheduled env).toList ++ fs.filterMap (rescheduled env) := by
      rw [List.filterMap_cons]
      cases x.rescheduled env <;> rfl
    have hcount := hevents event
    rw [h.behind] at hcount
    rw [hresult, List.flatMap_cons]
    simp only [List.count_append, hlater event] at hcount ⊢
    omega
  · rw [hprocessed, h.processed, List.length_cons]
    push_cast
    omega

theorem firings_of_not_guard (hguard : timeGuard x = false) (fuel : ℕ) :
    firings env fuel x = [] := by
  cases fuel with
  | zero => rfl
  | succ fuel => rw [firings, if_neg (by rw [hguard]; exact Bool.false_ne_true)]

theorem firings_succ (hguard : timeGuard x = true) (hbody : timeBody env x = .done y) (fuel : ℕ) :
    firings env (fuel + 1) x = (if x.Due then [x] else []) ++ firings env fuel y := by
  rw [firings, if_pos hguard, hbody]

/-- From the moment on, the round comes to an end and does what it should. -/
def Finishes (env : Env κ) (x : TimeLoop κ) : Prop :=
  ∃ N y, ∀ fuel ≥ N, whileLoop timeGuard (timeBody env) fuel x = .done y ∧
    x.Ends env (firings env fuel x) y

theorem finishes_of_not_guard (h : x.InTable) (hguard : timeGuard x = false) : x.Finishes env := by
  refine ⟨0, x, fun fuel _ ↦ ⟨whileLoop_of_not_guard hguard fuel, ?_⟩⟩
  rw [firings_of_not_guard hguard]
  exact ends_of_not_guard h hguard

theorem Finishes.of_timeBody (hguard : timeGuard x = true) (hbody : timeBody env x = .done y)
    (hends : ∀ fs z, y.Ends env fs z → x.Ends env ((if x.Due then [x] else []) ++ fs) z)
    (h : y.Finishes env) : x.Finishes env := by
  obtain ⟨N, z, hz⟩ := h
  refine ⟨N + 1, z, fun fuel hfuel ↦ ?_⟩
  obtain ⟨fuel, rfl⟩ := Nat.exists_eq_succ_of_ne_zero (show fuel ≠ 0 by omega)
  obtain ⟨hdone, hrest⟩ := hz fuel (by omega)
  rw [firings_succ hguard hbody]
  exact ⟨by rw [whileLoop_succ hguard, hbody, Outcome.andThen_done, hdone], hends _ _ hrest⟩

/-- The events ahead that are due have callbacks, and the callbacks that are called are tame. -/
structure Served (env : Env κ) (x : TimeLoop κ) : Prop where
  procs : ∀ e ∈ x.ahead, e.whenMs ≤ x.now → e.proc ≠ null
  tame : ∀ fuel z, whileLoop timeGuard (timeBody env) fuel x = .running z → z.Due → z.Tame env

theorem Served.of_timeBody (h : x.Served env) (hguard : timeGuard x = true)
    (hbody : timeBody env x = .done y)
    (hprocs : ∀ e ∈ y.ahead, e.whenMs ≤ y.now → e.proc ≠ null) : y.Served env := by
  refine ⟨hprocs, fun fuel z hz ↦ h.tame (fuel + 1) z ?_⟩
  rw [whileLoop_succ hguard, hbody, Outcome.andThen_done, hz]

theorem Served.passes (h : x.Served env) (hguard : timeGuard x = true)
    (hbody : timeBody env x = .done y) (hpasses : x.Passes y) : y.Served env := by
  refine h.of_timeBody hguard hbody fun e he ↦ ?_
  rw [hpasses.now]
  rw [hpasses.ahead] at he
  exact h.procs e (ahead_eq_cons hguard ▸ List.mem_cons_of_mem x.event he)

theorem Served.calls (h : x.Served env) (hguard : timeGuard x = true)
    (hbody : timeBody env x = .done y) (htame : x.Tame env) (hcalls : x.Calls env y) :
    y.Served env := by
  refine h.of_timeBody hguard hbody fun e he hdue ↦ ?_
  rw [hcalls.now] at hdue
  rcases List.mem_append.mp (hcalls.ahead.mem_iff.mp he) with hrest | hadded
  · exact h.procs e (ahead_eq_cons hguard ▸ List.mem_cons_of_mem x.event hrest) hdue
  · exact absurd hdue (not_le.mpr (htame.later e hadded))

/-- The number of events ahead that are due. -/
def dueAhead (x : TimeLoop κ) : ℕ := (x.ahead.filter fun e ↦ e.whenMs ≤ x.now).length

omit [EpollKernel κ] in
theorem Passes.dueAhead (h : x.Passes y) (hguard : timeGuard x = true) (hdue : ¬ x.Due) :
    y.dueAhead = x.dueAhead := by
  have hevent : ¬ x.event.whenMs ≤ x.now := hdue
  rw [TimeLoop.dueAhead, TimeLoop.dueAhead, h.ahead, h.now, ahead_eq_cons hguard, List.filter_cons,
    if_neg (by simpa using hevent)]

theorem Calls.dueAhead (h : x.Calls env y) (hguard : timeGuard x = true) (hdue : x.Due)
    (htame : x.Tame env) : y.dueAhead + 1 = x.dueAhead := by
  have hevent : x.event.whenMs ≤ x.now := hdue
  have hcount := (h.ahead.filter fun e ↦ e.whenMs ≤ x.now).length_eq
  rw [List.filter_append, htame.filter_added.1, List.append_nil] at hcount
  rw [TimeLoop.dueAhead, TimeLoop.dueAhead, h.now, hcount, ahead_eq_cons hguard, List.filter_cons,
    if_pos (by simpa using hevent), List.length_cons]

/-- A callback leaves one event less that is due, and may leave more events; passing an event leaves
as many that are due, and one event less. -/
theorem Served.finishes : ∀ {due left : ℕ} {x : TimeLoop κ}, x.InTable → x.dueAhead = due →
    x.ahead.length = left → x.Served env → x.Finishes env := by
  intro due
  induction due using Nat.strongRecOn with
  | _ due ihdue =>
    intro left
    induction left with
    | zero =>
      intro x h _ hleft _
      refine finishes_of_not_guard h (Bool.eq_false_iff.mpr fun hguard ↦ ?_)
      rw [ahead_eq_cons hguard, List.length_cons] at hleft
      omega
    | succ left ihleft =>
      intro x h hdueAhead hleft hserved
      cases hguard : timeGuard x with
      | false => exact finishes_of_not_guard h hguard
      | true =>
        by_cases hdue : x.Due
        · have hproc : x.event.proc ≠ null :=
            hserved.procs x.event (ahead_eq_cons hguard ▸ List.mem_cons_self ..) hdue
          have htame := hserved.tame 0 x (whileLoop_zero hguard) hdue
          have hbody : timeBody env x = .done (x.resumed env) := timeBody_of_fires ⟨hdue, hproc⟩
          have hcalls := calls_resumed h hguard htame
          have hlt : (x.resumed env).dueAhead < due := by
            have := hcalls.dueAhead hguard hdue htame
            omega
          refine Finishes.of_timeBody hguard hbody (fun fs z hends ↦ ?_) (ihdue _ hlt hcalls.inTable
            rfl rfl (hserved.calls hguard hbody htame hcalls))
          rw [if_pos hdue]
          exact hcalls.ends hguard hdue htame hends
        · obtain ⟨y, hbody, hpasses⟩ := passes_timeBody env h hguard hdue
          have hshorter : y.ahead.length = left := by
            rw [ahead_eq_cons hguard, List.length_cons] at hleft
            rw [hpasses.ahead]
            omega
          refine Finishes.of_timeBody hguard hbody (fun fs z hends ↦ ?_) (ihleft hpasses.inTable
            ((hpasses.dueAhead hguard hdue).trans hdueAhead) hshorter
            (hserved.passes hguard hbody hpasses))
          rw [if_neg hdue]
          exact hpasses.ends hguard hdue hends

end TimeLoop

/-! ### The round -/

section Round

variable {κ : Type*} [EpollKernel κ]

/-- The loop of `processTimeEvents` before its first iteration. -/
def World.timeLoop (env : Env κ) (w : World κ) : TimeLoop κ :=
  ⟨env.clock w, 0, 0, w.record (.clock (env.clock w))⟩

/-- What a round should do, when the callbacks have been called at the given moments: those of the
events that are due, each of them once, and no others. It leaves the events that are not due, those
of the others that are to be called again, and those that have been added, and counts the events
that were due. -/
structure ExactRound (env : Env κ) (w : World κ) (firings : List (TimeLoop κ)) (x : TimeLoop κ) :
    Prop where
  now : ∀ z ∈ firings, z.now = env.clock w
  due : (firings.map TimeLoop.event).Perm
    (w.ae.times.events.filter fun e ↦ e.whenMs ≤ env.clock w)
  once : (firings.map fun z ↦ z.event.timeEventId).Nodup
  invocations : x.world.invocations = w.invocations ++ firings.map fun z ↦ .timeProc z.event
  events : x.world.ae.times.events.Perm
    ((w.ae.times.events.filter fun e ↦ env.clock w < e.whenMs) ++
      firings.filterMap (TimeLoop.rescheduled env) ++ firings.flatMap (TimeLoop.added env))
  processed : x.processed = (w.ae.times.events.filter fun e ↦ e.whenMs ≤ env.clock w).length

theorem TimeLoop.Ends.exactRound {env : Env κ} {w : World κ} {firings : List (TimeLoop κ)}
    {x : TimeLoop κ} (hw : w.ae.times.timeEventList.Keyed TimeEventInfo.timeEventId
      w.ae.times.usedTimeEvents) (h : (w.timeLoop env).Ends env firings x) :
    ExactRound env w firings x := by
  have hahead : (w.timeLoop env).ahead = w.ae.times.events := rfl
  have hbehind : (w.timeLoop env).behind = [] := Buffer.slice_eq_nil le_rfl
  have hinvocations : (w.timeLoop env).world.invocations = w.invocations :=
    (w.invocations_record _).trans (List.append_nil _)
  have hdue := h.due
  have hevents := h.events
  rw [hahead] at hdue
  rw [hahead, hbehind, List.nil_append] at hevents
  refine ⟨h.now, hdue, ?_, hinvocations ▸ h.invocations, hevents, ?_⟩
  · have hids := hdue.map TimeEventInfo.timeEventId
    rw [List.map_map] at hids
    exact hids.nodup_iff.mpr (hw.nodup_slice.sublist (List.filter_sublist.map _))
  · have hcount := hdue.length_eq
    rw [List.length_map] at hcount
    rw [h.processed, hcount]
    exact zero_add _

/-- When the callbacks delete no events and add none that are due, a round of `processTimeEvents`
comes to an end and is exact. -/
theorem processTimeEvents_exact (env : Env κ) (w : World κ)
    (hw : w.ae.times.timeEventList.Keyed TimeEventInfo.timeEventId w.ae.times.usedTimeEvents)
    (hprocs : ∀ e ∈ w.ae.times.events, e.whenMs ≤ env.clock w → e.proc ≠ null)
    (htame : ∀ fuel x, processTimeEvents env fuel w = .running x → x.Due → x.Tame env) :
    ∃ N x, ∀ fuel ≥ N, processTimeEvents env fuel w = .done x ∧
      ExactRound env w (TimeLoop.firings env fuel (w.timeLoop env)) x := by
  have hserved : (w.timeLoop env).Served env := ⟨hprocs, htame⟩
  obtain ⟨N, x, hx⟩ := hserved.finishes ⟨le_rfl, hw.nonneg⟩ rfl rfl
  exact ⟨N, x, fun fuel hfuel ↦ ⟨(hx fuel hfuel).1, (hx fuel hfuel).2.exactRound hw⟩⟩

/-- The clock is read once in a round. -/
theorem now_of_running {env : Env κ} {w : World κ} {fuel : ℕ} {x : TimeLoop κ}
    (hx : processTimeEvents env fuel w = .running x) : x.now = env.clock w := by
  have hbody : ∀ y : TimeLoop κ, y.now = env.clock w → timeGuard y = true →
      (timeBody env y).state.now = env.clock w := by
    intro y hy _
    unfold timeBody
    split_ifs
    · exact World.invoke_state (P := fun z : TimeLoop κ ↦ z.now = env.clock w) hy hy
    · exact hy
  have hnow := whileLoop_state hbody fuel (w.timeLoop env) rfl
  have hrunning : whileLoop timeGuard (timeBody env) fuel (w.timeLoop env) = .running x := hx
  rwa [hrunning] at hnow

end Round

/-- Both events are due; each callback adds an event and asks to be called again later. -/
theorem processTimeEvents_exact_twoTimersWorld :
    let env := constantEnv [.addTimeEvent 5 3 0] 7
    ∃ N x, ∀ fuel ≥ N, processTimeEvents env fuel twoTimersWorld = .done x ∧
      ExactRound env twoTimersWorld
        (TimeLoop.firings env fuel (twoTimersWorld.timeLoop env)) x := by
  intro env
  have hkeyed := (timesReached_twoTimersWorld [] 0).wellFormed.1.keyed
  refine processTimeEvents_exact env twoTimersWorld hkeyed (by decide) fun fuel x hx _ ↦ ?_
  have hnow : x.now = 0 := now_of_running hx
  have hcalls : x.calls env = [.addTimeEvent 5 3 0] := rfl
  constructor
  · simp [hcalls]
  · intro event hevent
    rw [hnow]
    simp only [TimeLoop.added, hcalls, World.added, World.addedBy, List.append_nil] at hevent
    split_ifs at hevent
    · exact absurd hevent List.not_mem_nil
    · rw [List.mem_singleton.mp hevent]
      show (0 : ℤ) < 0 + 5
      decide

end Nebula.Async
