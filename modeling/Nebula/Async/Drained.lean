import Nebula.Async.EventLoop

/-!
What the results of I/O callbacks make of the events still to be handled. A callback is called for
some events and returns those of them that it leaves for later; the others are drained, and should
not be among the events still to be handled any more. A descriptor whose callback has returned
`NONE` for all of them should not be called again before the kernel reports something new for it
(`World.Drained`).

Both `processReadyFds` and `processFdEvents` add the events that were still to be handled before to
what the callback returns, so that a drained event is among them again if it was there before and is
monitored. `drained_iff` says in which calls of the two this does not happen.

That a descriptor is left alone is said of the steps of the event loop (`QuietStep`); a run of
`eventLoop` consists of them until `epoll_wait` reports the descriptor (`quiet_eventLoop`).
-/

set_option autoImplicit false
set_option relaxedAutoImplicit false

namespace Nebula.Async

open Nebula.Library FdTable

/-! ### One result -/

/-- The events of `mask` that a callback called for them does not return are not to be handled any
more. -/
def FdEventInfo.Drains (info : FdEventInfo) (mask result : Mask) : Prop :=
  info.alreadyFired &&& mask &&& ~~~result = 0

instance (info : FdEventInfo) (mask result : Mask) : Decidable (info.Drains mask result) :=
  inferInstanceAs (Decidable (_ = _))

namespace FdTable

variable {t : FdTable} {idx fd : ℤ} {mask result : Mask}

/-- What `processReadyFds` makes of a result that is returned for all events still to be handled. -/
theorem drains_settleReady_iff (hbounds : t.listOfReadyFds.InBounds idx) :
    ((t.settleReady idx fd result).fdEventList fd).Drains (t.fdEventList fd).alreadyFired result ↔
      (t.fdEventList fd).alreadyFired &&& (t.fdEventList fd).monitored &&& ~~~result = 0 := by
  rw [FdEventInfo.Drains, fdEventList_settleReady hbounds, if_pos rfl]
  have hbits : guess (t.fdEventList fd) result &&& (t.fdEventList fd).alreadyFired &&& ~~~result =
      (t.fdEventList fd).alreadyFired &&& (t.fdEventList fd).monitored &&& ~~~result := by
    unfold guess
    ext i hi
    simp only [BitVec.getElem_and, BitVec.getElem_or, BitVec.getElem_not]
    grind
  rw [← hbits]

/-- What `processFdEvents` makes of a result. -/
theorem drains_settleFired_iff :
    ((t.settleFired fd mask result).fdEventList fd).Drains mask result ↔
      guess (t.fdEventList fd) result = 0 ∨ (t.fdEventList fd).Drains mask result := by
  rw [FdEventInfo.Drains, fdEventList_settleFired, if_pos rfl]
  unfold firedAfter
  by_cases hguess : guess (t.fdEventList fd) result ≠ 0
  · have hbits : ((t.fdEventList fd).alreadyFired ||| guess (t.fdEventList fd) result) &&& mask &&&
        ~~~result = (t.fdEventList fd).alreadyFired &&& mask &&& ~~~result := by
      unfold guess
      ext i hi
      simp only [BitVec.getElem_and, BitVec.getElem_or, BitVec.getElem_not]
      grind
    rw [if_pos hguess, or_iff_right hguess]
    exact iff_of_eq (congrArg (fun pending ↦ pending = 0) hbits)
  · have hbits : (t.fdEventList fd).alreadyFired &&& ~~~mask &&& mask &&& ~~~result = 0 := by
      ext i hi
      simp only [BitVec.getElem_and, BitVec.getElem_not]
      grind
    rw [if_neg hguess]
    exact iff_of_true hbits (Or.inl (not_not.mp hguess))

end FdTable

/-! ### A descriptor that is left alone -/

namespace World

variable {κ : Type*} [EpollKernel κ]

/-- A step of the event loop that is not the dispatch of something the kernel has reported for the
descriptor: an exchange with the kernel or the clock, a round of `processReadyFds` or of
`processTimeEvents`, or an entry of a batch for another descriptor. -/
inductive QuietStep (env : Env κ) (fd : ℤ) : World κ → World κ → Prop where
  | exchange (w : World κ) (r : Record) : QuietStep env fd w (w.record r)
  | ready (x : ReadyLoop κ) (hidx : 0 ≤ x.idx) (hguard : readyGuard x = true) :
      QuietStep env fd x.world (readyBody env x).state.world
  | entry (w : World κ) (later : List EpollEvent) (ee : EpollEvent) (hne : ee.fd ≠ fd)
      (hvalid : w.ae.fds.ValidFd ee.fd) : QuietStep env fd w (w.dispatchEntry env later ee).state
  | timer (x : TimeLoop κ) : QuietStep env fd x.world (timeBody env x).state.world

/-- What should become of a result that a callback has returned, when it was called from `w` for the
events in `mask`, and the result has been taken into account in `w'`: what the callback has drained
is not to be handled any more, the listed descriptors are those with events still to be handled, and
if the callback has drained all events of its descriptor, that is not listed until the kernel has
something new to report for it. -/
structure Drained (env : Env κ) (fd : ℤ) (mask result : Mask) (w w' : World κ) : Prop where
  drains : (w'.ae.fds.fdEventList fd).Drains mask result
  listed_iff : ∀ fd', w'.ae.fds.ValidFd fd' →
    (w'.ae.fds.Listed fd' ↔ (w'.ae.fds.fdEventList fd').alreadyFired ≠ 0)
  unlisted : result = Mask.none → (w.ae.fds.fdEventList fd).alreadyFired &&& ~~~mask = 0 →
    ∀ w'', Relation.ReflTransGen (QuietStep env fd) w' w'' → ¬ w''.ae.fds.Listed fd

end World

/-- The callbacks do not change the registrations. -/
def Env.KeepsRegistrations {κ : Type*} [EpollKernel κ] (env : Env κ) : Prop :=
  ∀ (site : Site) (w : World κ) (invocation : Invocation),
    (w.callback env site invocation).1.ae.fds = w.ae.fds

/-! ### The rounds of `processReadyFds` -/

section Rounds

variable {κ : Type*} [EpollKernel κ] {env : Env κ} {x : ReadyLoop κ}

namespace ReadyLoop

/-- The callback at the cursor returns all of the events that are still to be handled and
monitored. -/
def ReturnsPending (env : Env κ) (x : ReadyLoop κ) : Prop :=
  x.info.proc ≠ null →
    x.info.alreadyFired &&& x.info.monitored &&& ~~~(x.returned env).2 = 0

/-- The loop between two rounds. -/
structure AtCursor (x : ReadyLoop κ) : Prop where
  idx_nonneg : 0 ≤ x.idx
  wellFormed : x.world.ae.fds.WellFormed

omit [EpollKernel κ] in
theorem AtCursor.inBounds (h : x.AtCursor) (hguard : readyGuard x = true) :
    x.world.ae.fds.listOfReadyFds.InBounds x.idx :=
  h.wellFormed.keyed.inBounds h.idx_nonneg (by simpa [readyGuard] using hguard)

omit [EpollKernel κ] in
theorem AtCursor.fds_reading (h : x.AtCursor) (hguard : readyGuard x = true) :
    x.reading.ae.fds = x.world.ae.fds :=
  touchReady_of_inBounds (h.inBounds hguard)

theorem AtCursor.fds_returned (h : x.AtCursor) (hguard : readyGuard x = true)
    (henv : env.KeepsRegistrations) : (x.returned env).1.ae.fds = x.world.ae.fds :=
  (henv ..).trans (h.fds_reading hguard)

/-- A round whose callback does not change the registrations. -/
theorem AtCursor.next (h : x.AtCursor) (hguard : readyGuard x = true)
    (henv : env.KeepsRegistrations) : (readyBody env x).state.AtCursor := by
  have hfds := h.fds_returned hguard henv
  unfold readyBody
  refine World.invoke_state (P := AtCursor) ⟨h.idx_nonneg, ?_⟩ ⟨?_, ?_⟩
  · exact (h.fds_reading hguard).symm ▸ h.wellFormed
  · have := h.idx_nonneg
    dsimp only
    split_ifs <;> omega
  · change ((x.returned env).1.ae.fds.settleReady x.idx x.fd (x.returned env).2).WellFormed
    rw [hfds]
    have hlt : x.idx < x.world.ae.fds.numReadyFds := by simpa [readyGuard] using hguard
    refine h.wellFormed.settleReady (h.inBounds hguard) (fun _ ↦ rfl) ?_
    unfold FdTable.ReturnsCleanly
    split_ifs
    · exact ⟨x.idx, h.idx_nonneg, hlt, rfl⟩
    · exact fun _ ↦ Or.inl hlt

end ReadyLoop

/-! ### Nothing new is reported -/

/-- A well-formed table in which nothing of the descriptor is to be handled. -/
def FdTable.Idle (t : FdTable) (fd : ℤ) : Prop :=
  t.WellFormed ∧ (t.fdEventList fd).alreadyFired = 0

theorem FdTable.Idle.not_listed {t : FdTable} {fd : ℤ} (h : t.Idle fd) : ¬ t.Listed fd :=
  fun hlisted ↦ h.1.fired fd hlisted h.2

/-- Nothing but what the kernel reports makes an idle descriptor one with events to be handled. -/
theorem World.QuietStep.idle {fd : ℤ} {w w' : World κ} (h : w.QuietStep env fd w')
    (henv : env.KeepsRegistrations) (hidle : w.ae.fds.Idle fd) : w'.ae.fds.Idle fd := by
  cases h with
  | exchange => exact hidle
  | ready x hidx hguard =>
    have hcursor : x.AtCursor := ⟨hidx, hidle.1⟩
    refine ⟨(hcursor.next hguard henv).wellFormed, ?_⟩
    have hlisted : x.world.ae.fds.Listed x.fd :=
      ⟨x.idx, hidx, by simpa [readyGuard] using hguard, rfl⟩
    have hne : fd ≠ x.fd := by
      rintro rfl
      exact hidle.not_listed hlisted
    unfold readyBody
    refine World.invoke_state
      (P := fun y : ReadyLoop κ ↦ (y.world.ae.fds.fdEventList fd).alreadyFired = 0) ?_ ?_
    · exact (hcursor.fds_reading hguard).symm ▸ hidle.2
    · change (((x.returned env).1.ae.fds.settleReady x.idx x.fd (x.returned env).2).fdEventList
        fd).alreadyFired = 0
      rw [hcursor.fds_returned hguard henv, fdEventList_settleReady (hcursor.inBounds hguard),
        if_neg hne]
      exact hidle.2
  | entry _ later ee hne hvalid =>
    refine ⟨(World.dispatches_dispatchEntry env hidle.1 later hvalid).wellFormed, ?_⟩
    unfold World.dispatchEntry
    simp only
    split_ifs
    · refine World.invoke_state
        (P := fun w : World κ ↦ (w.ae.fds.fdEventList fd).alreadyFired = 0) hidle.2 ?_
      exact (henv _ _ _).symm ▸ hidle.2
    · refine World.invoke_state
        (P := fun w : World κ ↦ (w.ae.fds.fdEventList fd).alreadyFired = 0) hidle.2 ?_
      rw [World.fds_setFds, fdEventList_settleFired, if_neg hne.symm, henv]
      exact hidle.2
    · exact hidle.2
  | timer x =>
    unfold timeBody
    split_ifs
    · refine World.invoke_state (P := fun y : TimeLoop κ ↦ y.world.ae.fds.Idle fd) hidle ?_
      exact (henv (.timer x.i) x.reading (.timeProc x.event)).symm ▸ hidle
    · exact hidle

theorem not_listed_of_quiet {fd : ℤ} {w w' : World κ} (henv : env.KeepsRegistrations)
    (hidle : w.ae.fds.Idle fd) (h : Relation.ReflTransGen (World.QuietStep env fd) w w') :
    ¬ w'.ae.fds.Listed fd := by
  suffices hidle' : w'.ae.fds.Idle fd from hidle'.not_listed
  induction h with
  | refl => exact hidle
  | tail _ hstep ih => exact hstep.idle henv ih

/-- Once the result is taken into account in a well-formed table, and no events of the descriptor
have been added to those still to be handled by a callback that returned `NONE`, all depends on what
the callback has drained. -/
theorem drained_iff_drains {fd : ℤ} {mask result : Mask} {w w' : World κ}
    (henv : env.KeepsRegistrations) (h : w'.ae.fds.WellFormed)
    (hrest : result = Mask.none → (w.ae.fds.fdEventList fd).alreadyFired &&& ~~~mask = 0 →
      (w'.ae.fds.fdEventList fd).alreadyFired &&& ~~~mask = 0) :
    World.Drained env fd mask result w w' ↔ (w'.ae.fds.fdEventList fd).Drains mask result := by
  refine ⟨World.Drained.drains, fun hdrains ↦ ⟨hdrains, fun fd' ↦ h.listed_iff, ?_⟩⟩
  rintro rfl hpending w'' hquiet
  refine not_listed_of_quiet henv ⟨h, ?_⟩ hquiet
  have hdrained : (w'.ae.fds.fdEventList fd).alreadyFired &&& mask &&& ~~~(0 : Mask) = 0 := hdrains
  ext i hi
  have hbit := congrArg (fun mask : Mask ↦ mask[i]) hdrained
  have hbit' := congrArg (fun mask : Mask ↦ mask[i]) (hrest rfl hpending)
  simp only [BitVec.getElem_and, BitVec.getElem_not, BitVec.ofNat_eq_ofNat,
    BitVec.getElem_zero] at hbit hbit' ⊢
  grind

/-! ### Whole calls of `processReadyFds` -/

/-- `NONE` leaves at most the events that were still to be handled before. -/
theorem guess_none_and_not (info : FdEventInfo) {mask : Mask}
    (hpending : info.alreadyFired &&& ~~~mask = 0) :
    guess info Mask.none &&& ~~~mask = 0 := by
  have hguess : guess info Mask.none = info.alreadyFired &&& info.monitored :=
    congrArg (· &&& info.monitored) BitVec.zero_or
  rw [hguess, BitVec.and_assoc, BitVec.and_comm info.monitored, ← BitVec.and_assoc, hpending]
  exact BitVec.zero_and

/-- A round of `processReadyFds` that returns. -/
theorem ReadyLoop.AtCursor.drained_readyBody_iff {y : ReadyLoop κ} (h : x.AtCursor)
    (hguard : readyGuard x = true) (henv : env.KeepsRegistrations)
    (hdone : readyBody env x = .done y) :
    World.Drained env x.fd x.info.alreadyFired (x.returned env).2 x.world y.world ↔
      x.ReturnsPending env := by
  have hfds := h.fds_returned hguard henv
  have hinfo : x.info = x.world.ae.fds.fdEventList x.fd := by
    rw [ReadyLoop.info, h.fds_reading hguard]
  have hnext := h.next hguard henv
  rw [hdone] at hnext
  have hproc := proc_ne_null_of_readyBody hdone
  have hentry : x.invocation.entry ≠ null := hproc
  rw [readyBody, World.invoke_of_ne_null hentry] at hdone
  cases hdone
  have hrow : ∀ fd,
      ((x.returned env).1.ae.fds.settleReady x.idx x.fd (x.returned env).2).fdEventList fd =
        (x.world.ae.fds.settleReady x.idx x.fd (x.returned env).2).fdEventList fd := by
    rw [hfds]
    exact fun _ ↦ rfl
  refine (drained_iff_drains henv hnext.wellFormed ?_).trans ?_
  · rintro hnone hpending
    change (((x.returned env).1.ae.fds.settleReady x.idx x.fd (x.returned env).2).fdEventList
      x.fd).alreadyFired &&& _ = 0
    rw [hrow, fdEventList_settleReady (h.inBounds hguard), if_pos rfl, hnone]
    exact guess_none_and_not _ hpending
  · change (((x.returned env).1.ae.fds.settleReady x.idx x.fd (x.returned env).2).fdEventList
      x.fd).Drains x.info.alreadyFired (x.returned env).2 ↔ _
    rw [hrow, hinfo, drains_settleReady_iff (h.inBounds hguard)]
    unfold ReadyLoop.ReturnsPending
    rw [hinfo]
    exact ⟨fun hpending _ ↦ hpending, fun hpending ↦ hpending (hinfo ▸ hproc)⟩

/-- The callbacks of the listed descriptors are called, and return, between two rounds. -/
theorem atCursor_of_running {w : World κ} (henv : env.KeepsRegistrations) (hw : w.ae.fds.WellFormed)
    {fuel : ℕ} (hrunning : processReadyFds env fuel w = .running x) :
    x.AtCursor ∧ readyGuard x = true := by
  have hcursor : (processReadyFds env fuel w).state.AtCursor := whileLoop_state
    (fun _ h hguard ↦ ReadyLoop.AtCursor.next h hguard henv) fuel ⟨0, 0, w⟩ ⟨le_rfl, hw⟩
  rw [hrunning] at hcursor
  exact ⟨hcursor, guard_of_whileLoop_running (readyBody_ended env) hrunning⟩

/-- The results in `processReadyFds` drain what the callbacks have drained exactly when each
callback returns all of the monitored events that it is called for. -/
theorem processReadyFds_drained_iff {w : World κ} (henv : env.KeepsRegistrations)
    (hw : w.ae.fds.WellFormed) :
    (∀ fuel x y, processReadyFds env fuel w = .running x → readyBody env x = .done y →
        World.Drained env x.fd x.info.alreadyFired (x.returned env).2 x.world y.world) ↔
      ∀ fuel x, processReadyFds env fuel w = .running x → x.ReturnsPending env := by
  constructor
  · intro hdrained fuel x hrunning hproc
    obtain ⟨hcursor, hguard⟩ := atCursor_of_running henv hw hrunning
    have hdone : readyBody env x = .done (x.resumed env) := readyBody_of_ne_null hproc
    have hdrains := (hcursor.drained_readyBody_iff hguard henv hdone).mp
    exact hdrains (hdrained fuel x _ hrunning hdone) hproc
  · intro hpending fuel x y hrunning hdone
    obtain ⟨hcursor, hguard⟩ := atCursor_of_running henv hw hrunning
    exact (hcursor.drained_readyBody_iff hguard henv hdone).mpr (hpending fuel x hrunning)

end Rounds

/-! ### Whole calls of `processFdEvents` -/

namespace World

variable {κ : Type*} [EpollKernel κ] {env : Env κ}

/-- If the entry is handled as I/O and its callback returns, then what it has drained is drained
afterwards. -/
def EntryDrained (env : Env κ) (w : World κ) (later : List EpollEvent) (ee : EpollEvent) : Prop :=
  let info := w.ae.fds.fdEventList ee.fd
  let result := (w.callback env (.batch later) (.proc ee.fd ee.aeEvents info)).2
  ¬ ee.IsException info → ee.aeEvents ≠ Mask.none →
    ∀ w', w.dispatchEntry env later ee = .done w' →
      Drained env ee.fd ee.aeEvents result w w'

/-- If the entry is handled as I/O, then its callback returns all of the events it is called for
that were still to be handled before; or nothing of the descriptor is left to be handled. -/
def EntryReturnsPending (env : Env κ) (w : World κ) (later : List EpollEvent) (ee : EpollEvent) :
    Prop :=
  let info := w.ae.fds.fdEventList ee.fd
  let result := (w.callback env (.batch later) (.proc ee.fd ee.aeEvents info)).2
  ¬ ee.IsException info → ee.aeEvents ≠ Mask.none → info.proc ≠ null →
    guess info result = 0 ∨ info.Drains ee.aeEvents result

theorem entryDrained_iff {w : World κ} (henv : env.KeepsRegistrations) (hw : w.ae.fds.WellFormed)
    (later : List EpollEvent) {ee : EpollEvent} (hvalid : w.ae.fds.ValidFd ee.fd) :
    w.EntryDrained env later ee ↔ w.EntryReturnsPending env later ee := by
  unfold EntryDrained EntryReturnsPending
  simp only
  refine forall_congr' fun hexception ↦ forall_congr' fun hio ↦ ?_
  have hiff : ∀ w', w.dispatchEntry env later ee = .done w' →
      (Drained env ee.fd ee.aeEvents
          (w.callback env (.batch later) (.proc ee.fd ee.aeEvents
            (w.ae.fds.fdEventList ee.fd))).2 w w' ↔
        guess (w.ae.fds.fdEventList ee.fd) (w.callback env (.batch later)
            (.proc ee.fd ee.aeEvents (w.ae.fds.fdEventList ee.fd))).2 = 0 ∨
          (w.ae.fds.fdEventList ee.fd).Drains ee.aeEvents (w.callback env (.batch later)
            (.proc ee.fd ee.aeEvents (w.ae.fds.fdEventList ee.fd))).2) := by
    intro w' hdone
    have hwellFormed := (dispatches_dispatchEntry env hw later hvalid).wellFormed
    rw [hdone, Outcome.state_done] at hwellFormed
    obtain ⟨-, heq⟩ := (dispatchEntry_io_iff hexception hio).mp hdone
    refine (drained_iff_drains henv hwellFormed fun hnone hpending ↦ ?_).trans ?_
    · rw [heq, fds_setFds, fdEventList_settleFired, if_pos rfl, henv, hnone]
      change firedAfter _ _ _ &&& _ = 0
      unfold firedAfter
      split_ifs with hguess
      · exact and_not_or_eq_zero hpending (guess_none_and_not _ hpending)
      · rw [hpending]
        exact BitVec.zero_and
    · rw [heq, fds_setFds, henv, drains_settleFired_iff]
  constructor
  · intro hdrained hproc
    have hdone : w.dispatchEntry env later ee = .done _ :=
      (dispatchEntry_io_iff hexception hio).mpr ⟨hproc, rfl⟩
    exact (hiff _ hdone).mp (hdrained _ hdone)
  · intro hpending w' hdone
    exact (hiff w' hdone).mpr (hpending ((dispatchEntry_io_iff hexception hio).mp hdone).1)

/-- What is equivalent for every entry that is dispatched from a well-formed table is so for the
whole batch. -/
theorem everyEntry_congr {P P' : World κ → List EpollEvent → EpollEvent → Prop}
    (hiff : ∀ w later ee, w.ae.fds.WellFormed → w.ae.fds.ValidFd ee.fd →
      (P w later ee ↔ P' w later ee)) : ∀ {batch : List EpollEvent} {w : World κ},
    w.ae.fds.WellFormed → (∀ ee ∈ batch, w.ae.fds.ValidFd ee.fd) →
      (w.EveryEntry env P batch ↔ w.EveryEntry env P' batch) := by
  intro batch
  induction batch with
  | nil => exact fun _ _ ↦ Iff.rfl
  | cons ee later ih =>
    intro w hw hvalid
    obtain ⟨hfirst, hlater⟩ := List.forall_mem_cons.mp hvalid
    refine and_congr (hiff w later ee hw hfirst) (forall_congr' fun w' ↦
      forall_congr' fun hdone ↦ ?_)
    have hentry := dispatches_dispatchEntry env hw later hfirst
    rw [hdone, Outcome.state_done] at hentry
    refine ih hentry.wellFormed fun ee' hee' ↦ ?_
    rw [ValidFd, hentry.fdTableSize]
    exact hlater ee' hee'

/-- From a well-formed table, and with callbacks that do not change the registrations, every result
of an I/O callback drains what the callback has drained: in `processReadyFds` exactly when each
callback returns all of the monitored events that are still to be handled, and in `processFdEvents`
exactly when each callback returns those of the events it is called for that were still to be
handled, or leaves nothing to be handled. -/
theorem drained_iff (env : Env κ) (henv : env.KeepsRegistrations) (w : World κ)
    (hw : w.ae.fds.WellFormed) :
    ((∀ fuel x y, processReadyFds env fuel w = .running x → readyBody env x = .done y →
          Drained env x.fd x.info.alreadyFired (x.returned env).2 x.world y.world) ↔
        ∀ fuel x, processReadyFds env fuel w = .running x → x.ReturnsPending env) ∧
      ∀ timeoutMs batch, env.epollWait w timeoutMs = some batch →
        (∀ ee ∈ batch, w.ae.fds.ValidFd ee.fd) →
        ((w.record (.waited timeoutMs (some batch))).EveryEntry env (EntryDrained env) batch ↔
          (w.record (.waited timeoutMs (some batch))).EveryEntry env (EntryReturnsPending env)
            batch) :=
  ⟨processReadyFds_drained_iff henv hw, fun timeoutMs batch _ hvalid ↦
    everyEntry_congr (fun _ later _ hw' hvalid' ↦ entryDrained_iff henv hw' later hvalid')
      (w := w.record (.waited timeoutMs (some batch))) hw hvalid⟩

end World

/-! ### Runs of `eventLoop` -/

/-- `epoll_wait` has reported something for the descriptor. -/
def Record.Reports (fd : ℤ) : Record → Prop
  | .waited _ (some batch) => ∃ ee ∈ batch, ee.fd = fd
  | _ => False

namespace World

variable {κ : Type*} [EpollKernel κ] {env : Env κ}

/-- One of the records that have been added satisfies a predicate. -/
def Witnesses (Q : Record → Prop) (w w' : World κ) : Prop :=
  ∃ new, w'.log = new ++ w.log ∧ ∃ r ∈ new, Q r

/-- Since `w` the log has grown, and something has been reported for the descriptor, or all that has
happened are steps that have nothing to do with it. -/
structure Quiet (env : Env κ) (fd : ℤ) (w w' : World κ) : Prop where
  adds : Adds (fun _ ↦ True) w w'
  steps : w.Witnesses (Record.Reports fd) w' ∨ Relation.ReflTransGen (QuietStep env fd) w w'

variable {fd : ℤ} {w w' w'' : World κ}

omit [EpollKernel κ] in
theorem Witnesses.adds {Q : Record → Prop} (h : w.Witnesses Q w')
    (hadds : Adds (fun _ ↦ True) w' w'') : w.Witnesses Q w'' := by
  obtain ⟨new, hlog, r, hr, hQ⟩ := h
  obtain ⟨new', hlog', -⟩ := hadds
  exact ⟨new' ++ new, by rw [hlog', hlog, List.append_assoc], r, List.mem_append_right _ hr, hQ⟩

theorem Quiet.refl (w : World κ) : Quiet env fd w w := ⟨.refl w, Or.inr .refl⟩

theorem Quiet.tail (h : Quiet env fd w w') (hadds : Adds (fun _ ↦ True) w' w'')
    (hstep : w.Witnesses (Record.Reports fd) w'' ∨ QuietStep env fd w' w'') :
    Quiet env fd w w'' := by
  refine ⟨h.adds.trans hadds, ?_⟩
  rcases h.steps with hreported | hquiet
  · exact Or.inl (hreported.adds hadds)
  · exact hstep.imp_right hquiet.tail

theorem adds_true_callback (env : Env κ) (site : Site) (w : World κ) (invocation : Invocation) :
    Adds (fun _ ↦ True) w (w.callback env site invocation).1 :=
  adds_callback (fun _ ↦ trivial) (fun _ _ _ _ ↦ trivial) (fun _ _ ↦ trivial) trivial
    (fun _ _ ↦ trivial) w

theorem Quiet.record (h : Quiet env fd w w') (r : Record) : Quiet env fd w (w'.record r) :=
  h.tail (adds_record w' trivial) (Or.inr (.exchange w' r))

theorem Quiet.nearestTimeEvent (h : Quiet env fd w w') :
    Quiet env fd w (w'.nearestTimeEvent env).2 := by
  unfold World.nearestTimeEvent
  split_ifs
  · exact h.record _
  · exact h

theorem Quiet.processReadyFds (h : Quiet env fd w w') (fuel : ℕ) :
    Quiet env fd w (processReadyFds env fuel w').state.world := by
  refine (whileLoop_state (I := fun x : ReadyLoop κ ↦ 0 ≤ x.idx ∧ Quiet env fd w x.world)
    (fun x hx hguard ↦ ⟨?_, hx.2.tail ?_ (Or.inr (.ready x hx.1 hguard))⟩) fuel ⟨0, 0, w'⟩
    ⟨le_rfl, h⟩).2
  · refine invoke_state (P := fun y : ReadyLoop κ ↦ 0 ≤ y.idx) hx.1 ?_
    have := hx.1
    dsimp only
    split_ifs <;> omega
  · exact invoke_state (P := fun y : ReadyLoop κ ↦ Adds (fun _ ↦ True) x.world y.world)
      (adds_record x.reading trivial) (adds_true_callback env (.ready x.idx) x.reading x.invocation)

theorem Quiet.processTimeEvents (h : Quiet env fd w w') (fuel : ℕ) :
    Quiet env fd w (processTimeEvents env fuel w').state.world := by
  refine whileLoop_state (I := fun x : TimeLoop κ ↦ Quiet env fd w x.world)
    (fun x hx _ ↦ hx.tail ?_ (Or.inr (.timer x))) fuel _ (h.record _)
  unfold timeBody
  split_ifs
  · exact invoke_state (P := fun y : TimeLoop κ ↦ Adds (fun _ ↦ True) x.world y.world)
      (adds_record x.reading trivial)
      (adds_true_callback env (.timer x.i) x.reading (.timeProc x.event))
  · exact .refl x.world

theorem adds_dispatchEntry (env : Env κ) (w : World κ) (later : List EpollEvent) (ee : EpollEvent) :
    Adds (fun _ ↦ True) w (w.dispatchEntry env later ee).state := by
  unfold dispatchEntry
  simp only
  split_ifs
  · exact invoke_state (adds_record w trivial) (adds_true_callback ..)
  · exact invoke_state (adds_record w trivial) (adds_true_callback env _ w _)
  · exact .refl w

theorem validFd_dispatchEntry (env : Env κ) (w : World κ) (later : List EpollEvent)
    (ee : EpollEvent) (fd : ℤ) :
    (w.dispatchEntry env later ee).state.ae.fds.ValidFd fd ↔ w.ae.fds.ValidFd fd := by
  have hcallback : ∀ invocation,
      (w.callback env (.batch later) invocation).1.ae.fds.fdTableSize = w.ae.fds.fdTableSize :=
    fun invocation ↦ changes_fdTableSize (changes_callback env (.batch later) w invocation)
  suffices hsize : (w.dispatchEntry env later ee).state.ae.fds.fdTableSize =
      w.ae.fds.fdTableSize by rw [ValidFd, ValidFd, hsize]
  unfold dispatchEntry
  simp only
  split_ifs
  · exact invoke_state (P := fun w' : World κ ↦ w'.ae.fds.fdTableSize = w.ae.fds.fdTableSize) rfl
      (hcallback _)
  · exact invoke_state (P := fun w' : World κ ↦ w'.ae.fds.fdTableSize = w.ae.fds.fdTableSize) rfl
      (fdTableSize_settleFired.trans (hcallback _))
  · rfl

/-- A batch in which nothing is reported for the descriptor, or something has been. -/
theorem Quiet.dispatchBatch : ∀ {batch : List EpollEvent} {w' : World κ}, Quiet env fd w w' →
    (∀ ee ∈ batch, w'.ae.fds.ValidFd ee.fd) →
    (w.Witnesses (Record.Reports fd) w' ∨ ∀ ee ∈ batch, ee.fd ≠ fd) →
      Quiet env fd w (w'.dispatchBatch env batch).state := by
  intro batch
  induction batch with
  | nil => exact fun h _ _ ↦ h
  | cons ee later ih =>
    intro w' h hvalid hother
    have hadds := adds_dispatchEntry env w' later ee
    have hentry : Quiet env fd w (w'.dispatchEntry env later ee).state := by
      refine h.tail hadds ?_
      rcases hother with hreported | hother
      · exact Or.inl (hreported.adds hadds)
      · exact Or.inr (.entry w' later ee (hother ee List.mem_cons_self)
          (hvalid ee List.mem_cons_self))
    refine Outcome.state_andThen hentry fun w'' hw'' ↦ ?_
    have hsize := validFd_dispatchEntry env w' later ee
    rw [hw''] at hentry hsize hadds
    refine ih hentry (fun ee' hee' ↦ ?_) ?_
    · exact (hsize ee'.fd).mpr (hvalid ee' (List.mem_cons_of_mem ee hee'))
    · exact hother.imp (fun hreported ↦ hreported.adds hadds) fun hother ee' hee' ↦
        hother ee' (List.mem_cons_of_mem ee hee')

theorem Quiet.processFdEvents (h : Quiet env fd w w') {timeoutMs : ℤ}
    (hvalid : ∀ batch, env.epollWait w' timeoutMs = some batch →
      ∀ ee ∈ batch, w'.ae.fds.ValidFd ee.fd) :
    Quiet env fd w (w'.processFdEvents env timeoutMs).state.2 := by
  unfold World.processFdEvents
  cases hfired : env.epollWait w' timeoutMs with
  | none => exact h.record _
  | some batch =>
    simp only [Outcome.state_map]
    refine Quiet.dispatchBatch (h.record _) (hvalid batch hfired) ?_
    by_cases hreports : ∃ ee ∈ batch, ee.fd = fd
    · obtain ⟨new, hlog, -⟩ := h.adds
      exact Or.inl ⟨.waited timeoutMs (some batch) :: new, congrArg (_ :: ·) hlog, _,
        List.mem_cons_self, hreports⟩
    · exact Or.inr fun ee hee hfd ↦ hreports ⟨ee, hee, hfd⟩

/-- At every moment of a run of `eventLoop`, `epoll_wait` has reported something for the descriptor,
or the run so far consists of steps that have nothing to do with it. -/
theorem quiet_eventLoop (env : Env κ) (hvalid : ∀ w timeoutMs batch,
      env.epollWait w timeoutMs = some batch → ∀ ee ∈ batch, w.ae.fds.ValidFd ee.fd)
    (fd : ℤ) (w : World κ) (rounds fuel : ℕ) :
    Quiet env fd w (eventLoop env rounds fuel w).state := by
  refine whileLoop_state (I := Quiet env fd w) (fun w' (h : Quiet env fd w w') _ ↦ ?_) rounds w
    (.refl w)
  refine Outcome.state_map_andThen (h.processReadyFds fuel) fun hready ↦ ?_
  refine Outcome.state_map_andThen (hready.nearestTimeEvent.processFdEvents (hvalid _ _))
    fun hfds ↦ ?_
  rw [Outcome.state_map]
  exact hfds.processTimeEvents fuel

/-- A descriptor of which nothing is to be handled is not listed at any moment of a run of
`eventLoop` before `epoll_wait` reports something for it. -/
theorem not_listed_eventLoop (env : Env κ) (henv : env.KeepsRegistrations)
    (hvalid : ∀ w timeoutMs batch, env.epollWait w timeoutMs = some batch →
      ∀ ee ∈ batch, w.ae.fds.ValidFd ee.fd)
    (fd : ℤ) (w : World κ) (hidle : w.ae.fds.Idle fd) (rounds fuel : ℕ) :
    w.Witnesses (Record.Reports fd) (eventLoop env rounds fuel w).state ∨
      ¬ (eventLoop env rounds fuel w).state.ae.fds.Listed fd :=
  (quiet_eventLoop env hvalid fd w rounds fuel).steps.imp_right (not_listed_of_quiet henv hidle)

/-! ### Descriptors with input still to be handled -/

/-- The callback of descriptor 3, for which input is not monitored any more, drains it; the one of
descriptor 4 leaves its input for later. More input is reported for both. -/
theorem drained_twoPendingWorld :
    let batch : List EpollEvent := [⟨epollIn, 3⟩, ⟨epollIn, 4⟩]
    let env : Env InterestSet :=
      { reactingEnv fun fd ↦ ⟨[], if fd = 3 then Mask.none else Mask.readable⟩ with
        epollWait := fun _ _ ↦ some batch }
    (∀ fuel x y, processReadyFds env fuel twoPendingWorld = .running x →
      readyBody env x = .done y →
        Drained env x.fd x.info.alreadyFired (x.returned env).2 x.world y.world) ∧
      (twoPendingWorld.record (.waited 0 (some batch))).EveryEntry env (EntryDrained env)
        batch := by
  intro batch env
  have henv : env.KeepsRegistrations := fun _ _ invocation ↦ by cases invocation <;> rfl
  obtain ⟨hready, hfds⟩ := drained_iff env henv twoPendingWorld wellFormed_twoPendingWorld
  refine ⟨hready.mpr fun fuel x hrunning _ ↦ ?_, (hfds 0 batch rfl ?_).mpr ?_⟩
  · obtain rfl : (processReadyFds env fuel twoPendingWorld).state = x :=
      congrArg Outcome.state hrunning
    obtain rfl | rfl | hfuel : fuel = 0 ∨ fuel = 1 ∨ 2 ≤ fuel := by omega
    · decide
    · decide
    · have hended := processReadyFds_ended env twoPendingWorld fuel
        (by change (2 : ℤ) ≤ _; omega)
      rw [hrunning] at hended
      exact absurd hended (Outcome.not_ended_running _)
  · intro ee hee
    obtain rfl | rfl : ee = ⟨epollIn, 3⟩ ∨ ee = ⟨epollIn, 4⟩ := by simpa [batch] using hee
    all_goals decide
  · refine ⟨fun _ _ _ ↦ Or.inl (by decide), fun w' hdone ↦ ⟨fun _ _ _ ↦ Or.inr ?_, ?_⟩⟩
    · obtain rfl := congrArg Outcome.state hdone
      decide
    · exact fun _ _ ↦ trivial

/-- The input that is still to be handled for descriptor 3 is drained by a callback that returns
`NONE`, in `processReadyFds` as well as in `processFdEvents` when more of it arrives. It is still to
be handled afterwards. -/
theorem not_drained_pendingWorld :
    let batch : List EpollEvent := [⟨epollIn, 3⟩]
    let env : Env InterestSet :=
      { constantEnv [] Mask.none with epollWait := fun _ _ ↦ some batch }
    let start : ReadyLoop InterestSet := ⟨0, 0, pendingWorld⟩
    let waited := pendingWorld.record (.waited 0 (some batch))
    pendingWorld.ae.fds.WellFormed ∧ env.KeepsRegistrations ∧
      ((readyBody env start).state.world.ae.fds.fdEventList 3).alreadyFired = Mask.readable ∧
      ¬ (∀ fuel x y, processReadyFds env fuel pendingWorld = .running x →
        readyBody env x = .done y →
          Drained env x.fd x.info.alreadyFired (x.returned env).2 x.world y.world) ∧
      ((waited.dispatchBatch env batch).state.ae.fds.fdEventList 3).alreadyFired =
        Mask.readable ∧
      ¬ waited.EveryEntry env (EntryDrained env) batch := by
  intro batch env start waited
  refine ⟨wellFormed_pendingWorld, fun _ _ _ ↦ rfl, by decide, fun h ↦ ?_, by decide, fun h ↦ ?_⟩
  · exact absurd (h 0 start (start.resumed env) rfl rfl).drains (by decide)
  · exact absurd (h.1 (fun hexception ↦ hexception.2 rfl) (by decide) _ rfl).drains (by decide)

end World

end Nebula.Async
