import Nebula.Async.ReadyDispatch

/-!
`processFdEvents`: the entries of one `epoll_wait` batch are dispatched one after the other, each by
the row its descriptor has at that moment. What an I/O callback returns is added to the events
still to be handled, which may append the descriptor to the ready list or drop it from there.

The ready list survives every batch, whatever the callbacks do (`dispatchBatch_wellFormed`): the
events to be handled are read after the callback has returned, and together with the list they are
only ever changed for the descriptor that is being dispatched. The append stays inside the array
because a descriptor that has no events to be handled is not among the listed ones
(`Sound.inBounds_push`). `processFdEvents_wellFormed` puts this together with what single
operations do, and with what becomes of the result of each callback.
-/

set_option autoImplicit false
set_option relaxedAutoImplicit false

namespace Nebula.Async

open Nebula.Library

/-- The events of a batch entry that are handled as I/O. -/
def EpollEvent.aeEvents (ee : EpollEvent) : Mask :=
  let aeEvents := Mask.none
  let aeEvents := if ee.events &&& epollIn ≠ 0 then aeEvents ||| Mask.readable else aeEvents
  if ee.events &&& epollOut ≠ 0 then aeEvents ||| Mask.writable else aeEvents

/-- The events of a batch entry that are left when the I/O events have been taken out. -/
def EpollEvent.otherEvents (ee : EpollEvent) : Mask :=
  let events := ee.events
  let events := if ee.events &&& epollIn ≠ 0 then events &&& ~~~epollIn else events
  if ee.events &&& epollOut ≠ 0 then events &&& ~~~epollOut else events

/-- The entry is handled as an exception on the descriptor. -/
def EpollEvent.IsException (ee : EpollEvent) (info : FdEventInfo) : Prop :=
  ee.otherEvents &&& (epollHup ||| epollErr) ≠ 0 ∧ info.procExp ≠ null

namespace FdTable

/-- What `processFdEvents` makes of the result of the callback it called for `aeEvents`. -/
def settleFired (t : FdTable) (fd : ℤ) (aeEvents result : Mask) : FdTable :=
  let info := t.fdEventList fd
  if guess info result ≠ 0 then
    (if info.alreadyFired = 0 then t.pushReady fd else t).setInfo fd
      { info with alreadyFired := info.alreadyFired ||| guess info result }
  else if info.alreadyFired ≠ 0 then
    let rest := info.alreadyFired &&& ~~~aeEvents
    let t := t.setInfo fd { info with alreadyFired := rest }
    if rest = 0 then t.dropReady fd else t
  else t

end FdTable

namespace World

variable {κ : Type*} [EpollKernel κ]

/-- The body of the loop over the batch, with the entries that come after this one. -/
def dispatchEntry (env : Env κ) (later : List EpollEvent) (w : World κ) (ee : EpollEvent) :
    Outcome (World κ) :=
  let info := w.ae.fds.fdEventList ee.fd
  if ee.otherEvents &&& (epollHup ||| epollErr) ≠ 0 ∧ info.procExp ≠ null then
    w.invoke env (.batch later) (.procExp ee.fd info) id fun w _ ↦ w
  else if ee.aeEvents ≠ Mask.none then
    w.invoke env (.batch later) (.proc ee.fd ee.aeEvents info) id fun w result ↦
      w.setFds (w.ae.fds.settleFired ee.fd ee.aeEvents result)
  else .done w

def dispatchBatch (env : Env κ) : World κ → List EpollEvent → Outcome (World κ)
  | w, [] => .done w
  | w, ee :: later =>
      (w.dispatchEntry env later ee).andThen fun w ↦ dispatchBatch env w later

/-- `processFdEvents`; it returns what `epoll_wait` returned. -/
def processFdEvents (env : Env κ) (w : World κ) (timeoutMs : ℤ) : Outcome (ℤ × World κ) :=
  let fired := env.epollWait w timeoutMs
  let w := w.record (.waited timeoutMs fired)
  match fired with
  | none => .done (-1, w)
  | some batch => (w.dispatchBatch env batch).map fun w ↦ (batch.length, w)

end World

/-! ### Taking a result into account -/

namespace FdTable

variable {t : FdTable} {fd : ℤ} {aeEvents result : Mask}

theorem fdTableSize_settleFired :
    (t.settleFired fd aeEvents result).fdTableSize = t.fdTableSize := by
  unfold settleFired
  simp only
  split_ifs <;> rfl

theorem numMonitoredFds_settleFired :
    (t.settleFired fd aeEvents result).numMonitoredFds = t.numMonitoredFds := by
  unfold settleFired
  simp only
  split_ifs <;> rfl

/-- The events of a row that are still to be handled after a callback for `aeEvents` has returned
`result`. -/
def firedAfter (info : FdEventInfo) (aeEvents result : Mask) : Mask :=
  if guess info result ≠ 0 then info.alreadyFired ||| guess info result
  else info.alreadyFired &&& ~~~aeEvents

/-- Only the events still to be handled of the one descriptor change. -/
theorem fdEventList_settleFired (fd' : ℤ) :
    (t.settleFired fd aeEvents result).fdEventList fd' =
      if fd' = fd then
        { t.fdEventList fd with alreadyFired := firedAfter (t.fdEventList fd) aeEvents result }
      else t.fdEventList fd' := by
  unfold settleFired firedAfter
  simp only
  by_cases hguess : guess (t.fdEventList fd) result ≠ 0
  · rw [if_pos hguess, if_pos hguess, fdEventList_setInfo]
    congr 1
    split_ifs <;> rfl
  · rw [if_neg hguess, if_neg hguess]
    by_cases hfired : (t.fdEventList fd).alreadyFired ≠ 0
    · rw [if_pos hfired]
      split_ifs with hrest heq heq
      all_goals simp [heq]
    · rw [if_neg hfired]
      have hnone : (t.fdEventList fd).alreadyFired &&& ~~~aeEvents =
          (t.fdEventList fd).alreadyFired := by
        rw [not_not.mp hfired]
        exact BitVec.zero_and
      split_ifs with heq
      · rw [heq, hnone]
      · rfl

theorem monitored_settleFired (fd' : ℤ) :
    ((t.settleFired fd aeEvents result).fdEventList fd').monitored =
      (t.fdEventList fd').monitored := by
  rw [fdEventList_settleFired]
  split_ifs with heq
  · rw [heq]
  · rfl

/-- What the callback returned is still to be handled, as far as it is monitored. -/
theorem result_firedAfter (info : FdEventInfo) (aeEvents result : Mask) :
    result &&& info.monitored &&& ~~~firedAfter info aeEvents result = 0 := by
  unfold firedAfter
  by_cases hguess : guess info result ≠ 0
  · rw [if_pos hguess]
    unfold guess
    ext i hi
    simp only [BitVec.getElem_and, BitVec.getElem_not, BitVec.getElem_or]
    grind
  · have hbits : result &&& info.monitored = 0 := by
      have hzero : guess info result = 0 := by simpa using hguess
      ext i hi
      have hbit := congrArg (fun mask : Mask ↦ mask[i]) hzero
      simp only [guess, BitVec.getElem_and, BitVec.getElem_or] at hbit ⊢
      grind
    rw [hbits, BitVec.ofNat_eq_ofNat, BitVec.zero_and]

/-- A descriptor that is not listed finds room at the end of the list. -/
theorem Sound.inBounds_push (h : t.Sound) (hvalid : t.ValidFd fd) (hnot : ¬ t.Listed fd) :
    t.listOfReadyFds.InBounds t.numReadyFds := by
  refine ⟨h.keyed.nonneg, ?_⟩
  rw [h.size_eq]
  exact h.keyed.lt_of_not_holds (fun i hi hlt ↦ h.valid _ ⟨i, hi, hlt, rfl⟩) hvalid.1 hvalid.2 hnot

theorem listed_pushReady (h : t.Sound) {fd' : ℤ} :
    (t.pushReady fd).Listed fd' ↔ t.Listed fd' ∨ fd' = fd :=
  Buffer.holds_push h.keyed.nonneg

/-- Appending a descriptor together with events to be handled. -/
theorem Sound.pushReady (h : t.Sound) (hvalid : t.ValidFd fd) (hnot : ¬ t.Listed fd)
    {info : FdEventInfo} (hfired : info.alreadyFired ≠ 0) :
    ((t.pushReady fd).setInfo fd info).Sound where
  size_eq := h.size_eq
  keyed := h.keyed.push (h.inBounds_push hvalid hnot).2
    fun i hi hlt heq ↦ hnot ⟨i, hi, hlt, heq⟩
  valid := by
    intro fd' hlisted
    rcases (listed_pushReady h).mp hlisted with hold | rfl
    · exact h.valid fd' hold
    · exact hvalid
  fired := by
    intro fd' hlisted
    rw [fdEventList_setInfo]
    split_ifs with heq
    · exact hfired
    · exact h.fired fd' (((listed_pushReady h).mp hlisted).resolve_right heq)

/-- Taking a result into account keeps the list sound: the descriptor is appended when it gets
events to be handled, and dropped when it has none left. -/
theorem Sound.settleFired (h : t.Sound) (hvalid : t.ValidFd fd) :
    (t.settleFired fd aeEvents result).Sound := by
  unfold FdTable.settleFired
  simp only
  split_ifs with hguess hfired hfired hrest
  · have hnot : ¬ t.Listed fd := fun hlisted ↦ h.fired fd hlisted hfired
    exact h.pushReady hvalid hnot fun hor ↦ hguess (BitVec.or_eq_zero_iff.mp hor).2
  · exact h.setInfo fun _ hor ↦ hguess (BitVec.or_eq_zero_iff.mp hor).2
  · have hnot : ¬ (t.dropReady fd).Listed fd := fun hfd ↦ ((listed_dropReady h.keyed).mp hfd).2 rfl
    exact (h.dropReady fd).setInfo fun hfd ↦ absurd hfd hnot
  · exact h.setInfo fun _ ↦ hrest
  · exact h

/-- The descriptors listed after a result has been taken into account: only the one it is about may
have changed. -/
theorem Sound.listed_settleFired (h : t.Sound) {fd' : ℤ} :
    (t.settleFired fd aeEvents result).Listed fd' ↔
      if fd' = fd then
        if guess (t.fdEventList fd) result ≠ 0 then
          t.Listed fd ∨ (t.fdEventList fd).alreadyFired = 0
        else t.Listed fd ∧ (t.fdEventList fd).alreadyFired &&& ~~~aeEvents ≠ 0
      else t.Listed fd' := by
  unfold FdTable.settleFired
  simp only
  by_cases hguess : guess (t.fdEventList fd) result ≠ 0
  · rw [if_pos hguess, listed_setInfo, if_pos hguess]
    split_ifs with hfired heq heq
    · rw [listed_pushReady h, heq]
      exact iff_of_true (Or.inr rfl) (Or.inr hfired)
    · rw [listed_pushReady h]
      exact or_iff_left heq
    · rw [heq]
      exact (or_iff_left hfired).symm
    · rfl
  · rw [if_neg hguess, if_neg hguess]
    by_cases hfired : (t.fdEventList fd).alreadyFired ≠ 0
    · rw [if_pos hfired]
      by_cases hrest : (t.fdEventList fd).alreadyFired &&& ~~~aeEvents = 0
      · rw [if_pos hrest]
        change (t.dropReady fd).Listed fd' ↔ _
        rw [listed_dropReady h.keyed]
        split_ifs with heq
        · exact iff_of_false (fun hfd ↦ hfd.2 heq) (fun hfd ↦ hfd.2 hrest)
        · exact and_iff_left heq
      · rw [if_neg hrest, listed_setInfo]
        split_ifs with heq
        · rw [heq]
          exact (and_iff_left hrest).symm
        · rfl
    · have hnot : ¬ t.Listed fd := fun hlisted ↦ hfired (h.fired fd hlisted)
      rw [if_neg hfired]
      split_ifs with heq
      · rw [heq]
        exact iff_of_false hnot fun hfd ↦ hnot hfd.1
      · rfl

/-- If the list is complete before, it is complete after a result has been taken into account. -/
theorem WellFormed.settleFired (h : t.WellFormed) (hvalid : t.ValidFd fd) :
    (t.settleFired fd aeEvents result).WellFormed where
  toSound := h.toSound.settleFired hvalid
  listed := by
    intro fd' hvalid' hne
    rw [fdEventList_settleFired] at hne
    rw [h.toSound.listed_settleFired]
    split_ifs at hne ⊢ with heq hguess
    · exact or_iff_not_imp_right.mpr (h.listed fd hvalid)
    · rw [firedAfter, if_neg hguess] at hne
      refine ⟨h.listed fd hvalid fun hzero ↦ hne ?_, hne⟩
      rw [hzero]
      exact BitVec.zero_and
    · exact h.listed fd' (by rwa [ValidFd, fdTableSize_settleFired] at hvalid') hne
  monitored := by
    intro fd' hvalid' hne
    rw [monitored_settleFired]
    rw [fdEventList_settleFired] at hne
    split_ifs at hne with heq
    · subst heq
      by_cases hguess : guess (t.fdEventList fd') result ≠ 0
      · exact monitored_of_guess (t.fdEventList fd') result hguess
      · rw [firedAfter, if_neg hguess] at hne
        refine h.monitored fd' hvalid fun hzero ↦ hne ?_
        rw [hzero]
        exact BitVec.zero_and
    · exact h.monitored fd' (by rwa [ValidFd, fdTableSize_settleFired] at hvalid') hne

/-- No slot outside the array is accessed. -/
theorem Sound.strayed_settleFired (h : t.Sound) (hvalid : t.ValidFd fd) :
    (t.settleFired fd aeEvents result).listOfReadyFds.strayed = t.listOfReadyFds.strayed := by
  unfold FdTable.settleFired
  simp only
  split_ifs with hguess hfired hfired hrest
  · have hnot : ¬ t.Listed fd := fun hlisted ↦ h.fired fd hlisted hfired
    exact Buffer.strayed_write_of_inBounds (h.inBounds_push hvalid hnot) fd
  · rfl
  · exact strayed_dropReady h fd
  · rfl
  · rfl

/-- Once the result is taken into account, what the callback returned is still to be handled, as far
as it is monitored. -/
theorem result_settleFired :
    result &&& ((t.settleFired fd aeEvents result).fdEventList fd).monitored &&&
      ~~~((t.settleFired fd aeEvents result).fdEventList fd).alreadyFired = 0 := by
  rw [fdEventList_settleFired, if_pos rfl]
  exact result_firedAfter (t.fdEventList fd) aeEvents result

end FdTable

/-! ### The whole batch -/

namespace World

variable {κ : Type*}

/-- The log has grown by records that satisfy a predicate. -/
def Adds (Q : Record → Prop) (w w' : World κ) : Prop :=
  ∃ new, w'.log = new ++ w.log ∧ ∀ r ∈ new, Q r

theorem Adds.refl {Q : Record → Prop} (w : World κ) : Adds Q w w :=
  ⟨[], rfl, fun _ hr ↦ absurd hr List.not_mem_nil⟩

theorem Adds.trans {Q : Record → Prop} {w w' w'' : World κ} (h : Adds Q w w')
    (h' : Adds Q w' w'') : Adds Q w w'' := by
  obtain ⟨new, hlog, hnew⟩ := h
  obtain ⟨new', hlog', hnew'⟩ := h'
  refine ⟨new' ++ new, by rw [hlog', hlog, List.append_assoc], fun r hr ↦ ?_⟩
  exact (List.mem_append.mp hr).elim (hnew' r) (hnew r)

theorem adds_record {Q : Record → Prop} (w : World κ) {r : Record} (hr : Q r) :
    Adds Q w (w.record r) :=
  ⟨[r], rfl, fun _ hmem ↦ List.mem_singleton.mp hmem ▸ hr⟩

variable [EpollKernel κ] {env : Env κ}

/-- Calls record nothing but readings of the clock and what they do about time events. -/
theorem adds_call {Q : Record → Prop} (hclock : ∀ now, Q (.clock now))
    (hadded : ∀ msLater proc data id, Q (.added msLater proc data id))
    (hdeleted : ∀ id status, Q (.deleted id status)) (w : World κ) (c : Call) :
    Adds Q w (w.call env c).2 := by
  cases c with
  | addTimeEvent msLater proc data =>
    simp only [call, addTimeEvent]
    split
    · exact adds_record w (hadded ..)
    · exact (adds_record w (hclock (env.clock w))).trans (adds_record _ (hadded ..))
  | delTimeEvent id => exact adds_record (w.setTimes _) (hdeleted ..)
  | _ => exact .refl w

theorem adds_callback {Q : Record → Prop} {invocation : Invocation} {site : Site}
    (hclock : ∀ now, Q (.clock now))
    (hadded : ∀ msLater proc data id, Q (.added msLater proc data id))
    (hdeleted : ∀ id status, Q (.deleted id status)) (hcalled : Q (.called invocation))
    (hreturned : ∀ result ae, Q (.returned invocation site result ae)) (w : World κ) :
    Adds Q w (w.callback env site invocation).1 := by
  have hcalls := runCalls_induction env (P := Adds Q (w.record (.called invocation)))
    (fun w' c h ↦ h.trans (adds_call hclock hadded hdeleted w' c))
    (env.react (w.record (.called invocation)) invocation).calls
    (w.record (.called invocation)) (.refl _)
  exact ((adds_record w hcalled).trans hcalls).trans (adds_record _ (hreturned ..))

/-- What is kept from the state before the batch to any moment of it: the list is well-formed, and
all accesses to it were inside the array. -/
structure Dispatches (w w' : World κ) : Prop where
  wellFormed : w'.ae.fds.WellFormed
  strayed : w'.ae.fds.listOfReadyFds.strayed = w.ae.fds.listOfReadyFds.strayed
  fdTableSize : w'.ae.fds.fdTableSize = w.ae.fds.fdTableSize

omit [EpollKernel κ] in
theorem Dispatches.trans {w w' w'' : World κ} (h : Dispatches w w') (h' : Dispatches w' w'') :
    Dispatches w w'' where
  wellFormed := h'.wellFormed
  strayed := h'.strayed.trans h.strayed
  fdTableSize := h'.fdTableSize.trans h.fdTableSize

omit [EpollKernel κ] in
theorem dispatches_record {w : World κ} (h : w.ae.fds.WellFormed) (r : Record) :
    Dispatches w (w.record r) :=
  ⟨h, rfl, rfl⟩

variable (env) in
theorem dispatches_callback {w : World κ} (h : w.ae.fds.WellFormed) (site : Site)
    (invocation : Invocation) : Dispatches w (w.callback env site invocation).1 := by
  have hchanges := changes_callback env site w invocation
  exact ⟨h.changes hchanges, h.toSound.strayed_changes hchanges,
    FdTable.changes_fdTableSize hchanges⟩

omit [EpollKernel κ] in
theorem dispatches_settle {w : World κ} (h : w.ae.fds.WellFormed) {fd : ℤ}
    (hvalid : w.ae.fds.ValidFd fd) (aeEvents result : Mask) :
    Dispatches w (w.setFds (w.ae.fds.settleFired fd aeEvents result)) :=
  ⟨h.settleFired hvalid, h.toSound.strayed_settleFired hvalid, FdTable.fdTableSize_settleFired⟩

variable (env) in
/-- One entry of the batch. -/
theorem dispatches_dispatchEntry {w : World κ} (h : w.ae.fds.WellFormed) (later : List EpollEvent)
    {ee : EpollEvent} (hvalid : w.ae.fds.ValidFd ee.fd) :
    Dispatches w (w.dispatchEntry env later ee).state := by
  unfold dispatchEntry
  simp only
  split_ifs with hexception hio
  · exact invoke_state (dispatches_record h _) (dispatches_callback env h _ _)
  · refine invoke_state (dispatches_record h _) ?_
    have hcallback := dispatches_callback env h (.batch later)
      (.proc ee.fd ee.aeEvents (w.ae.fds.fdEventList ee.fd))
    refine hcallback.trans (dispatches_settle hcallback.wellFormed ?_ _ _)
    rwa [FdTable.ValidFd, hcallback.fdTableSize]
  · exact ⟨h, rfl, rfl⟩

/-- Every moment of the dispatch of a batch. -/
theorem dispatches_dispatchBatch : ∀ {batch : List EpollEvent} {w : World κ},
    w.ae.fds.WellFormed → (∀ ee ∈ batch, w.ae.fds.ValidFd ee.fd) →
      Dispatches w (w.dispatchBatch env batch).state := by
  intro batch
  induction batch with
  | nil => exact fun {w} h _ ↦ ⟨h, rfl, rfl⟩
  | cons ee later ih =>
    intro w h hvalid
    have hentry := dispatches_dispatchEntry env h later (hvalid ee (List.mem_cons_self ..))
    refine Outcome.state_andThen hentry fun w' hw' ↦ ?_
    rw [hw'] at hentry
    refine hentry.trans (ih hentry.wellFormed fun ee' hee' ↦ ?_)
    rw [FdTable.ValidFd, hentry.fdTableSize]
    exact hvalid ee' (List.mem_cons_of_mem ee hee')

/-- Every entry of the batch that is dispatched has the property, in the world that it is dispatched
in and with the entries that come after it. -/
def EveryEntry (env : Env κ) (P : World κ → List EpollEvent → EpollEvent → Prop) :
    World κ → List EpollEvent → Prop
  | _, [] => True
  | w, ee :: later =>
      P w later ee ∧ ∀ w', w.dispatchEntry env later ee = .done w' → EveryEntry env P w' later

theorem everyEntry_of_forall {P : World κ → List EpollEvent → EpollEvent → Prop}
    (h : ∀ w later ee, P w later ee) : ∀ (batch : List EpollEvent) (w : World κ),
      w.EveryEntry env P batch := by
  intro batch
  induction batch with
  | nil => exact fun _ ↦ trivial
  | cons ee later ih => exact fun w ↦ ⟨h w later ee, fun w' _ ↦ ih w'⟩

/-- If the entry is handled as I/O, then afterwards all that its callback returned is among the
events still to be handled for the descriptor, as far as it is monitored when the callback
returns. -/
def EntryKeepsResult (env : Env κ) (w : World κ) (later : List EpollEvent) (ee : EpollEvent) :
    Prop :=
  let info := w.ae.fds.fdEventList ee.fd
  let returned := w.callback env (.batch later) (.proc ee.fd ee.aeEvents info)
  ¬ ee.IsException info → ee.aeEvents ≠ Mask.none →
    ∀ w', w.dispatchEntry env later ee = .done w' →
      returned.2 &&& (returned.1.ae.fds.fdEventList ee.fd).monitored &&&
        ~~~(w'.ae.fds.fdEventList ee.fd).alreadyFired = 0

/-- An entry that is handled as I/O returns if there is a callback, with its result taken into
account. -/
theorem dispatchEntry_io_iff {w w' : World κ} {later : List EpollEvent} {ee : EpollEvent}
    (hexception : ¬ ee.IsException (w.ae.fds.fdEventList ee.fd)) (hio : ee.aeEvents ≠ Mask.none) :
    let returned := w.callback env (.batch later)
      (.proc ee.fd ee.aeEvents (w.ae.fds.fdEventList ee.fd))
    w.dispatchEntry env later ee = .done w' ↔
      (w.ae.fds.fdEventList ee.fd).proc ≠ null ∧
        w' = returned.1.setFds (returned.1.ae.fds.settleFired ee.fd ee.aeEvents returned.2) := by
  intro returned
  have hentry : w.dispatchEntry env later ee = w.invoke env (.batch later)
      (.proc ee.fd ee.aeEvents (w.ae.fds.fdEventList ee.fd)) id fun w result ↦
        w.setFds (w.ae.fds.settleFired ee.fd ee.aeEvents result) := by
    unfold EpollEvent.IsException at hexception
    unfold dispatchEntry
    simp only [if_neg hexception, if_pos hio]
  rw [hentry]
  by_cases hnull : (w.ae.fds.fdEventList ee.fd).proc = null
  · have hnull' : (Invocation.proc ee.fd ee.aeEvents (w.ae.fds.fdEventList ee.fd)).entry = null :=
      hnull
    rw [invoke_of_null hnull']
    exact iff_of_false (fun hdone ↦ by cases hdone) fun hdone ↦ hdone.1 hnull
  · have hnull' : (Invocation.proc ee.fd ee.aeEvents (w.ae.fds.fdEventList ee.fd)).entry ≠ null :=
      hnull
    rw [invoke_of_ne_null hnull']
    exact ⟨fun hdone ↦ ⟨hnull, (Outcome.done.inj hdone).symm⟩,
      fun hdone ↦ congrArg Outcome.done hdone.2.symm⟩

theorem entryKeepsResult (w : World κ) (later : List EpollEvent) (ee : EpollEvent) :
    w.EntryKeepsResult env later ee := by
  intro hexception hio w' hdone
  obtain ⟨-, rfl⟩ := (dispatchEntry_io_iff hexception hio).mp hdone
  rw [fds_setFds, ← FdTable.monitored_settleFired ee.fd]
  exact FdTable.result_settleFired

/-- From a well-formed table, one call of a public operation leads to a well-formed table, and so
does `processFdEvents` for every batch of descriptors of the table, whatever the callbacks do.
Neither accesses a slot outside the ready list's array. After every entry of the batch that is
handled as I/O, what its callback returned is still to be handled, as far as it is monitored. -/
theorem processFdEvents_wellFormed (env : Env κ) (w : World κ) (h : w.ae.fds.WellFormed) :
    (∀ c, (w.call env c).2.ae.fds.WellFormed ∧
      (w.call env c).2.ae.fds.listOfReadyFds.strayed = w.ae.fds.listOfReadyFds.strayed) ∧
    ∀ timeoutMs,
      (∀ batch, env.epollWait w timeoutMs = some batch → ∀ ee ∈ batch, w.ae.fds.ValidFd ee.fd) →
      let w' := (w.processFdEvents env timeoutMs).state.2
      w'.ae.fds.WellFormed ∧ w'.ae.fds.listOfReadyFds.strayed = w.ae.fds.listOfReadyFds.strayed ∧
        ∀ batch, env.epollWait w timeoutMs = some batch →
          (w.record (.waited timeoutMs (some batch))).EveryEntry env (EntryKeepsResult env)
            batch := by
  refine ⟨fun c ↦ ?_, fun timeoutMs hvalid ↦ ?_⟩
  · have hchange := change_call env w c
    exact ⟨hchange.wellFormed h, hchange.strayed h.toSound⟩
  · have hdispatches : Dispatches w (w.processFdEvents env timeoutMs).state.2 := by
      unfold processFdEvents
      cases hfired : env.epollWait w timeoutMs with
      | none => exact dispatches_record h _
      | some batch =>
        simp only [Outcome.state_map]
        have hwaited : Dispatches w (w.record (.waited timeoutMs (some batch))) :=
          dispatches_record h _
        exact hwaited.trans (dispatches_dispatchBatch h fun ee hee ↦ hvalid batch hfired ee hee)
    exact ⟨hdispatches.wellFormed, hdispatches.strayed,
      fun batch _ ↦ everyEntry_of_forall entryKeepsResult batch _⟩

/-- Input arrives for two pending descriptors. The callback of the first registers it anew and
leaves the input to be handled later; the callback of the second unregisters the first. -/
theorem wellFormed_processFdEvents_twoPendingWorld :
    let batch : List EpollEvent := [⟨epollIn, 3⟩, ⟨epollIn, 4⟩]
    let env : Env InterestSet :=
      { reactingEnv fun fd ↦
          if fd = 3 then ⟨[.removeFd 3 false, .addFdEvent 3 .readable 1 0 0 0], Mask.readable⟩
          else ⟨[.removeFd 3 false, .addFdEvent 5 .readable 1 0 0 0], Mask.none⟩ with
        epollWait := fun _ _ ↦ some batch }
    let w' := (twoPendingWorld.processFdEvents env 0).state.2
    w'.ae.fds.WellFormed ∧ w'.ae.fds.listOfReadyFds.strayed = false ∧
      (twoPendingWorld.record (.waited 0 (some batch))).EveryEntry env (EntryKeepsResult env)
        batch := by
  intro batch env
  obtain ⟨hwellFormed, hstrayed, hentries⟩ :=
    (processFdEvents_wellFormed env twoPendingWorld wellFormed_twoPendingWorld).2 0 (by
      rintro _ ⟨⟩ ee hee
      obtain rfl | rfl : ee = ⟨epollIn, 3⟩ ∨ ee = ⟨epollIn, 4⟩ := by simpa [batch] using hee
      all_goals decide)
  exact ⟨hwellFormed, hstrayed, hentries batch rfl⟩

end World

end Nebula.Async
