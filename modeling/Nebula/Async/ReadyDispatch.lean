import Nebula.Async.InterestSet

/-!
`processReadyFds`: the callbacks of the listed descriptors are called again, one after the other,
while the callbacks themselves shorten the list by moving its last slot into the one they free.

The loop takes the result of a callback into account at the cursor it called it from. That is right
exactly if the callback `ReturnsCleanly`: if something of its descriptor is left to be handled, the
descriptor must still be listed, and if the slot at the cursor still holds its number, then it must
be the descriptor's slot, or the descriptor must be the last of the list. A callback that
unregisters its own descriptor while it is the last of the list violates the condition: the number
stays behind in the slot, and the loop drops one more descriptor, or the slot before the first one.
A callback that is `NULL` ends the process. `processReadyFds_survives_iff` says that the ready list
survives exactly the runs in which every callback is there and returns cleanly.
-/

set_option autoImplicit false
set_option relaxedAutoImplicit false

namespace Nebula.Async

open Nebula.Library FdTable

/-! ### The loop -/

namespace FdTable

/-- What is left to be handled for a row after a callback has returned `result`. -/
def guess (info : FdEventInfo) (result : Mask) : Mask :=
  (result ||| info.alreadyFired) &&& info.monitored

/-- What `processReadyFds` makes of the result of the callback it called at slot `idx`. -/
def settleReady (t : FdTable) (idx fd : ℤ) (result : Mask) : FdTable :=
  let info := t.fdEventList fd
  if guess info result ≠ 0 then t.setInfo fd { info with alreadyFired := guess info result }
  else
    let t := (t.setInfo fd { info with alreadyFired := 0 }).touchReady idx
    -- in case this `fd' was already removed by the callback function
    if t.listOfReadyFds.cell idx = fd then t.dropSlot idx else t

end FdTable

/-- The loop variables of `processReadyFds`. -/
structure ReadyLoop (κ : Type*) where
  processed : ℤ
  idx : ℤ
  world : World κ

section Loop

variable {κ : Type*} [EpollKernel κ]

/-- The descriptor at the cursor. -/
def ReadyLoop.fd (x : ReadyLoop κ) : ℤ := x.world.ae.fds.listOfReadyFds.cell x.idx

/-- The world in which the slot at the cursor has been read. -/
def ReadyLoop.reading (x : ReadyLoop κ) : World κ :=
  x.world.setFds (x.world.ae.fds.touchReady x.idx)

/-- The row of the descriptor at the cursor. -/
def ReadyLoop.info (x : ReadyLoop κ) : FdEventInfo := x.reading.ae.fds.fdEventList x.fd

/-- The call of the callback at the cursor. -/
def ReadyLoop.invocation (x : ReadyLoop κ) : Invocation := .proc x.fd x.info.alreadyFired x.info

/-- The world the callback at the cursor returns into, and its result. -/
def ReadyLoop.returned (env : Env κ) (x : ReadyLoop κ) : World κ × Mask :=
  x.reading.callback env (.ready x.idx) x.invocation

def readyBody (env : Env κ) (x : ReadyLoop κ) : Outcome (ReadyLoop κ) :=
  x.reading.invoke env (.ready x.idx) x.invocation
    (fun w ↦ { x with processed := x.processed + 1, world := w })
    fun w result ↦
      { processed := x.processed + 1
        idx := if guess (w.ae.fds.fdEventList x.fd) result ≠ 0 then x.idx + 1 else x.idx
        world := w.setFds (w.ae.fds.settleReady x.idx x.fd result) }

/-- The loop after the callback at the cursor has been called. -/
def ReadyLoop.resumed (env : Env κ) (x : ReadyLoop κ) : ReadyLoop κ where
  processed := x.processed + 1
  idx := if guess ((x.returned env).1.ae.fds.fdEventList x.fd) (x.returned env).2 ≠ 0 then x.idx + 1
    else x.idx
  world := (x.returned env).1.setFds
    ((x.returned env).1.ae.fds.settleReady x.idx x.fd (x.returned env).2)

theorem readyBody_of_ne_null {env : Env κ} {x : ReadyLoop κ} (h : x.info.proc ≠ null) :
    readyBody env x = .done (x.resumed env) := World.invoke_of_ne_null h

def readyGuard (x : ReadyLoop κ) : Bool := decide (x.idx < x.world.ae.fds.numReadyFds)

/-- `processReadyFds`, for at most `fuel` iterations; it returns `processed`. -/
def processReadyFds (env : Env κ) (fuel : ℕ) (w : World κ) : Outcome (ReadyLoop κ) :=
  whileLoop readyGuard (readyBody env) fuel ⟨0, 0, w⟩

end Loop

/-! ### The condition -/

namespace FdTable

/-- The result of a callback called at slot `idx` can be taken into account there. -/
def ReturnsCleanly (t : FdTable) (idx fd : ℤ) (result : Mask) : Prop :=
  if guess (t.fdEventList fd) result ≠ 0 then t.Listed fd
  else t.listOfReadyFds.cell idx = fd → idx < t.numReadyFds ∨
    0 < t.numReadyFds ∧ t.listOfReadyFds.cell (t.numReadyFds - 1) = fd

/-- No descriptor with events still to be handled is missing from the list, and the list has not
been accessed outside the array. -/
def NothingDropped (t : FdTable) : Prop :=
  t.listOfReadyFds.strayed = false ∧ 0 ≤ t.numReadyFds ∧
    ∀ fd, t.ValidFd fd → (t.fdEventList fd).alreadyFired ≠ 0 → t.Listed fd

theorem monitored_of_guess (info : FdEventInfo) (result : Mask) (h : guess info result ≠ 0) :
    info.monitored ≠ 0 := by
  intro hzero
  rw [guess, hzero] at h
  simp at h

variable {t : FdTable} {idx fd : ℤ} {result : Mask}

theorem numMonitoredFds_settleReady :
    (t.settleReady idx fd result).numMonitoredFds = t.numMonitoredFds := by
  unfold settleReady
  simp only
  split_ifs <;> rfl

/-- Either the cursor or the end of the list moves, or the slot at the cursor holds something
else. -/
theorem settleReady_advances (t : FdTable) (idx fd : ℤ) (result : Mask) :
    (t.settleReady idx fd result).numReadyFds -
          (if guess (t.fdEventList fd) result ≠ 0 then idx + 1 else idx) < t.numReadyFds - idx ∨
      (t.settleReady idx fd result).numReadyFds -
          (if guess (t.fdEventList fd) result ≠ 0 then idx + 1 else idx) = t.numReadyFds - idx ∧
        t.listOfReadyFds.cell idx ≠ fd := by
  unfold settleReady
  by_cases hguess : guess (t.fdEventList fd) result ≠ 0
  · simp only [if_pos hguess]
    refine Or.inl ?_
    change t.numReadyFds - (idx + 1) < _
    omega
  · simp only [if_neg hguess]
    split_ifs with hcell
    · refine Or.inl ?_
      change t.numReadyFds - 1 - idx < _
      omega
    · exact Or.inr ⟨rfl, hcell⟩

theorem touchReady_of_inBounds (hbounds : t.listOfReadyFds.InBounds idx) :
    t.touchReady idx = t := by
  rw [touchReady, Buffer.touch_of_inBounds hbounds]

/-- The three things that can happen to the list at a cursor inside the array. -/
theorem settleReady_eq (hbounds : t.listOfReadyFds.InBounds idx) :
    t.settleReady idx fd result =
      if guess (t.fdEventList fd) result ≠ 0 then
        t.setInfo fd { t.fdEventList fd with alreadyFired := guess (t.fdEventList fd) result }
      else if t.listOfReadyFds.cell idx = fd then
        (t.setInfo fd { t.fdEventList fd with alreadyFired := 0 }).dropSlot idx
      else t.setInfo fd { t.fdEventList fd with alreadyFired := 0 } := by
  have htouch : (t.setInfo fd { t.fdEventList fd with alreadyFired := 0 }).touchReady idx =
      t.setInfo fd { t.fdEventList fd with alreadyFired := 0 } :=
    touchReady_of_inBounds (t := t.setInfo fd { t.fdEventList fd with alreadyFired := 0 }) hbounds
  simp only [settleReady, htouch]
  rfl

/-- What is left of the result of a callback goes to the row of the descriptor. -/
theorem fdEventList_settleReady (hbounds : t.listOfReadyFds.InBounds idx) (fd' : ℤ) :
    (t.settleReady idx fd result).fdEventList fd' =
      if fd' = fd then
        { t.fdEventList fd with alreadyFired := guess (t.fdEventList fd) result }
      else t.fdEventList fd' := by
  rw [settleReady_eq hbounds]
  by_cases hguess : guess (t.fdEventList fd) result ≠ 0
  · rw [if_pos hguess, fdEventList_setInfo]
  · rw [if_neg hguess, not_not.mp hguess, ← fdEventList_setInfo]
    split_ifs <;> rfl

/-- Dropping a slot adds no descriptor to the list. -/
theorem listed_of_dropSlot {i fd' : ℤ} (hlisted : (t.dropSlot i).Listed fd') : t.Listed fd' := by
  obtain ⟨j, hj, hlt, hcell⟩ := hlisted
  change j < t.numReadyFds - 1 at hlt
  change (t.listOfReadyFds.moveInto i (t.numReadyFds - 1)).cell j = fd' at hcell
  rw [Buffer.cell_moveInto] at hcell
  split_ifs at hcell
  · exact ⟨t.numReadyFds - 1, by omega, by omega, hcell⟩
  · exact ⟨j, hj, by omega, hcell⟩

theorem listed_of_settleReady (hbounds : t.listOfReadyFds.InBounds idx) {fd' : ℤ}
    (hlisted : (t.settleReady idx fd result).Listed fd') : t.Listed fd' := by
  rw [settleReady_eq hbounds] at hlisted
  split_ifs at hlisted
  · exact hlisted
  · exact listed_of_dropSlot hlisted
  · exact hlisted

/-- Without events left to be handled, dropping the slot of a descriptor drops the descriptor. -/
theorem WellFormed.dropSlot_of_cell (h : t.WellFormed) (hidx : 0 ≤ idx) (hlt : idx < t.numReadyFds)
    (hcell : t.listOfReadyFds.cell idx = fd) {info : FdEventInfo} (hfired : info.alreadyFired = 0) :
    ((t.setInfo fd info).dropSlot idx).WellFormed := by
  have hsound : (t.dropSlot idx).Sound := h.toSound.dropSlot hidx hlt
  have hlisted : ∀ fd', (t.dropSlot idx).Listed fd' ↔ t.Listed fd' ∧ fd' ≠ fd := by
    intro fd'
    rw [listed_dropSlot h.keyed hidx hlt, hcell]
  change ((t.dropSlot idx).setInfo fd info).WellFormed
  have hnot : ¬ (t.dropSlot idx).Listed fd := fun hfd ↦ ((hlisted fd).mp hfd).2 rfl
  refine ⟨hsound.setInfo fun hfd ↦ absurd hfd hnot, ?_, ?_⟩
  · intro fd' hvalid hne
    rw [fdEventList_setInfo] at hne
    split_ifs at hne with heq
    · exact absurd hfired hne
    · exact (hlisted fd').mpr ⟨h.listed fd' hvalid hne, heq⟩
  · intro fd' hvalid hne
    rw [fdEventList_setInfo] at hne ⊢
    split_ifs at hne ⊢ with heq
    · exact absurd hfired hne
    · exact h.monitored fd' hvalid hne

/-- Dropping a slot behind the list has the effect of dropping its last slot. -/
theorem listed_dropSlot_behind (hle : t.numReadyFds ≤ idx) {fd' : ℤ} :
    (t.dropSlot idx).Listed fd' ↔ (t.dropSlot (t.numReadyFds - 1)).Listed fd' := by
  have hcell : ∀ last i, i < t.numReadyFds - 1 → t.numReadyFds - 1 ≤ last →
      (t.listOfReadyFds.moveInto last (t.numReadyFds - 1)).cell i = t.listOfReadyFds.cell i := by
    intro last i hi hlast
    rw [Buffer.cell_moveInto, if_neg (by omega)]
  constructor
  all_goals
    rintro ⟨i, hi, hlt, heq⟩
    refine ⟨i, hi, hlt, ?_⟩
    rw [dropSlot] at heq ⊢
    rw [hcell _ i hlt (by omega)] at heq ⊢
    exact heq

/-- A slot behind the list may hold anything. -/
theorem Sound.dropSlot_behind (hle : t.numReadyFds ≤ idx)
    (h : (t.dropSlot (t.numReadyFds - 1)).Sound) : (t.dropSlot idx).Sound where
  size_eq := h.size_eq
  keyed :=
    { nonneg := h.keyed.nonneg
      le_size := h.keyed.le_size
      index_eq := by
        intro i j hi hi' hj hj' heq
        refine h.keyed.index_eq i j hi hi' hj hj' ?_
        simp only [FdTable.dropSlot, Buffer.cell_moveInto, id_eq] at heq hi' hj' ⊢
        rw [if_neg (by omega), if_neg (by omega)] at heq ⊢
        exact heq }
  valid fd hfd := h.valid fd ((listed_dropSlot_behind hle).mp hfd)
  fired fd hfd := h.fired fd ((listed_dropSlot_behind hle).mp hfd)

theorem WellFormed.dropSlot_behind (hle : t.numReadyFds ≤ idx)
    (h : (t.dropSlot (t.numReadyFds - 1)).WellFormed) : (t.dropSlot idx).WellFormed where
  toSound := Sound.dropSlot_behind hle h.toSound
  listed fd hvalid hne := (listed_dropSlot_behind hle).mpr (h.listed fd hvalid hne)
  monitored := h.monitored

/-- Taking a result into account keeps the list sound, unless it drops a slot of an empty list, or
not the one of the descriptor although that is still listed. -/
theorem Sound.settleReady (h : t.Sound) (hbounds : t.listOfReadyFds.InBounds idx)
    (htrail : t.Listed fd → t.listOfReadyFds.cell idx = fd)
    (hsettles : guess (t.fdEventList fd) result = 0 → t.listOfReadyFds.cell idx = fd →
      t.numReadyFds ≤ idx →
        0 < t.numReadyFds ∧ (t.Listed fd → t.listOfReadyFds.cell (t.numReadyFds - 1) = fd)) :
    (t.settleReady idx fd result).Sound := by
  rw [settleReady_eq hbounds]
  split_ifs with hguess hcell
  · exact h.setInfo fun _ ↦ hguess
  · change ((t.dropSlot idx).setInfo fd _).Sound
    rcases lt_or_ge idx t.numReadyFds with hlt | hle
    · refine (h.dropSlot hbounds.1 hlt).setInfo fun hfd ↦ ?_
      exact absurd hcell.symm ((listed_dropSlot h.keyed hbounds.1 hlt).mp hfd).2
    · obtain ⟨hpos, hlast⟩ := hsettles (not_not.mp hguess) hcell hle
      have hdrop := h.dropSlot (i := t.numReadyFds - 1) (by omega) (by omega)
      refine (Sound.dropSlot_behind hle hdrop).setInfo fun hfd ↦ ?_
      rw [listed_dropSlot_behind hle, listed_dropSlot h.keyed (by omega) (by omega)] at hfd
      exact absurd (hlast hfd.1).symm hfd.2
  · exact h.setInfo fun hfd ↦ absurd (htrail hfd) hcell

/-- A clean result is taken into account without harm. -/
theorem WellFormed.settleReady (h : t.WellFormed) (hbounds : t.listOfReadyFds.InBounds idx)
    (htrail : t.Listed fd → t.listOfReadyFds.cell idx = fd)
    (hclean : t.ReturnsCleanly idx fd result) : (t.settleReady idx fd result).WellFormed := by
  rw [settleReady_eq hbounds]
  unfold ReturnsCleanly at hclean
  split_ifs at hclean ⊢ with hguess hcell
  · exact h.setInfo (iff_of_true hclean hguess) fun _ ↦
      monitored_of_guess (t.fdEventList fd) result hguess
  · rcases lt_or_ge idx t.numReadyFds with hlt | hle
    · exact h.dropSlot_of_cell hbounds.1 hlt hcell rfl
    · have hlast := (hclean hcell).resolve_left (by omega)
      exact WellFormed.dropSlot_behind hle
        (h.dropSlot_of_cell (show 0 ≤ t.numReadyFds - 1 by omega) (by omega) hlast.2 rfl)
  · have hnot : ¬ t.Listed fd := fun hfd ↦ hcell (htrail hfd)
    exact h.setInfo (iff_of_false hnot (by simp)) fun hne ↦ absurd rfl hne

/-- Nor does it access a slot outside the array. -/
theorem Sound.strayed_settleReady (h : t.Sound) (hbounds : t.listOfReadyFds.InBounds idx)
    (hclean : t.ReturnsCleanly idx fd result) :
    (t.settleReady idx fd result).listOfReadyFds.strayed = t.listOfReadyFds.strayed := by
  rw [settleReady_eq hbounds]
  unfold ReturnsCleanly at hclean
  split_ifs at hclean ⊢ with hguess hcell
  · rfl
  · have hlast : 0 ≤ t.numReadyFds - 1 := by
      have := hbounds.1
      rcases hclean hcell with hlt | ⟨hpos, -⟩ <;> omega
    have hlastBounds : t.listOfReadyFds.InBounds (t.numReadyFds - 1) :=
      h.keyed.inBounds hlast (by omega)
    exact Buffer.strayed_moveInto_of_inBounds hbounds hlastBounds
  · rfl

/-- A result that is not clean loses a descriptor with events still to be handled, or a slot that
is not there. -/
theorem not_nothingDropped_settleReady (h : t.WellFormed)
    (hbounds : t.listOfReadyFds.InBounds idx) (hvalid : t.ValidFd fd)
    (hclean : ¬ t.ReturnsCleanly idx fd result) :
    ¬ (t.settleReady idx fd result).NothingDropped := by
  rintro ⟨-, hnonneg, hlisted⟩
  rw [settleReady_eq hbounds] at hnonneg hlisted
  unfold ReturnsCleanly at hclean
  split_ifs at hclean hnonneg hlisted with hguess hcell
  · exact hclean (hlisted fd hvalid (by simpa using hguess))
  · push Not at hclean
    obtain ⟨-, hle, hlast⟩ := hclean
    change 0 ≤ t.numReadyFds - 1 at hnonneg
    -- the last descriptor of the list is dropped although events of it are still to be handled
    have hwas : t.Listed (t.listOfReadyFds.cell (t.numReadyFds - 1)) :=
      ⟨t.numReadyFds - 1, by omega, by omega, rfl⟩
    have hfired : ((t.setInfo fd { t.fdEventList fd with alreadyFired := 0 }).fdEventList
        (t.listOfReadyFds.cell (t.numReadyFds - 1))).alreadyFired ≠ 0 := by
      rw [fdEventList_setInfo, if_neg (hlast (by omega))]
      exact h.fired _ hwas
    have hstill := hlisted _ (h.valid _ hwas) hfired
    change (t.dropSlot idx).Listed _ at hstill
    rw [listed_dropSlot_behind hle, listed_dropSlot h.keyed (by omega) (by omega)] at hstill
    exact hstill.2 rfl
  · exact hclean fun hcell' ↦ absurd hcell' hcell

end FdTable

/-! ### Every round of the loop -/

section Rounds

variable {κ : Type*} [EpollKernel κ] {env : Env κ} {x : ReadyLoop κ}

namespace ReadyLoop

/-- The callback at the cursor returns a result that can be taken into account. -/
def ReturnsCleanly (env : Env κ) (x : ReadyLoop κ) : Prop :=
  x.info.proc ≠ null → (x.returned env).1.ae.fds.ReturnsCleanly x.idx x.fd (x.returned env).2

/-- The loop between two rounds: the ready list is well-formed and has been accessed inside the
array only. -/
structure Intact (x : ReadyLoop κ) : Prop where
  idx_nonneg : 0 ≤ x.idx
  wellFormed : x.world.ae.fds.WellFormed
  strayed : x.world.ae.fds.listOfReadyFds.strayed = false

omit [EpollKernel κ] in
theorem Intact.inBounds (h : x.Intact) (hguard : readyGuard x = true) :
    x.world.ae.fds.listOfReadyFds.InBounds x.idx :=
  h.wellFormed.keyed.inBounds h.idx_nonneg (by simpa [readyGuard] using hguard)

omit [EpollKernel κ] in
/-- Reading the slot at the cursor changes nothing. -/
theorem Intact.fds_reading (h : x.Intact) (hguard : readyGuard x = true) :
    x.reading.ae.fds = x.world.ae.fds := by
  rw [reading, World.fds_setFds, touchReady_of_inBounds (h.inBounds hguard)]

omit [EpollKernel κ] in
theorem Intact.listed (h : x.Intact) (hguard : readyGuard x = true) :
    x.world.ae.fds.Listed x.fd :=
  ⟨x.idx, h.idx_nonneg, by simpa [readyGuard] using hguard, rfl⟩

/-- What the callback at the cursor leaves behind: a well-formed table in which the descriptor, if
it is still listed, has left its number at the cursor. -/
theorem Intact.returned (h : x.Intact) (hguard : readyGuard x = true) (env : Env κ) :
    (x.returned env).1.ae.fds.WellFormed ∧
      (x.returned env).1.ae.fds.listOfReadyFds.strayed = false ∧
      (x.returned env).1.ae.fds.listOfReadyFds.InBounds x.idx ∧
      (x.returned env).1.ae.fds.ValidFd x.fd ∧
      ((x.returned env).1.ae.fds.Listed x.fd →
        (x.returned env).1.ae.fds.listOfReadyFds.cell x.idx = x.fd) := by
  have hchanges : Relation.ReflTransGen Change x.world.ae.fds (x.returned env).1.ae.fds := by
    have := World.changes_callback env (.ready x.idx) x.reading x.invocation
    rwa [h.fds_reading hguard] at this
  have hwellFormed := h.wellFormed.changes hchanges
  have hsize := changes_fdTableSize hchanges
  have hvalid := h.wellFormed.valid x.fd (h.listed hguard)
  have hbounds := h.inBounds hguard
  refine ⟨hwellFormed, ?_, ⟨hbounds.1, ?_⟩, ?_, ?_⟩
  · exact (h.wellFormed.toSound.strayed_changes hchanges).trans h.strayed
  · rw [hwellFormed.size_eq, hsize, ← h.wellFormed.size_eq]
    exact hbounds.2
  · exact ⟨hvalid.1, hsize.symm ▸ hvalid.2⟩
  · exact h.wellFormed.toSound.trail_changes hchanges _ _ rfl

end ReadyLoop

open ReadyLoop

theorem readyBody_ended (env : Env κ) (x : ReadyLoop κ) : (readyBody env x).Ended :=
  World.invoke_ended ..

variable (env) in
/-- A round that ends cleanly leaves the list intact. -/
theorem intact_readyBody (h : x.Intact) (hguard : readyGuard x = true)
    (hclean : x.ReturnsCleanly env) : (readyBody env x).state.Intact := by
  obtain ⟨hwellFormed, hstrayed, hbounds, -, htrail⟩ := h.returned hguard env
  unfold readyBody
  by_cases hnull : x.invocation.entry = null
  · rw [World.invoke_of_null hnull]
    refine ⟨h.idx_nonneg, ?_, ?_⟩
    · simpa [h.fds_reading hguard] using h.wellFormed
    · simpa [h.fds_reading hguard] using h.strayed
  · have hclean' := hclean hnull
    rw [World.invoke_of_ne_null hnull]
    refine ⟨?_, hwellFormed.settleReady hbounds htrail hclean', ?_⟩
    · have := h.idx_nonneg
      simp only [Outcome.state_done]
      split_ifs <;> omega
    · exact (hwellFormed.toSound.strayed_settleReady hbounds hclean').trans hstrayed

/-- A round that does not end cleanly drops something from the list. -/
theorem not_nothingDropped_readyBody (h : x.Intact) (hguard : readyGuard x = true)
    (hclean : ¬ x.ReturnsCleanly env) : ¬ (readyBody env x).state.world.ae.fds.NothingDropped := by
  obtain ⟨hwellFormed, -, hbounds, hvalid, -⟩ := h.returned hguard env
  obtain ⟨hnull, hclean'⟩ := Classical.not_imp.mp hclean
  have hentry : x.invocation.entry ≠ null := hnull
  rw [readyBody, World.invoke_of_ne_null hentry]
  exact not_nothingDropped_settleReady hwellFormed hbounds hvalid hclean'

/-- A callback leaves the list as it was, or shortens it. -/
theorem ReadyLoop.numReadyFds_returned (env : Env κ) (x : ReadyLoop κ) :
    (x.returned env).1.ae.fds.numReadyFds = x.world.ae.fds.numReadyFds ∧
        (x.returned env).1.ae.fds.listOfReadyFds.cell = x.world.ae.fds.listOfReadyFds.cell ∨
      (x.returned env).1.ae.fds.numReadyFds < x.world.ae.fds.numReadyFds := by
  show (x.returned env).1.ae.fds.numReadyFds = x.reading.ae.fds.numReadyFds ∧
      (x.returned env).1.ae.fds.listOfReadyFds.cell = x.reading.ae.fds.listOfReadyFds.cell ∨
    (x.returned env).1.ae.fds.numReadyFds < x.reading.ae.fds.numReadyFds
  exact changes_numReadyFds (World.changes_callback env (.ready x.idx) x.reading x.invocation)

/-- Whatever the callback does, a round brings the cursor and the end of the list closer. -/
theorem readyBody_decreases {y : ReadyLoop κ} (hdone : readyBody env x = .done y) :
    y.world.ae.fds.numReadyFds - y.idx < x.world.ae.fds.numReadyFds - x.idx := by
  have hentry : x.invocation.entry ≠ null := fun hnull ↦ by
    rw [readyBody, World.invoke_of_null hnull] at hdone
    cases hdone
  rw [readyBody, World.invoke_of_ne_null hentry] at hdone
  cases hdone
  have hreturned := x.numReadyFds_returned env
  change ((x.returned env).1.ae.fds.settleReady x.idx x.fd (x.returned env).2).numReadyFds -
    (if guess ((x.returned env).1.ae.fds.fdEventList x.fd) (x.returned env).2 ≠ 0 then x.idx + 1
      else x.idx) < _
  rcases settleReady_advances (x.returned env).1.ae.fds x.idx x.fd (x.returned env).2 with
    hlt | ⟨heq, hcell⟩
  · rcases hreturned with ⟨hnum, -⟩ | hnum <;> omega
  · -- the slot at the cursor has changed, so the callback has taken a slot from the list
    rcases hreturned with ⟨-, hcells⟩ | hnum
    · exact absurd (congrFun hcells x.idx) hcell
    · omega

/-- The loop ends after at most as many rounds as there were listed descriptors. -/
theorem processReadyFds_ended (env : Env κ) (w : World κ) (fuel : ℕ)
    (hfuel : w.ae.fds.numReadyFds ≤ fuel) : (processReadyFds env fuel w).Ended := by
  refine whileLoop_ended (I := fun _ ↦ True)
    (fun x : ReadyLoop κ ↦ (x.world.ae.fds.numReadyFds - x.idx).toNat) (readyBody_ended env)
    (fun x _ hguard ↦ ?_) (fun x y _ hguard hdone ↦ ⟨trivial, ?_⟩) fuel _ trivial ?_
  · simp only [readyGuard, decide_eq_true_eq] at hguard
    omega
  · simp only [readyGuard, decide_eq_true_eq] at hguard
    have := readyBody_decreases hdone
    omega
  · change (w.ae.fds.numReadyFds - 0).toNat ≤ fuel
    omega

/-- What re-entrant callbacks should leave of the ready list: at no moment of the loop has a slot
outside the array been accessed, the counter been negative or a descriptor with events still to be
handled been missing from the list, and the loop returns with a well-formed list. -/
def ReadyListSurvives (env : Env κ) (w : World κ) : Prop :=
  (∀ fuel, (processReadyFds env fuel w).state.world.ae.fds.NothingDropped) ∧
    ∃ fuel x, processReadyFds env fuel w = .done x ∧ x.world.ae.fds.WellFormed

omit [EpollKernel κ] in
theorem ReadyLoop.Intact.nothingDropped (h : x.Intact) : x.world.ae.fds.NothingDropped :=
  ⟨h.strayed, h.wellFormed.keyed.nonneg, h.wellFormed.listed⟩

/-- A round that returns has called a callback that is there. -/
theorem proc_ne_null_of_readyBody {y : ReadyLoop κ} (hdone : readyBody env x = .done y) :
    x.info.proc ≠ null := by
  intro hnull
  have hentry : x.invocation.entry = null := hnull
  rw [readyBody, World.invoke_of_null hentry] at hdone
  cases hdone

/-- The loop returns if every callback that it comes to is there. -/
theorem processReadyFds_done (env : Env κ) (w : World κ)
    (hproc : ∀ fuel x, processReadyFds env fuel w = .running x → x.info.proc ≠ null) :
    ∃ fuel x, processReadyFds env fuel w = .done x := by
  refine ⟨w.ae.fds.numReadyFds.toNat, ?_⟩
  have hended := processReadyFds_ended env w _ (Int.self_le_toNat _)
  cases houtcome : processReadyFds env w.ae.fds.numReadyFds.toNat w with
  | done x => exact ⟨x, rfl⟩
  | running x => exact absurd hended (by simp [houtcome])
  | crashed x =>
    obtain ⟨n, y, hrunning, hcrashed⟩ :=
      exists_running_of_whileLoop_crashed (readyBody_ended env) houtcome
    rw [readyBody_of_ne_null (hproc n y hrunning)] at hcrashed
    cases hcrashed

/-- From a well-formed table, the ready list survives `processReadyFds` exactly if every callback
that it comes to is not `NULL` and returns cleanly. -/
theorem processReadyFds_survives_iff (env : Env κ) (w : World κ) (hw : w.ae.fds.WellFormed)
    (hstrayed : w.ae.fds.listOfReadyFds.strayed = false) :
    ReadyListSurvives env w ↔
      ∀ fuel x, processReadyFds env fuel w = .running x →
        x.info.proc ≠ null ∧ x.ReturnsCleanly env := by
  have hstart : (⟨0, 0, w⟩ : ReadyLoop κ).Intact := ⟨le_refl 0, hw, hstrayed⟩
  have hiff := forall_whileLoop_iff (readyBody_ended env)
    (fun x h hguard hclean ↦ intact_readyBody env h hguard hclean)
    (P := fun x : ReadyLoop κ ↦ x.world.ae.fds.NothingDropped)
    (fun x h hguard hclean ↦ not_nothingDropped_readyBody h hguard hclean)
    (fun x h ↦ h.nothingDropped) hstart
  constructor
  · rintro ⟨hnothing, n, y, hdone, -⟩ fuel x hrunning
    obtain ⟨z, hz⟩ := exists_body_eq_done (readyBody_ended env) hdone hrunning
    exact ⟨proc_ne_null_of_readyBody hz, hiff.mp hnothing fuel x hrunning⟩
  · intro hclean
    refine ⟨hiff.mpr fun fuel x hrunning ↦ (hclean fuel x hrunning).2, ?_⟩
    obtain ⟨fuel, x, hdone⟩ := processReadyFds_done env w fun fuel x hrunning ↦
      (hclean fuel x hrunning).1
    have hintact := whileLoop_state_of_running (readyBody_ended env)
      (fun x h hguard hclean ↦ intact_readyBody env h hguard hclean) hstart fuel
      fun n _ x hrunning ↦ (hclean n x hrunning).2
    change (processReadyFds env fuel w).state.Intact at hintact
    rw [hdone] at hintact
    exact ⟨fuel, x, hdone, hintact.wellFormed⟩

end Rounds

/-! ### A descriptor that is removed by its own callback -/

/-- An event loop that monitors descriptor 3 for input, with input still to be handled. -/
def pendingWorld : World InterestSet where
  ae :=
    { AsyncEvent.initialized 8 4 (fun _ ↦ 0) fun _ ↦ ⟨0, 0, null, 0⟩ with
      fds :=
        { fdTableSize := 8
          numMonitoredFds := 1
          numReadyFds := 1
          listOfReadyFds := ⟨8, Function.update (fun _ ↦ 0) 0 3, false⟩
          fdEventList :=
            Function.update (fun _ ↦ .zero) 3 ⟨Mask.readable, Mask.readable, 1, null, 0, 0⟩ } }
  kernel := ⟨Function.update (fun _ ↦ none) 3 (some (epollEvents Mask.readable)), fun _ ↦ false⟩
  log := []

/-- Callbacks that all make the same calls and return the same value, on a machine where nothing
arrives. -/
def constantEnv (calls : List Call) (result : Mask) : Env InterestSet where
  react _ _ := ⟨calls, result⟩
  epollWait _ _ := none
  clock _ := 0

theorem wellFormed_pendingWorld : pendingWorld.ae.fds.WellFormed where
  size_eq := rfl
  keyed :=
    { nonneg := by decide
      le_size := by decide
      index_eq := fun i j hi hi' hj hj' _ ↦ by
        have hnum : pendingWorld.ae.fds.numReadyFds = 1 := rfl
        omega }
  valid := by
    rintro fd ⟨i, hi, hlt, rfl⟩
    obtain rfl : i = 0 := by
      have hnum : pendingWorld.ae.fds.numReadyFds = 1 := rfl
      omega
    decide
  fired := by
    rintro fd ⟨i, hi, hlt, rfl⟩
    obtain rfl : i = 0 := by
      have hnum : pendingWorld.ae.fds.numReadyFds = 1 := rfl
      omega
    decide
  listed := by
    intro fd _ hne
    by_cases heq : fd = 3
    · exact heq ▸ ⟨0, by decide, by decide, rfl⟩
    · refine absurd ?_ hne
      simp [pendingWorld, heq, FdEventInfo.zero]
  monitored := by
    intro fd _ hne
    by_cases heq : fd = 3
    · subst heq
      decide
    · refine absurd ?_ hne
      simp [pendingWorld, heq, FdEventInfo.zero]

/-- An event loop with input still to be handled for the descriptors 3 and 4. Input is not monitored
for 3 any more. -/
def twoPendingWorld : World InterestSet where
  ae :=
    { AsyncEvent.initialized 8 4 (fun _ ↦ 0) fun _ ↦ ⟨0, 0, null, 0⟩ with
      fds :=
        { fdTableSize := 8
          numMonitoredFds := 2
          numReadyFds := 2
          listOfReadyFds := ⟨8, fun i ↦ if i = 0 then 3 else if i = 1 then 4 else 0, false⟩
          fdEventList := fun fd ↦
            if fd = 3 then ⟨Mask.writable, Mask.readable, 1, null, 0, 0⟩
            else if fd = 4 then ⟨Mask.readable, Mask.readable, 1, null, 0, 0⟩
            else .zero } }
  kernel :=
    ⟨fun fd ↦ if fd = 3 then some (epollEvents Mask.writable)
      else if fd = 4 then some (epollEvents Mask.readable) else none, fun _ ↦ false⟩
  log := []

/-- Callbacks that react according to the descriptor they are called for, on a machine where nothing
arrives. -/
def reactingEnv (react : ℤ → Reaction) : Env InterestSet where
  react _ invocation :=
    match invocation with
    | .proc fd _ _ => react fd
    | _ => ⟨[], 0⟩
  epollWait _ _ := none
  clock _ := 0

theorem listed_twoPendingWorld {fd : ℤ} (h : twoPendingWorld.ae.fds.Listed fd) :
    fd = 3 ∨ fd = 4 := by
  obtain ⟨i, hi, hlt, rfl⟩ := h
  have hnum : twoPendingWorld.ae.fds.numReadyFds = 2 := rfl
  obtain rfl | rfl : i = 0 ∨ i = 1 := by omega
  · exact Or.inl rfl
  · exact Or.inr rfl

theorem registered_twoPendingWorld (fd : ℤ)
    (h : twoPendingWorld.ae.fds.fdEventList fd ≠ FdEventInfo.zero) : fd = 3 ∨ fd = 4 := by
  by_contra hne
  rw [not_or] at hne
  exact h (by simp [twoPendingWorld, hne.1, hne.2])

theorem wellFormed_twoPendingWorld : twoPendingWorld.ae.fds.WellFormed where
  size_eq := rfl
  keyed :=
    { nonneg := by decide
      le_size := by decide
      index_eq := by
        intro i j hi hi' hj hj' heq
        have hnum : twoPendingWorld.ae.fds.numReadyFds = 2 := rfl
        obtain rfl | rfl : i = 0 ∨ i = 1 := by omega
        all_goals obtain rfl | rfl : j = 0 ∨ j = 1 := by omega
        · rfl
        · exact absurd heq (by decide)
        · exact absurd heq (by decide)
        · rfl }
  valid fd hfd := by
    obtain rfl | rfl := listed_twoPendingWorld hfd
    all_goals decide
  fired fd hfd := by
    obtain rfl | rfl := listed_twoPendingWorld hfd
    all_goals decide
  listed fd _ hne := by
    obtain rfl | rfl := registered_twoPendingWorld fd fun heq ↦ hne (by rw [heq]; rfl)
    · exact ⟨0, by decide, by decide, rfl⟩
    · exact ⟨1, by decide, by decide, rfl⟩
  monitored fd _ hne := by
    obtain rfl | rfl := registered_twoPendingWorld fd fun heq ↦ hne (by rw [heq]; rfl)
    all_goals decide

/-- The callback of descriptor 3 closes it and registers descriptor 5; the callback of descriptor 4,
which has moved into the slot at the cursor, registers descriptor 3 anew and leaves its own input
for later. -/
theorem readyListSurvives_twoPendingWorld :
    ReadyListSurvives (reactingEnv fun fd ↦
      if fd = 3 then ⟨[.removeFd 3 true, .addFdEvent 5 .readable 1 0 0 0], Mask.none⟩
      else ⟨[.addFdEvent 3 .readable 1 0 0 0], Mask.readable⟩) twoPendingWorld := by
  refine (processReadyFds_survives_iff _ twoPendingWorld wellFormed_twoPendingWorld rfl).mpr
    fun fuel x hrunning ↦ ?_
  obtain rfl : (processReadyFds _ fuel twoPendingWorld).state = x := congrArg Outcome.state hrunning
  have hended := processReadyFds_ended (reactingEnv fun fd ↦
      if fd = 3 then ⟨[.removeFd 3 true, .addFdEvent 5 .readable 1 0 0 0], Mask.none⟩
      else ⟨[.addFdEvent 3 .readable 1 0 0 0], Mask.readable⟩) twoPendingWorld fuel
  obtain rfl | rfl | hfuel : fuel = 0 ∨ fuel = 1 ∨ 2 ≤ fuel := by omega
  · refine ⟨by decide, fun _ ↦ ?_⟩
    exact fun hcell ↦ absurd hcell (by decide)
  · refine ⟨by decide, fun _ ↦ ?_⟩
    exact ⟨0, by decide, by decide, by decide⟩
  · have := hended (by change (2 : ℤ) ≤ _; omega)
    rw [hrunning] at this
    exact absurd this (Outcome.not_ended_running _)

/-- The callback of the only listed descriptor removes it and returns `NONE`. -/
theorem not_readyListSurvives_selfRemoval :
    pendingWorld.ae.fds.WellFormed ∧ pendingWorld.ae.fds.listOfReadyFds.strayed = false ∧
      (processReadyFds (constantEnv [.removeFd 3 false] 0) 1
        pendingWorld).state.world.ae.fds.numReadyFds = -1 ∧
      ¬ ReadyListSurvives (constantEnv [.removeFd 3 false] 0) pendingWorld := by
  have hnum : (processReadyFds (constantEnv [.removeFd 3 false] 0) 1
      pendingWorld).state.world.ae.fds.numReadyFds = -1 := by decide
  refine ⟨wellFormed_pendingWorld, rfl, hnum, fun h ↦ ?_⟩
  have hnonneg := (h.1 1).2.1
  omega

end Nebula.Async
