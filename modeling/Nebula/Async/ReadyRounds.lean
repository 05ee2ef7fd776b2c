import Nebula.Async.ReadyDispatch
import Nebula.Async.TimeRound

/-!
How many rounds `processReadyFds` makes. A round that finds that something is left to be handled
moves the cursor, and one that finds the descriptor at the cursor drops a slot. Any other round does
neither itself: the callback has then taken a slot from the list.

A callback may have shortened the list so far that the slot at the cursor is not one of it any more
when it is looked at again. `processReadyFdsStale` is the loop in which such a slot may hold
anything, and `processReadyFds_bounded` says that neither of the two makes more rounds, calls more
callbacks or counts more of them than there were listed descriptors.
-/

set_option autoImplicit false
set_option relaxedAutoImplicit false

namespace Nebula.Async

open Nebula.Library FdTable

/-! ### Slots that are not in the list any more -/

namespace FdTable

/-- What is read at a slot, if a slot outside the list holds `stale`. -/
def slotOr (t : FdTable) (idx stale : ℤ) : ℤ :=
  if 0 ≤ idx ∧ idx < t.numReadyFds then t.listOfReadyFds.cell idx else stale

/-- `settleReady`, where `value` is read at slot `idx`. -/
def settleReadyRead (t : FdTable) (idx fd value : ℤ) (result : Mask) : FdTable :=
  let info := t.fdEventList fd
  if guess info result ≠ 0 then t.setInfo fd { info with alreadyFired := guess info result }
  else
    let t := (t.setInfo fd { info with alreadyFired := 0 }).touchReady idx
    if value = fd then t.dropSlot idx else t

theorem slotOr_cell (t : FdTable) (idx : ℤ) :
    t.slotOr idx (t.listOfReadyFds.cell idx) = t.listOfReadyFds.cell idx := ite_self _

end FdTable

section Loop

variable {κ : Type*} [EpollKernel κ]

/-- `readyBody`, where `stale` is what a slot outside the list holds. -/
def readyBodyStale (stale : World κ → ℤ → ℤ) (env : Env κ) (x : ReadyLoop κ) :
    Outcome (ReadyLoop κ) :=
  x.reading.invoke env (.ready x.idx) x.invocation
    (fun w ↦ { x with processed := x.processed + 1, world := w })
    fun w result ↦
      { processed := x.processed + 1
        idx := if guess (w.ae.fds.fdEventList x.fd) result ≠ 0 then x.idx + 1 else x.idx
        world := w.setFds
          (w.ae.fds.settleReadyRead x.idx x.fd (w.ae.fds.slotOr x.idx (stale w x.idx)) result) }

/-- `processReadyFds`, where `stale` is what a slot outside the list holds when the list has been
shortened up to it. -/
def processReadyFdsStale (stale : World κ → ℤ → ℤ) (env : Env κ) (fuel : ℕ) (w : World κ) :
    Outcome (ReadyLoop κ) :=
  whileLoop readyGuard (readyBodyStale stale env) fuel ⟨0, 0, w⟩

/-- The state in front of the next round. -/
def ReadyLoop.next (stale : World κ → ℤ → ℤ) (env : Env κ) (x : ReadyLoop κ) : ReadyLoop κ :=
  let t := (x.returned env).1.ae.fds
  let result := (x.returned env).2
  { processed := x.processed + 1
    idx := if guess (t.fdEventList x.fd) result ≠ 0 then x.idx + 1 else x.idx
    world := (x.returned env).1.setFds
      (t.settleReadyRead x.idx x.fd (t.slotOr x.idx (stale (x.returned env).1 x.idx)) result) }

theorem readyBodyStale_of_ne_null {stale : World κ → ℤ → ℤ} {env : Env κ} {x : ReadyLoop κ}
    (h : x.invocation.entry ≠ null) : readyBodyStale stale env x = .done (x.next stale env) :=
  World.invoke_of_ne_null h

/-- The loop is the one in which the slots outside the list hold what they hold. -/
theorem processReadyFds_eq_stale (env : Env κ) : processReadyFds env =
    processReadyFdsStale (fun w idx ↦ w.ae.fds.listOfReadyFds.cell idx) env := by
  have hbody : readyBody env =
      readyBodyStale (fun w idx ↦ w.ae.fds.listOfReadyFds.cell idx) env := by
    funext x
    unfold readyBody readyBodyStale
    simp only [slotOr_cell]
    rfl
  funext fuel w
  rw [processReadyFds, hbody, processReadyFdsStale]

end Loop

/-! ### The list -/

namespace FdTable

/-- The ready list holds different registered descriptors. -/
structure Rostered (t : FdTable) : Prop where
  keyed : t.listOfReadyFds.Keyed id t.numReadyFds
  monitored : ∀ fd, t.Listed fd → (t.fdEventList fd).monitored ≠ 0

variable {t t' : FdTable} {idx fd value : ℤ} {result : Mask}

theorem Rostered.setInfo (h : t.Rostered) {info : FdEventInfo}
    (hinfo : t.Listed fd → info.monitored ≠ 0) : (t.setInfo fd info).Rostered where
  keyed := h.keyed
  monitored := by
    intro fd' hlisted
    rw [fdEventList_setInfo]
    split_ifs with heq
    · exact hinfo (heq ▸ hlisted)
    · exact h.monitored fd' hlisted

theorem Rostered.dropSlot (h : t.Rostered) (hidx : 0 ≤ idx) (hlt : idx < t.numReadyFds) :
    (t.dropSlot idx).Rostered where
  keyed := h.keyed.moveInto hidx hlt
  monitored fd hfd := h.monitored fd ((listed_dropSlot h.keyed hidx hlt).mp hfd).1

/-- A slot that is dropped behind the list is in fact its last one. -/
theorem Rostered.dropSlot_behind (h : t.Rostered) (hpos : 0 < t.numReadyFds)
    (hle : t.numReadyFds ≤ idx) : (t.dropSlot idx).Rostered where
  keyed := ((h.keyed.pop hpos).touch _).write_of_le (by omega) _
  monitored fd hfd := by
    rw [listed_dropSlot_behind hle] at hfd
    exact h.monitored fd ((listed_dropSlot h.keyed (by omega) (by omega)).mp hfd).1

theorem Change.rostered (hchange : Change t t') (h : t.Rostered) : t'.Rostered := by
  cases hchange with
  | unchanged => exact h
  | registered fd mask proc data procExp dataExp hvalid =>
    have hrow : (t.setInfo fd { t.fdEventList fd with
        monitored := (t.fdEventList fd).monitored ||| mask
        proc := proc
        data := data
        procExp := procExp
        dataExp := dataExp }).Rostered :=
      h.setInfo fun hlisted hzero ↦ h.monitored fd hlisted (BitVec.or_eq_zero_iff.mp hzero).1
    exact ⟨hrow.keyed, hrow.monitored⟩
  | unmasked fd mask hvalid hrest => exact h.setInfo fun _ ↦ hrest
  | cleared fd hvalid =>
    have hnot : ¬ (t.dropReady fd).Listed fd := fun hfd ↦ ((listed_dropReady h.keyed).mp hfd).2 rfl
    have hdrop : (t.dropReady fd).Rostered := by
      rcases dropReady_cases h.keyed fd with ⟨-, heq⟩ | ⟨i, hi, hlt, -, heq⟩
      · rwa [heq]
      · rw [heq]
        exact h.dropSlot hi hlt
    have hrow : ((t.dropReady fd).setInfo fd .zero).Rostered :=
      hdrop.setInfo fun hfd ↦ absurd hfd hnot
    exact ⟨hrow.keyed, hrow.monitored⟩

theorem Rostered.changes (h : t.Rostered) (hchanges : Relation.ReflTransGen Change t t') :
    t'.Rostered := by
  induction hchanges with
  | refl => exact h
  | tail _ hchange ih => exact hchange.rostered ih

/-- Taking a result into account keeps the list, whatever a slot outside it holds, unless a slot of
an empty list is dropped. -/
theorem Rostered.settleReadyRead (h : t.Rostered) (hidx : 0 ≤ idx) :
    (t.settleReadyRead idx fd value result).Rostered ∨
      (t.settleReadyRead idx fd value result).numReadyFds < 0 := by
  unfold FdTable.settleReadyRead
  by_cases hguess : guess (t.fdEventList fd) result ≠ 0
  · simp only [if_pos hguess]
    exact Or.inl (h.setInfo fun hlisted ↦ h.monitored fd hlisted)
  · simp only [if_neg hguess]
    have hrow : (t.setInfo fd { t.fdEventList fd with alreadyFired := 0 }).Rostered :=
      h.setInfo fun hlisted ↦ h.monitored fd hlisted
    have htouch : ((t.setInfo fd { t.fdEventList fd with alreadyFired := 0 }).touchReady
        idx).Rostered := ⟨hrow.keyed.touch idx, hrow.monitored⟩
    split_ifs
    · rcases lt_or_ge idx t.numReadyFds with hlt | hle
      · exact Or.inl (htouch.dropSlot hidx hlt)
      · rcases lt_or_ge 0 t.numReadyFds with hpos | hempty
        · exact Or.inl (htouch.dropSlot_behind hpos hle)
        · refine Or.inr ?_
          change t.numReadyFds - 1 < 0
          omega
    · exact Or.inl htouch

/-- Either the cursor or the end of the list moves, or the slot at the cursor holds something
else. -/
theorem settleReadyRead_advances (t : FdTable) (idx fd value : ℤ) (result : Mask) :
    (t.settleReadyRead idx fd value result).numReadyFds -
          (if guess (t.fdEventList fd) result ≠ 0 then idx + 1 else idx) < t.numReadyFds - idx ∨
      (t.settleReadyRead idx fd value result).numReadyFds -
          (if guess (t.fdEventList fd) result ≠ 0 then idx + 1 else idx) = t.numReadyFds - idx ∧
        value ≠ fd := by
  unfold FdTable.settleReadyRead
  by_cases hguess : guess (t.fdEventList fd) result ≠ 0
  · simp only [if_pos hguess]
    refine Or.inl ?_
    change t.numReadyFds - (idx + 1) < _
    omega
  · simp only [if_neg hguess]
    split_ifs with hvalue
    · refine Or.inl ?_
      change t.numReadyFds - 1 - idx < _
      omega
    · exact Or.inr ⟨rfl, hvalue⟩

end FdTable

/-! ### The rounds -/

section Rounds

variable {κ : Type*} [EpollKernel κ] {stale : World κ → ℤ → ℤ} {env : Env κ} {n : ℤ}
  {calls : ℕ}

namespace ReadyLoop

/-- A registered descriptor without a callback has been called. -/
def CalledNull (x : ReadyLoop κ) : Prop :=
  ∃ fd mask info, x.world.log.head? = some (.called (.proc fd mask info)) ∧
    info.monitored ≠ 0 ∧ info.proc = null

/-- The callbacks that have been called since the loop was entered have been counted, and there are
no more than `n` of them. -/
structure Counted (n : ℤ) (calls : ℕ) (x : ReadyLoop κ) : Prop where
  processed_eq : calls + x.processed = x.world.invocations.length
  processed_le : x.processed ≤ n

/-- The loop between two rounds: there are slots of the list ahead for all rounds that are left. -/
structure Rounding (n : ℤ) (calls : ℕ) (x : ReadyLoop κ) : Prop extends Counted n calls x where
  idx_nonneg : 0 ≤ x.idx
  rostered : x.world.ae.fds.Rostered ∨ x.world.ae.fds.numReadyFds < 0
  left_le : x.processed + (x.world.ae.fds.numReadyFds - x.idx) ≤ n

variable {x : ReadyLoop κ}

omit [EpollKernel κ] in
theorem Rounding.fds_rostered (h : x.Rounding n calls) (hguard : readyGuard x = true) :
    x.world.ae.fds.Rostered := by
  have hidx := h.idx_nonneg
  simp only [readyGuard, decide_eq_true_eq] at hguard
  exact h.rostered.resolve_right (by omega)

/-- Whatever a slot outside the list holds, a round brings the cursor and the end of the list
closer. -/
theorem next_advances (hidx : 0 ≤ x.idx) (hguard : readyGuard x = true)
    (stale : World κ → ℤ → ℤ) (env : Env κ) :
    (x.next stale env).world.ae.fds.numReadyFds - (x.next stale env).idx <
      x.world.ae.fds.numReadyFds - x.idx := by
  simp only [readyGuard, decide_eq_true_eq] at hguard
  have hreturned := x.numReadyFds_returned env
  have hadvances := settleReadyRead_advances (x.returned env).1.ae.fds x.idx x.fd
    ((x.returned env).1.ae.fds.slotOr x.idx (stale (x.returned env).1 x.idx)) (x.returned env).2
  change (x.next stale env).world.ae.fds.numReadyFds - (x.next stale env).idx < _ ∨
    (x.next stale env).world.ae.fds.numReadyFds - (x.next stale env).idx = _ ∧ _ at hadvances
  rcases hadvances with hlt | ⟨heq, hcell⟩
  · rcases hreturned with ⟨hnum, -⟩ | hnum <;> omega
  · rcases hreturned with ⟨hnum, hcells⟩ | hnum
    · -- the slot at the cursor is one of the list, and holds what it held before
      rw [slotOr, if_pos ⟨hidx, hnum ▸ hguard⟩, hcells] at hcell
      exact absurd rfl hcell
    · omega

omit [EpollKernel κ] in
theorem invocations_setFds (w : World κ) (t : FdTable) :
    (w.setFds t).invocations = w.invocations := rfl

/-- A round that returns from the callback ends in front of the next one. -/
theorem Rounding.next (h : x.Rounding n calls) (hguard : readyGuard x = true)
    (stale : World κ → ℤ → ℤ) (env : Env κ) : (x.next stale env).Rounding n calls := by
  have hrostered := h.fds_rostered hguard
  have hidx := h.idx_nonneg
  have hleft := h.left_le
  have hprocessed := h.processed_eq
  have hadvances := next_advances hidx hguard stale env
  simp only [readyGuard, decide_eq_true_eq] at hguard
  have hcalls : (x.returned env).1.invocations = x.world.invocations ++ [x.invocation] :=
    World.invocations_callback env (.ready x.idx) x.reading x.invocation
  have hchanges : Relation.ReflTransGen Change x.reading.ae.fds (x.returned env).1.ae.fds :=
    World.changes_callback env (.ready x.idx) x.reading x.invocation
  have hreading : x.reading.ae.fds.Rostered := ⟨hrostered.keyed.touch x.idx, hrostered.monitored⟩
  refine ⟨⟨?_, ?_⟩, ?_, (hreading.changes hchanges).settleReadyRead hidx, ?_⟩
  · change calls + (x.processed + 1) = _
    rw [ReadyLoop.next, invocations_setFds, hcalls, List.length_append, List.length_singleton]
    push_cast
    omega
  · change x.processed + 1 ≤ n
    omega
  · unfold ReadyLoop.next
    simp only
    split_ifs <;> omega
  · change x.processed + 1 + _ ≤ n
    omega

/-- A round that calls `NULL` was about to call the callback of a registered descriptor. -/
theorem Rounding.calledNull (h : x.Rounding n calls) (hguard : readyGuard x = true)
    (hnull : x.invocation.entry = null) (stale : World κ → ℤ → ℤ) (env : Env κ) :
    ∃ y, readyBodyStale stale env x = .crashed y ∧ y.CalledNull ∧ y.Counted n calls := by
  have hrostered := h.fds_rostered hguard
  have hprocessed := h.processed_eq
  have hidx := h.idx_nonneg
  have hleft := h.left_le
  simp only [readyGuard, decide_eq_true_eq] at hguard
  have hlisted : x.world.ae.fds.Listed x.fd := ⟨x.idx, hidx, hguard, rfl⟩
  have hcalls : (x.reading.record (.called x.invocation)).invocations =
      x.world.invocations ++ [x.invocation] := World.invocations_record ..
  refine ⟨_, World.invoke_of_null hnull,
    ⟨x.fd, _, x.info, rfl, hrostered.monitored _ hlisted, hnull⟩, ?_, ?_⟩
  · change calls + (x.processed + 1) = _
    rw [hcalls, List.length_append, List.length_singleton]
    push_cast
    omega
  · change x.processed + 1 ≤ n
    omega

end ReadyLoop

open ReadyLoop

/-- What should come of a run of the loop: it has ended, after at most `n` calls of callbacks, which
it has counted. The process dies if one of the registered descriptors has no callback. -/
structure Bounded (n : ℤ) (w : World κ) (o : Outcome (ReadyLoop κ)) : Prop where
  ended : (∃ x, o = .done x) ∨ ∃ x, o = .crashed x ∧ x.CalledNull
  processed_le : o.state.processed ≤ n
  calls_eq : w.invocations.length + o.state.processed = o.state.world.invocations.length

/-- A run from between two rounds. -/
theorem ReadyLoop.Rounding.bounded {w : World κ} : ∀ (fuel : ℕ) {x : ReadyLoop κ},
    x.Rounding n w.invocations.length → x.world.ae.fds.numReadyFds - x.idx ≤ fuel →
      Bounded n w (whileLoop readyGuard (readyBodyStale stale env) fuel x) := by
  intro fuel
  induction fuel with
  | zero =>
    intro x h hfuel
    have hguard : readyGuard x = false := by
      simp only [readyGuard, decide_eq_false_iff_not]
      omega
    rw [whileLoop_of_not_guard hguard]
    exact ⟨Or.inl ⟨x, rfl⟩, h.processed_le, h.processed_eq⟩
  | succ fuel ih =>
    intro x h hfuel
    cases hguard : readyGuard x with
    | false =>
      rw [whileLoop_of_not_guard hguard]
      exact ⟨Or.inl ⟨x, rfl⟩, h.processed_le, h.processed_eq⟩
    | true =>
      rw [whileLoop_succ hguard]
      by_cases hnull : x.invocation.entry = null
      · obtain ⟨y, hy, hcalled, hcounted⟩ := h.calledNull hguard hnull stale env
        rw [hy]
        exact ⟨Or.inr ⟨y, rfl, hcalled⟩, hcounted.processed_le, hcounted.processed_eq⟩
      · rw [readyBodyStale_of_ne_null hnull]
        have hlt := next_advances h.idx_nonneg hguard stale env
        push_cast at hfuel
        exact ih (h.next hguard stale env) (by omega)

/-- From a list of `n` different registered descriptors, the loop ends after at most `n` rounds,
whatever the callbacks do and whatever a slot outside the list holds. -/
theorem processReadyFds_bounded (env : Env κ) (w : World κ) (hw : w.ae.fds.Rostered) :
    (∀ stale, ∀ fuel : ℕ, w.ae.fds.numReadyFds ≤ fuel →
        Bounded w.ae.fds.numReadyFds w (processReadyFdsStale stale env fuel w)) ∧
      ∀ fuel : ℕ, w.ae.fds.numReadyFds ≤ fuel →
        Bounded w.ae.fds.numReadyFds w (processReadyFds env fuel w) := by
  have hstart : (⟨0, 0, w⟩ : ReadyLoop κ).Rounding w.ae.fds.numReadyFds w.invocations.length :=
    ⟨⟨by simp, hw.keyed.nonneg⟩, le_rfl, Or.inl hw, by simp⟩
  have hstale : ∀ stale, ∀ fuel : ℕ, w.ae.fds.numReadyFds ≤ fuel →
      Bounded w.ae.fds.numReadyFds w (processReadyFdsStale stale env fuel w) :=
    fun stale fuel hfuel ↦ hstart.bounded fuel (by simpa using hfuel)
  rw [processReadyFds_eq_stale]
  exact ⟨hstale, hstale _⟩

/-- One listed descriptor, which removes itself. -/
theorem processReadyFds_bounded_pendingWorld :
    (∀ stale, ∀ fuel : ℕ, pendingWorld.ae.fds.numReadyFds ≤ fuel →
        Bounded pendingWorld.ae.fds.numReadyFds pendingWorld
          (processReadyFdsStale stale (constantEnv [.removeFd 3 false] 0) fuel pendingWorld)) ∧
      ∀ fuel : ℕ, pendingWorld.ae.fds.numReadyFds ≤ fuel →
        Bounded pendingWorld.ae.fds.numReadyFds pendingWorld
          (processReadyFds (constantEnv [.removeFd 3 false] 0) fuel pendingWorld) :=
  processReadyFds_bounded (constantEnv [.removeFd 3 false] 0) pendingWorld
    ⟨wellFormed_pendingWorld.keyed, fun fd hfd ↦
      wellFormed_pendingWorld.monitored fd (wellFormed_pendingWorld.valid fd hfd)
        (wellFormed_pendingWorld.fired fd hfd)⟩

end Rounds

end Nebula.Async
