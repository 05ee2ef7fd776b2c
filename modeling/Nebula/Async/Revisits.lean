import Nebula.Async.IoRound
import Nebula.Async.ReadyRounds

/-!
A round of `processReadyFds` in which callbacks register and unregister descriptors, their own and
others. The list only ever gets shorter in the round: a descriptor is unregistered and the last one
moves into its slot, which may lie in front of the cursor. A descriptor moved there is left out of
the round.

`processReadyFds_revisits` says what becomes of the listed descriptors all the same, as long as
every callback returns cleanly: none is called twice, none for other events than were still to be
handled for it, and each that is left out is still listed with all of these, or has been
unregistered by a callback. When callbacks unregister no descriptor but their own, none is left out
of a round that ends.
-/

set_option autoImplicit false
set_option relaxedAutoImplicit false

namespace Nebula.Async

open Nebula.Library FdTable

namespace FdTable

/-- The descriptor is in the list at a slot or behind it. -/
def ListedFrom (t : FdTable) (idx fd : ℤ) : Prop :=
  ∃ i, idx ≤ i ∧ i < t.numReadyFds ∧ t.listOfReadyFds.cell i = fd

variable {t t' : FdTable} {idx fd fd' : ℤ} {result : Mask}

theorem ListedFrom.listed (h : t.ListedFrom idx fd) (hidx : 0 ≤ idx) : t.Listed fd := by
  obtain ⟨i, hi, hlt, hcell⟩ := h
  exact ⟨i, by omega, hlt, hcell⟩

/-- The last slot is not moved to behind a slot from in front of it. -/
theorem listedFrom_of_dropSlot {i : ℤ} (h : (t.dropSlot i).ListedFrom idx fd) :
    t.ListedFrom idx fd := by
  obtain ⟨j, hj, hlt, hcell⟩ := h
  change j < t.numReadyFds - 1 at hlt
  change (t.listOfReadyFds.moveInto i (t.numReadyFds - 1)).cell j = fd at hcell
  rw [Buffer.cell_moveInto] at hcell
  split_ifs at hcell
  · exact ⟨t.numReadyFds - 1, by omega, by omega, hcell⟩
  · exact ⟨j, hj, by omega, hcell⟩

theorem listedFrom_of_dropReady (h : t.Sound) (hlisted : (t.dropReady fd').ListedFrom idx fd) :
    t.ListedFrom idx fd := by
  rcases dropReady_cases h.keyed fd' with ⟨-, heq⟩ | ⟨i, -, -, -, heq⟩
  · rwa [heq] at hlisted
  · rw [heq] at hlisted
    exact listedFrom_of_dropSlot hlisted

theorem Change.listedFrom (hchange : Change t t') (h : t.Sound) (hlisted : t'.ListedFrom idx fd) :
    t.ListedFrom idx fd := by
  cases hchange with
  | cleared fd' hvalid => exact listedFrom_of_dropReady (t := t) h hlisted
  | _ => exact hlisted

theorem Sound.listedFrom_changes (h : t.Sound) (hchanges : Relation.ReflTransGen Change t t')
    (hlisted : t'.ListedFrom idx fd) : t.ListedFrom idx fd := by
  induction hchanges with
  | refl => exact hlisted
  | tail hprev hchange ih => exact ih (hchange.listedFrom (h.changes hprev) hlisted)

/-- Events still to be handled stay with a descriptor, or it is not listed any more. -/
theorem Sound.fired_changes (h : t.Sound) (hchanges : Relation.ReflTransGen Change t t') (fd : ℤ) :
    ((t'.fdEventList fd).alreadyFired = (t.fdEventList fd).alreadyFired ∧
        (t'.Listed fd ↔ t.Listed fd)) ∨ ¬ t'.Listed fd := by
  induction hchanges with
  | refl => exact Or.inl ⟨rfl, Iff.rfl⟩
  | tail hprev hchange ih =>
    rcases hchange.fired (h.changes hprev) fd with ⟨hfired, hlisted⟩ | ⟨-, hnot⟩
    · rcases ih with ⟨hfired', hlisted'⟩ | hnot
      · exact Or.inl ⟨hfired.trans hfired', hlisted.trans hlisted'⟩
      · exact Or.inr fun hfd ↦ hnot (hlisted.mp hfd)
    · exact Or.inr hnot

/-- Taking a clean result into account does not concern the other descriptors. -/
theorem listed_settleReady (h : t.Sound) (hbounds : t.listOfReadyFds.InBounds idx)
    (hclean : t.ReturnsCleanly idx fd result) (hne : fd' ≠ fd) :
    (t.settleReady idx fd result).Listed fd' ↔ t.Listed fd' := by
  rw [settleReady_eq hbounds]
  unfold ReturnsCleanly at hclean
  split_ifs at hclean ⊢ with hguess hcell
  · rfl
  · change (t.dropSlot idx).Listed fd' ↔ _
    rcases lt_or_ge idx t.numReadyFds with hlt | hle
    · rw [listed_dropSlot h.keyed hbounds.1 hlt, hcell]
      exact and_iff_left hne
    · obtain ⟨hpos, hlast⟩ := (hclean hcell).resolve_left (by omega)
      rw [listed_dropSlot_behind hle, listed_dropSlot h.keyed (by omega) (by omega), hlast]
      exact and_iff_left hne
  · rfl

/-- What is ahead of the cursor after a clean result was so before, and is not the descriptor. -/
theorem listedFrom_of_settleReady (h : t.Sound) (hbounds : t.listOfReadyFds.InBounds idx)
    (htrail : t.Listed fd → t.listOfReadyFds.cell idx = fd)
    (hclean : t.ReturnsCleanly idx fd result)
    (hlisted : (t.settleReady idx fd result).ListedFrom
      (if guess (t.fdEventList fd) result ≠ 0 then idx + 1 else idx) fd') :
    t.ListedFrom idx fd' ∧ fd' ≠ fd := by
  rw [settleReady_eq hbounds] at hlisted
  unfold ReturnsCleanly at hclean
  split_ifs at hclean hlisted with hguess hcell
  · obtain ⟨i, hi, hlt, hfd⟩ := hlisted
    change i < t.numReadyFds at hlt
    change t.listOfReadyFds.cell i = fd' at hfd
    refine ⟨⟨i, by omega, hlt, hfd⟩, ?_⟩
    rintro rfl
    have hidx := hbounds.1
    have := h.keyed.index_eq i idx (by omega) hlt hidx (by omega) (hfd.trans (htrail hclean).symm)
    omega
  · change (t.dropSlot idx).ListedFrom idx fd' at hlisted
    refine ⟨listedFrom_of_dropSlot hlisted, ?_⟩
    obtain ⟨i, hi, hlt, -⟩ := id hlisted
    change i < t.numReadyFds - 1 at hlt
    have hdropped := hlisted.listed hbounds.1
    rw [listed_dropSlot h.keyed hbounds.1 (by omega), hcell] at hdropped
    exact hdropped.2
  · change t.ListedFrom idx fd' at hlisted
    refine ⟨hlisted, ?_⟩
    rintro rfl
    exact hcell (htrail (hlisted.listed hbounds.1))

/-- The other descriptors ahead of the cursor stay ahead of it. -/
theorem listedFrom_settleReady (hbounds : t.listOfReadyFds.InBounds idx)
    (htrail : t.Listed fd → t.listOfReadyFds.cell idx = fd)
    (hclean : t.ReturnsCleanly idx fd result) (hne : fd' ≠ fd) (hlisted : t.ListedFrom idx fd') :
    (t.settleReady idx fd result).ListedFrom
      (if guess (t.fdEventList fd) result ≠ 0 then idx + 1 else idx) fd' := by
  obtain ⟨i, hi, hlt, hfd⟩ := hlisted
  rw [settleReady_eq hbounds]
  unfold ReturnsCleanly at hclean
  split_ifs at hclean ⊢ with hguess hcell
  · have hi' : i ≠ idx := by
      rintro rfl
      exact hne (hfd.symm.trans (htrail hclean))
    exact ⟨i, by omega, hlt, hfd⟩
  · have hi' : i ≠ idx := by
      rintro rfl
      exact hne (hfd.symm.trans hcell)
    change (t.dropSlot idx).ListedFrom idx fd'
    -- the last slot moves into the one at the cursor
    rcases eq_or_ne i (t.numReadyFds - 1) with hlast | hlast
    · refine ⟨idx, le_rfl, ?_, ?_⟩
      · change idx < t.numReadyFds - 1
        omega
      · change (t.listOfReadyFds.moveInto idx (t.numReadyFds - 1)).cell idx = fd'
        rw [Buffer.cell_moveInto, if_pos rfl, ← hlast, hfd]
    · refine ⟨i, hi, ?_, ?_⟩
      · change i < t.numReadyFds - 1
        omega
      · change (t.listOfReadyFds.moveInto idx (t.numReadyFds - 1)).cell i = fd'
        rw [Buffer.cell_moveInto, if_neg hi', hfd]
  · exact ⟨i, hi, hlt, hfd⟩

/-- Clearing the descriptor at the cursor leaves the others ahead of the cursor there. -/
theorem listedFrom_clearFd (h : t.Sound) (htrail : t.Listed fd → t.listOfReadyFds.cell idx = fd)
    (hidx : 0 ≤ idx) (hne : fd' ≠ fd) (hlisted : t.ListedFrom idx fd') :
    (t.clearFd fd).ListedFrom idx fd' := by
  obtain ⟨i, hi, hlt, hfd⟩ := hlisted
  change (t.dropReady fd).ListedFrom idx fd'
  rcases dropReady_cases h.keyed fd with ⟨-, heq⟩ | ⟨j, hj, hlt', hcell, heq⟩
  · rw [heq]
    exact ⟨i, hi, hlt, hfd⟩
  · -- the descriptor is in its slot at the cursor
    have hcursor := htrail ⟨j, hj, hlt', hcell⟩
    obtain rfl := h.keyed.index_eq j idx hj hlt' hidx (by omega) (hcell.trans hcursor.symm)
    have hij : i ≠ j := by
      rintro rfl
      exact hne (hfd.symm.trans hcell)
    rw [heq]
    rcases eq_or_ne i (t.numReadyFds - 1) with hlast | hlast
    · refine ⟨j, le_rfl, ?_, ?_⟩
      · change j < t.numReadyFds - 1
        omega
      · change (t.listOfReadyFds.moveInto j (t.numReadyFds - 1)).cell j = fd'
        rw [Buffer.cell_moveInto, if_pos rfl, ← hlast, hfd]
    · refine ⟨i, hi, ?_, ?_⟩
      · change i < t.numReadyFds - 1
        omega
      · change (t.listOfReadyFds.moveInto j (t.numReadyFds - 1)).cell i = fd'
        rw [Buffer.cell_moveInto, if_neg hij, hfd]

end FdTable

/-! ### Callbacks that unregister no other descriptor -/

/-- The call is one of `delFdEvent` or `removeFd` for another descriptor. -/
def Call.UnregistersOther (fd : ℤ) : Call → Prop
  | .delFdEvent fd' _ => fd' ≠ fd
  | .removeFd fd' _ => fd' ≠ fd
  | _ => False

/-- The call is one of `delFdEvent` or `removeFd` for the descriptor. -/
def Call.Unregisters (fd : ℤ) : Call → Prop
  | .delFdEvent fd' _ => fd' = fd
  | .removeFd fd' _ => fd' = fd
  | _ => False

/-- The callback of a descriptor unregisters no other one. -/
def Env.UnregistersOwn {κ : Type*} (env : Env κ) : Prop :=
  ∀ w fd mask info, ∀ c ∈ (env.react w (.proc fd mask info)).calls, ¬ c.UnregistersOther fd

section Rounds

variable {κ : Type*} [EpollKernel κ] {env : Env κ}

/-- A call that unregisters no other descriptor leaves the list alone, or clears the row. -/
theorem World.call_own (env : Env κ) (w : World κ) {c : Call} {fd : ℤ}
    (hc : ¬ c.UnregistersOther fd) :
    ((w.call env c).2.ae.fds.listOfReadyFds = w.ae.fds.listOfReadyFds ∧
        (w.call env c).2.ae.fds.numReadyFds = w.ae.fds.numReadyFds) ∨
      (w.call env c).2.ae.fds = w.ae.fds.clearFd fd := by
  cases c with
  | addFdEvent fd' mask proc data procExp dataExp =>
    rcases addFdEvent_cases w.ae.fds w.kernel fd' mask proc data procExp dataExp with
      ⟨kernel', h, -⟩ | ⟨-, kernel', -, h⟩
    · exact Or.inl ⟨by simp [call, h], by simp [call, h]⟩
    · exact Or.inl ⟨by simp [call, h, register, setInfo], by simp [call, h, register, setInfo]⟩
  | delFdEvent fd' mask =>
    obtain rfl : fd' = fd := not_not.mp hc
    rcases delFdEvent_cases w.ae.fds w.kernel fd' mask with
      ⟨kernel', h, -⟩ | ⟨-, h⟩ | ⟨-, -, kernel', -, h⟩ | ⟨-, -, events, kernel', -, h⟩
    · exact Or.inl ⟨by simp [call, h], by simp [call, h]⟩
    · exact Or.inl ⟨by simp [call, h], by simp [call, h]⟩
    · exact Or.inl ⟨by simp [call, h, unmask, setInfo], by simp [call, h, unmask, setInfo]⟩
    · exact Or.inr (by simp [call, h])
  | removeFd fd' closeIt =>
    obtain rfl : fd' = fd := not_not.mp hc
    rcases removeFd_cases w.ae.fds w.kernel fd' closeIt with
      ⟨kernel', h, -⟩ | ⟨-, -, h⟩ | ⟨-, -, kernel', -, h⟩
    · exact Or.inl ⟨by simp [call, h], by simp [call, h]⟩
    · exact Or.inl ⟨by simp [call, h], by simp [call, h]⟩
    · exact Or.inr (by simp [call, h])
  | addTimeEvent msLater proc data =>
    simp only [call, addTimeEvent]
    split <;> exact Or.inl ⟨rfl, rfl⟩
  | delTimeEvent timeEventId => exact Or.inl ⟨rfl, rfl⟩
  | start => exact Or.inl ⟨rfl, rfl⟩
  | stop => exact Or.inl ⟨rfl, rfl⟩

/-- The other descriptors ahead of the cursor are still ahead of it after such calls. -/
theorem World.listedFrom_runCalls {idx fd fd' : ℤ} (hidx : 0 ≤ idx) (hne : fd' ≠ fd) :
    ∀ {calls : List Call} {w : World κ}, (∀ c ∈ calls, ¬ c.UnregistersOther fd) →
      w.ae.fds.Sound → (w.ae.fds.Listed fd → w.ae.fds.listOfReadyFds.cell idx = fd) →
      w.ae.fds.ListedFrom idx fd' → (w.runCalls env calls).ae.fds.ListedFrom idx fd' := by
  intro calls
  induction calls with
  | nil => exact fun _ _ _ hlisted ↦ hlisted
  | cons c rest ih =>
    intro w hcalls h htrail hlisted
    obtain ⟨hc, hrest⟩ := List.forall_mem_cons.mp hcalls
    have hchange := World.change_call env w c
    refine ih hrest (hchange.sound h) (hchange.trail h htrail) ?_
    rcases World.call_own env w hc with ⟨hlist, hnum⟩ | hcleared
    · unfold ListedFrom at hlisted ⊢
      rw [hlist, hnum]
      exact hlisted
    · rw [hcleared]
      exact listedFrom_clearFd h htrail hidx hne hlisted

/-- A descriptor is listed after a call that does not unregister it exactly if it was before. -/
theorem World.listed_call (env : Env κ) {w : World κ} {c : Call} {fd : ℤ} (h : w.ae.fds.Sound)
    (hc : ¬ c.Unregisters fd) : (w.call env c).2.ae.fds.Listed fd ↔ w.ae.fds.Listed fd := by
  have hcleared : ∀ fd', fd' ≠ fd → ((w.ae.fds.clearFd fd').Listed fd ↔ w.ae.fds.Listed fd) := by
    intro fd' hne
    change (w.ae.fds.dropReady fd').Listed fd ↔ _
    rw [listed_dropReady h.keyed]
    exact and_iff_left hne.symm
  cases c with
  | addFdEvent fd' mask proc data procExp dataExp =>
    rcases addFdEvent_cases w.ae.fds w.kernel fd' mask proc data procExp dataExp with
      ⟨kernel', heq, -⟩ | ⟨-, kernel', -, heq⟩
    · simp [call, heq]
    · simp only [call, heq]
      exact Iff.rfl
  | delFdEvent fd' mask =>
    rcases delFdEvent_cases w.ae.fds w.kernel fd' mask with
      ⟨kernel', heq, -⟩ | ⟨-, heq⟩ | ⟨-, -, kernel', -, heq⟩ | ⟨-, -, events, kernel', -, heq⟩
    · simp [call, heq]
    · simp [call, heq]
    · simp only [call, heq]
      exact Iff.rfl
    · simp only [call, heq, fds_setFds]
      exact hcleared fd' hc
  | removeFd fd' closeIt =>
    rcases removeFd_cases w.ae.fds w.kernel fd' closeIt with
      ⟨kernel', heq, -⟩ | ⟨-, -, heq⟩ | ⟨-, -, kernel', -, heq⟩
    · simp [call, heq]
    · simp [call, heq]
    · simp only [call, heq, fds_setFds]
      exact hcleared fd' hc
  | addTimeEvent msLater proc data =>
    simp only [call, addTimeEvent]
    split <;> exact Iff.rfl
  | delTimeEvent timeEventId => exact Iff.rfl
  | start => exact Iff.rfl
  | stop => exact Iff.rfl

/-- A listed descriptor that is not listed any more after a sequence of calls has been unregistered
by one of them. -/
theorem World.exists_unregisters (env : Env κ) (w : World κ) {fd : ℤ} {calls : List Call}
    (h : w.ae.fds.Sound) (hlisted : w.ae.fds.Listed fd)
    (hnot : ¬ (w.runCalls env calls).ae.fds.Listed fd) : ∃ c ∈ calls, c.Unregisters fd := by
  induction calls generalizing w with
  | nil => exact absurd hlisted hnot
  | cons c rest ih =>
    by_cases hc : c.Unregisters fd
    · exact ⟨c, List.mem_cons_self, hc⟩
    · obtain ⟨c', hc', hunregisters⟩ := ih (w.call env c).2 ((World.change_call env w c).sound h)
        ((World.listed_call env h hc).mpr hlisted) hnot
      exact ⟨c', List.mem_cons_of_mem c hc', hunregisters⟩

/-! ### A round -/

namespace ReadyLoop

/-- The callback at the cursor has unregistered the descriptor, which was listed before. -/
def Unregisters (env : Env κ) (x : ReadyLoop κ) (fd : ℤ) : Prop :=
  x.world.ae.fds.Listed fd ∧ ¬ (x.returned env).1.ae.fds.Listed fd ∧
    ∃ c ∈ (env.react (x.reading.record (.called x.invocation)) x.invocation).calls,
      c.Unregisters fd

/-- The loop over the list of `w` has called the callbacks of the given descriptors, with the rows
they had then. -/
structure Revisited (env : Env κ) (w : World κ) (visited : List ℤ) (rows : ℤ → FdEventInfo)
    (x : ReadyLoop κ) : Prop where
  processed : x.processed = visited.length
  nodup : visited.Nodup
  invocations : x.world.invocations = w.invocations ++
    visited.map fun fd ↦ .proc fd (w.ae.fds.fdEventList fd).alreadyFired (rows fd)
  registered : ∀ fd ∈ visited, w.ae.fds.Listed fd ∧ (rows fd).monitored ≠ 0
  -- what has not been called for its events still has them all, or has been unregistered
  kept : ∀ fd, w.ae.fds.Listed fd → fd ∉ visited →
    (x.world.ae.fds.Listed fd ∧ (x.world.ae.fds.fdEventList fd).alreadyFired =
        (w.ae.fds.fdEventList fd).alreadyFired) ∨
      (¬ x.world.ae.fds.Listed fd ∧ ∃ n y, processReadyFds env n w = .running y ∧
        y.Unregisters env fd ∧ World.Adds (fun _ ↦ True) (y.returned env).1 x.world)

/-- The loop between two rounds. -/
structure Revisiting (env : Env κ) (w : World κ) (visited : List ℤ) (rows : ℤ → FdEventInfo)
    (x : ReadyLoop κ) : Prop extends x.Intact, Revisited env w visited rows x where
  reached : ∃ n, processReadyFds env n w = whileLoop readyGuard (readyBody env) 0 x
  listed : ∀ fd, x.world.ae.fds.Listed fd → w.ae.fds.Listed fd
  ahead : ∀ fd, x.world.ae.fds.ListedFrom x.idx fd → fd ∉ visited
  own : env.UnregistersOwn → ∀ fd, w.ae.fds.Listed fd → fd ∉ visited →
    x.world.ae.fds.ListedFrom x.idx fd

variable {w : World κ} {visited : List ℤ} {rows : ℤ → FdEventInfo} {x : ReadyLoop κ}

theorem revisiting_start (h : w.ae.fds.WellFormed)
    (hstrayed : w.ae.fds.listOfReadyFds.strayed = false) :
    Revisiting env w [] (fun _ ↦ .zero) ⟨0, 0, w⟩ where
  idx_nonneg := le_rfl
  wellFormed := h
  strayed := hstrayed
  processed := rfl
  nodup := .nil
  invocations := (List.append_nil _).symm
  registered _ hfd := absurd hfd List.not_mem_nil
  kept _ hlisted _ := Or.inl ⟨hlisted, rfl⟩
  reached := ⟨0, rfl⟩
  listed _ hlisted := hlisted
  ahead _ _ := List.not_mem_nil
  own _ _ hlisted _ := hlisted

/-- The descriptor at the cursor has not been called yet, and is called for what was still to be
handled when the loop was entered. -/
theorem Revisiting.atCursor (h : x.Revisiting env w visited rows) (hguard : readyGuard x = true) :
    x.fd ∉ visited ∧ w.ae.fds.Listed x.fd ∧ x.info.monitored ≠ 0 ∧
      x.info.alreadyFired = (w.ae.fds.fdEventList x.fd).alreadyFired := by
  have hlt : x.idx < x.world.ae.fds.numReadyFds := by simpa [readyGuard] using hguard
  have hlisted := h.toIntact.listed hguard
  have hnew : x.fd ∉ visited := h.ahead x.fd ⟨x.idx, le_rfl, hlt, rfl⟩
  have hinfo : x.info = x.world.ae.fds.fdEventList x.fd := by
    rw [info, h.toIntact.fds_reading hguard]
  refine ⟨hnew, h.listed x.fd hlisted, ?_, ?_⟩
  · rw [hinfo]
    exact h.wellFormed.monitored x.fd (h.wellFormed.valid x.fd hlisted)
      (h.wellFormed.fired x.fd hlisted)
  · rw [hinfo]
    rcases h.kept x.fd (h.listed x.fd hlisted) hnew with ⟨-, hfired⟩ | ⟨hnot, -⟩
    · exact hfired
    · exact absurd hlisted hnot

/-- The calls with the one at the cursor. -/
theorem Revisiting.calls (h : x.Revisiting env w visited rows) (hguard : readyGuard x = true) :
    (visited ++ [x.fd]).Nodup ∧
      (∀ fd ∈ visited ++ [x.fd],
        w.ae.fds.Listed fd ∧ (Function.update rows x.fd x.info fd).monitored ≠ 0) ∧
      x.world.invocations ++ [x.invocation] = w.invocations ++ (visited ++ [x.fd]).map fun fd ↦
        .proc fd (w.ae.fds.fdEventList fd).alreadyFired (Function.update rows x.fd x.info fd) := by
  obtain ⟨hnew, hlisted, hmonitored, hfired⟩ := h.atCursor hguard
  have hold : ∀ fd ∈ visited, Function.update rows x.fd x.info fd = rows fd := by
    intro fd hfd
    refine Function.update_of_ne ?_ _ _
    rintro rfl
    exact hnew hfd
  refine ⟨?_, ?_, ?_⟩
  · rw [List.nodup_append_comm, List.singleton_append, List.nodup_cons]
    exact ⟨hnew, h.nodup⟩
  · intro fd hfd
    rcases List.mem_append.mp hfd with hfd | hfd
    · rw [hold fd hfd]
      exact h.registered fd hfd
    · obtain rfl := List.mem_singleton.mp hfd
      rw [Function.update_self]
      exact ⟨hlisted, hmonitored⟩
  · have hcalls : (visited.map fun fd ↦ Invocation.proc fd (w.ae.fds.fdEventList fd).alreadyFired
        (Function.update rows x.fd x.info fd)) =
        visited.map fun fd ↦ .proc fd (w.ae.fds.fdEventList fd).alreadyFired (rows fd) :=
      List.map_congr_left fun fd hfd ↦ by rw [hold fd hfd]
    rw [List.map_append, hcalls, List.map_singleton, Function.update_self, ← hfired,
      h.invocations, List.append_assoc]
    rfl

/-- The loop comes to the round. -/
theorem Revisiting.running (h : x.Revisiting env w visited rows) (hguard : readyGuard x = true) :
    ∃ n, processReadyFds env n w = .running x := by
  obtain ⟨n, hn⟩ := h.reached
  exact ⟨n, hn.trans (whileLoop_zero hguard)⟩

/-- The callback at the cursor is `NULL`. -/
theorem Revisiting.crashed (h : x.Revisiting env w visited rows) (hguard : readyGuard x = true) :
    Revisited env w (visited ++ [x.fd]) (Function.update rows x.fd x.info)
      { x with
        processed := x.processed + 1
        world := x.reading.record (.called x.invocation) } := by
  obtain ⟨hnodup, hregistered, hcalls⟩ := h.calls hguard
  refine ⟨?_, hnodup, ?_, hregistered, fun fd hlisted hnew ↦ ?_⟩
  · rw [List.length_append, h.processed]
    rfl
  · exact (World.invocations_record ..).trans hcalls
  · have hkept := h.kept fd hlisted fun hfd ↦ hnew (List.mem_append_left _ hfd)
    rw [← h.toIntact.fds_reading hguard] at hkept
    refine hkept.imp_right fun ⟨hgone, n, y, hrunning, hunregisters, hadds⟩ ↦
      ⟨hgone, n, y, hrunning, hunregisters, ?_⟩
    exact World.Adds.trans hadds (World.adds_record x.reading trivial)

/-- The callback at the cursor returns cleanly. -/
theorem Revisiting.next (h : x.Revisiting env w visited rows) (hguard : readyGuard x = true)
    (hnull : x.invocation.entry ≠ null) (hclean : x.ReturnsCleanly env) :
    (x.resumed env).Revisiting env w (visited ++ [x.fd]) (Function.update rows x.fd x.info) := by
  obtain ⟨hnodup, hregistered, hcalls⟩ := h.calls hguard
  obtain ⟨hwellFormed, -, hbounds, -, htrail⟩ := h.toIntact.returned hguard env
  have hclean' := hclean hnull
  have hsound := hwellFormed.toSound
  have hstep : readyBody env x = .done (x.resumed env) := readyBody_of_ne_null hnull
  obtain ⟨n, hrunning⟩ := h.running hguard
  have hintact := intact_readyBody env h.toIntact hguard hclean
  rw [hstep] at hintact
  have hchanges : Relation.ReflTransGen Change x.world.ae.fds (x.returned env).1.ae.fds := by
    have := World.changes_callback env (.ready x.idx) x.reading x.invocation
    rwa [h.toIntact.fds_reading hguard] at this
  have hsettle : World.Adds (fun _ ↦ True) (x.returned env).1 (x.resumed env).world := .refl _
  have hadds : World.Adds (fun _ ↦ True) x.world (x.resumed env).world :=
    World.adds_true_callback env (.ready x.idx) x.reading x.invocation
  have hfired := h.wellFormed.toSound.fired_changes hchanges
  have hwas : ∀ fd, (x.returned env).1.ae.fds.Listed fd → x.world.ae.fds.Listed fd := by
    intro fd hlisted
    rcases hfired fd with ⟨-, hiff⟩ | hnot
    · exact hiff.mp hlisted
    · exact absurd hlisted hnot
  have hother : ∀ fd, fd ∉ visited ++ [x.fd] → fd ∉ visited ∧ fd ≠ x.fd := by
    intro fd hfd
    rw [List.mem_append, List.mem_singleton, not_or] at hfd
    exact hfd
  refine { toIntact := hintact, processed := ?_, nodup := hnodup, invocations := ?_,
           registered := hregistered, kept := ?_, reached := ⟨n + 1, ?_⟩, listed := ?_,
           ahead := ?_, own := ?_ }
  · change x.processed + 1 = _
    rw [List.length_append, h.processed]
    rfl
  · refine (invocations_setFds ..).trans (Eq.trans ?_ hcalls)
    exact World.invocations_callback env (.ready x.idx) x.reading x.invocation
  · intro fd hlisted hnew
    obtain ⟨hnew, hne⟩ := hother fd hnew
    have hkeeps := listed_settleReady hsound hbounds hclean' hne
    rcases h.kept fd hlisted hnew with ⟨hin, hsame⟩ | ⟨hout, m, y, hm, hunregisters, hlog⟩
    · rcases hfired fd with ⟨hfired, hiff⟩ | hnot
      · refine Or.inl ⟨hkeeps.mpr (hiff.mpr hin), ?_⟩
        have hrow : (x.resumed env).world.ae.fds.fdEventList fd =
            (x.returned env).1.ae.fds.fdEventList fd :=
          (fdEventList_settleReady hbounds fd).trans (if_neg hne)
        rw [hrow, hfired, hsame]
      · refine Or.inr ⟨fun hin' ↦ hnot (hkeeps.mp hin'), n, x, hrunning, ⟨hin, hnot, ?_⟩, hsettle⟩
        have hreading := h.toIntact.fds_reading hguard
        refine World.exists_unregisters env (x.reading.record (.called x.invocation)) ?_ ?_ hnot
        · exact hreading.symm ▸ h.wellFormed.toSound
        · exact hreading.symm ▸ hin
    · exact Or.inr ⟨fun hin ↦ hout (hwas fd (hkeeps.mp hin)), m, y, hm, hunregisters,
        hlog.trans hadds⟩
  · refine (whileLoop_succ_of_running (readyBody_ended env) hrunning).trans ?_
    rw [hstep, Outcome.andThen_done]
  · exact fun fd hlisted ↦ h.listed fd (hwas fd (listed_of_settleReady hbounds hlisted))
  · intro fd hlisted
    obtain ⟨hahead, hne⟩ := listedFrom_of_settleReady hsound hbounds htrail hclean' hlisted
    rw [List.mem_append, List.mem_singleton, not_or]
    exact ⟨h.ahead fd (h.wellFormed.toSound.listedFrom_changes hchanges hahead), hne⟩
  · intro henv fd hlisted hnew
    obtain ⟨hnew, hne⟩ := hother fd hnew
    refine listedFrom_settleReady hbounds htrail hclean' hne ?_
    have hreading := h.toIntact.fds_reading hguard
    refine World.listedFrom_runCalls (w := x.reading.record (.called x.invocation))
      h.idx_nonneg hne (henv _ _ _ _) ?_ ?_ ?_
    · exact hreading.symm ▸ h.wellFormed.toSound
    · exact fun _ ↦ rfl
    · exact hreading.symm ▸ h.own henv fd hlisted hnew

/-- Nothing is ahead of the cursor any more. -/
theorem Revisiting.finished (h : x.Revisiting env w visited rows) (hguard : readyGuard x = false)
    (henv : env.UnregistersOwn) (fd : ℤ) (hlisted : w.ae.fds.Listed fd) : fd ∈ visited := by
  by_contra hnew
  obtain ⟨i, hi, hlt, -⟩ := h.own henv fd hlisted hnew
  have hle : ¬ x.idx < x.world.ae.fds.numReadyFds := by simpa [readyGuard] using hguard
  omega

/-- The loop from between two rounds. -/
theorem Revisiting.run : ∀ (fuel : ℕ) {visited : List ℤ} {rows : ℤ → FdEventInfo}
    {x : ReadyLoop κ}, x.Revisiting env w visited rows →
      (∀ n y, whileLoop readyGuard (readyBody env) n x = .running y → y.ReturnsCleanly env) →
      ∃ visited' rows',
        Revisited env w visited' rows' (whileLoop readyGuard (readyBody env) fuel x).state ∧
          (env.UnregistersOwn → ∀ y, whileLoop readyGuard (readyBody env) fuel x = .done y →
            ∀ fd, w.ae.fds.Listed fd → fd ∈ visited') := by
  intro fuel
  induction fuel with
  | zero =>
    intro visited rows x h hclean
    cases hguard : readyGuard x with
    | true =>
      rw [whileLoop_zero hguard]
      exact ⟨visited, rows, h.toRevisited, fun _ y hy ↦ by cases hy⟩
    | false =>
      rw [whileLoop_of_not_guard hguard]
      exact ⟨visited, rows, h.toRevisited, fun henv _ _ ↦ h.finished hguard henv⟩
  | succ fuel ih =>
    intro visited rows x h hclean
    cases hguard : readyGuard x with
    | false =>
      rw [whileLoop_of_not_guard hguard]
      exact ⟨visited, rows, h.toRevisited, fun henv _ _ ↦ h.finished hguard henv⟩
    | true =>
      rw [whileLoop_succ hguard]
      by_cases hnull : x.invocation.entry = null
      · have hstep : readyBody env x = .crashed { x with
            processed := x.processed + 1
            world := x.reading.record (.called x.invocation) } := World.invoke_of_null hnull
        rw [hstep]
        exact ⟨_, _, h.crashed hguard, fun _ y hy ↦ by cases hy⟩
      · have hstep : readyBody env x = .done (x.resumed env) := readyBody_of_ne_null hnull
        rw [hstep]
        refine ih (h.next hguard hnull (hclean 0 x (whileLoop_zero hguard))) fun n y hy ↦ ?_
        refine hclean (n + 1) y ?_
        rw [whileLoop_succ hguard, hstep]
        exact hy

end ReadyLoop

/-- From every well-formed list, at every moment of `processReadyFds` whose callbacks have returned
cleanly, whatever they have registered and unregistered: the callbacks called so far are those of
different listed descriptors, each registered and called for exactly the events that were still to
be handled for it in the beginning. A listed descriptor that has not been called is still listed,
with all of these events, or a callback has unregistered it. If callbacks unregister no descriptor
but their own, none is left out when the loop returns. -/
theorem processReadyFds_revisits (env : Env κ) (w : World κ) (hw : w.ae.fds.WellFormed)
    (hstrayed : w.ae.fds.listOfReadyFds.strayed = false)
    (hclean : ∀ n x, processReadyFds env n w = .running x → x.ReturnsCleanly env) (fuel : ℕ) :
    ∃ visited rows, ReadyLoop.Revisited env w visited rows (processReadyFds env fuel w).state ∧
      (env.UnregistersOwn → ∀ x, processReadyFds env fuel w = .done x →
        ∀ fd, w.ae.fds.Listed fd → fd ∈ visited) :=
  (ReadyLoop.revisiting_start hw hstrayed).run fuel hclean

end Rounds

/-- The callback of descriptor 3 takes over the work of the descriptor 4, which is listed behind it:
it unregisters descriptor 4 and registers descriptor 5 in its place. -/
def replacingEnv : Env InterestSet :=
  reactingEnv fun _ ↦ ⟨[.removeFd 4 true, .addFdEvent 5 Mask.readable 2 0 0 0], Mask.none⟩

/-- Descriptor 4 is not called, and has been unregistered. -/
theorem processReadyFds_revisits_replacingEnv :
    ∃ rows,
      ReadyLoop.Revisited replacingEnv twoPendingWorld [3] rows
        (processReadyFds replacingEnv 2 twoPendingWorld).state ∧
      ∃ n y, processReadyFds replacingEnv n twoPendingWorld = .running y ∧
        y.Unregisters replacingEnv 4 := by
  have hclean : ∀ n x, processReadyFds replacingEnv n twoPendingWorld = .running x →
      x.ReturnsCleanly replacingEnv := by
    intro n x hrunning
    cases n with
    | zero =>
      cases hrunning
      exact fun _ _ ↦ Or.inl (by decide)
    | succ n =>
      have hended : (processReadyFds replacingEnv (n + 1) twoPendingWorld).Ended := by
        cases n <;> trivial
      rw [hrunning] at hended
      exact absurd hended (Outcome.not_ended_running x)
  obtain ⟨visited, rows, hrevisited, -⟩ := processReadyFds_revisits replacingEnv twoPendingWorld
    wellFormed_twoPendingWorld rfl hclean 2
  have hlength : (1 : ℤ) = visited.length := hrevisited.processed
  obtain ⟨fd, rfl⟩ := List.length_eq_one_iff.mp (show visited.length = 1 by omega)
  obtain rfl : (3 : ℤ) = fd := (Invocation.proc.inj (List.cons.inj hrevisited.invocations).1).1
  refine ⟨rows, hrevisited, ?_⟩
  have hlisted : twoPendingWorld.ae.fds.Listed 4 := ⟨1, by decide, by decide, rfl⟩
  rcases hrevisited.kept 4 hlisted (by decide) with ⟨⟨i, hi, hlt, -⟩, -⟩ | ⟨-, n, y, hy, hgone, -⟩
  · exact absurd hlt (not_lt.mpr hi)
  · exact ⟨n, y, hy, hgone⟩

end Nebula.Async
