import Nebula.Async.Callbacks

/-!
What the operations can do to the descriptor table. Each operation has one lemma that lists its
outcomes together with the kernel call behind them (`addFdEvent_cases`, `delFdEvent_cases`,
`removeFd_cases`); seen from the table alone they are four kinds of `Change`, and everything a
callback does is a sequence of them (`changes_runCalls`).
-/

set_option autoImplicit false
set_option relaxedAutoImplicit false

namespace Nebula.Async

open Nebula.Library EpollKernel

namespace FdTable

section Outcomes

variable {κ : Type*} [EpollKernel κ]

/-- Putting the old row back leaves the table as it was. -/
theorem setInfo_restore (t : FdTable) (fd : ℤ) (info : FdEventInfo) :
    (t.setInfo fd info).setInfo fd (t.fdEventList fd) = t := by
  simp [setInfo]

/-- A cleared row does not depend on what was stored in it before. -/
theorem clearFd_setInfo (t : FdTable) (fd : ℤ) (info : FdEventInfo) :
    (t.setInfo fd info).clearFd fd = t.clearFd fd := by
  simp [clearFd, setInfo]

theorem not_validFd_iff {t : FdTable} {fd : ℤ} : ¬ t.ValidFd fd ↔ fd ≥ t.fdTableSize ∨ fd < 0 := by
  unfold ValidFd
  omega

/-- The kernel after an operation that failed: it was not asked, or refused. -/
def Refused (kernel kernel' : κ) : Prop :=
  kernel' = kernel ∨ ∃ operation fd events, epollCtl kernel operation fd events = (false, kernel')

/-- The table after a successful `addFdEvent`. -/
def register (t : FdTable) (fd : ℤ) (mask : Mask) (proc data procExp dataExp : Pointer) : FdTable :=
  { t.setInfo fd { t.fdEventList fd with
      monitored := (t.fdEventList fd).monitored ||| mask
      proc := proc
      data := data
      procExp := procExp
      dataExp := dataExp } with
    numMonitoredFds :=
      if (t.fdEventList fd).monitored = 0 then t.numMonitoredFds + 1 else t.numMonitoredFds }

/-- The table after a successful `delFdEvent` that leaves some events monitored. -/
def unmask (t : FdTable) (fd : ℤ) (mask : Mask) : FdTable :=
  t.setInfo fd { t.fdEventList fd with monitored := (t.fdEventList fd).monitored &&& ~~~mask }

theorem addFdEvent_cases (t : FdTable) (kernel : κ) (fd : ℤ) (mask : Mask)
    (proc data procExp dataExp : Pointer) :
    (∃ kernel', t.addFdEvent kernel fd mask proc data procExp dataExp = (.error, t, kernel') ∧
        Refused kernel kernel') ∨
      (t.ValidFd fd ∧ ∃ kernel',
        epollCtl kernel (if (t.fdEventList fd).monitored = 0 then .add else .mod) fd
            (epollEvents ((t.fdEventList fd).monitored ||| mask)) = (true, kernel') ∧
          t.addFdEvent kernel fd mask proc data procExp dataExp =
            (.ok, t.register fd mask proc data procExp dataExp, kernel')) := by
  by_cases hvalid : t.ValidFd fd
  · rw [addFdEvent, if_neg (fun h ↦ not_validFd_iff.mpr h hvalid)]
    cases hctl : epollCtl kernel (if (t.fdEventList fd).monitored = 0 then .add else .mod) fd
      (epollEvents ((t.fdEventList fd).monitored ||| mask)) with
    | mk success kernel' =>
      cases success with
      | false =>
        exact Or.inl ⟨kernel', by simp only [hctl, setInfo_restore], Or.inr ⟨_, _, _, hctl⟩⟩
      | true =>
        refine Or.inr ⟨hvalid, kernel', rfl, ?_⟩
        simp only [hctl, register]
        by_cases hnone : (t.fdEventList fd).monitored = 0
        · simp only [if_pos hnone, if_true, setInfo]
        · simp only [if_neg hnone, reduceCtorEq, if_false, setInfo]
  · exact Or.inl ⟨kernel, by rw [addFdEvent, if_pos (not_validFd_iff.mp hvalid)], Or.inl rfl⟩

theorem delFdEvent_cases (t : FdTable) (kernel : κ) (fd : ℤ) (mask : Mask) :
    (∃ kernel', t.delFdEvent kernel fd mask = (.error, t, kernel') ∧ Refused kernel kernel') ∨
      (mask = 0 ∧ t.delFdEvent kernel fd mask = (.ok, t, kernel)) ∨
      (t.ValidFd fd ∧ (t.fdEventList fd).monitored &&& ~~~mask ≠ 0 ∧ ∃ kernel',
        epollCtl kernel .mod fd (epollEvents ((t.fdEventList fd).monitored &&& ~~~mask)) =
            (true, kernel') ∧
          t.delFdEvent kernel fd mask = (.ok, t.unmask fd mask, kernel')) ∨
      (t.ValidFd fd ∧ (t.fdEventList fd).monitored &&& ~~~mask = 0 ∧ ∃ events kernel',
        epollCtl kernel .del fd events = (true, kernel') ∧
          t.delFdEvent kernel fd mask = (.ok, t.clearFd fd, kernel')) := by
  by_cases hvalid : t.ValidFd fd
  · rw [delFdEvent, if_neg (fun h ↦ not_validFd_iff.mpr h hvalid)]
    by_cases hmask : mask = 0
    · exact Or.inr (Or.inl ⟨hmask, by rw [if_pos hmask]⟩)
    · rw [if_neg hmask]
      by_cases hrest : (t.fdEventList fd).monitored &&& ~~~mask = 0
      · cases hctl : epollCtl kernel .del fd
          (epollEvents ((t.fdEventList fd).monitored &&& ~~~mask)) with
        | mk success kernel' =>
          cases success with
          | false =>
            refine Or.inl ⟨kernel', ?_, Or.inr ⟨_, _, _, hctl⟩⟩
            simp only [hrest, ne_eq, not_true_eq_false, if_false] at hctl ⊢
            simp only [hctl, setInfo_restore]
          | true =>
            refine Or.inr (Or.inr (Or.inr ⟨hvalid, hrest, _, kernel', hctl, ?_⟩))
            simp only [hrest, ne_eq, not_true_eq_false, if_false] at hctl ⊢
            simp only [hctl, clearFd_setInfo]
      · cases hctl : epollCtl kernel .mod fd
          (epollEvents ((t.fdEventList fd).monitored &&& ~~~mask)) with
        | mk success kernel' =>
          cases success with
          | false =>
            refine Or.inl ⟨kernel', ?_, Or.inr ⟨_, _, _, hctl⟩⟩
            simp only [hrest, ne_eq, not_false_eq_true, if_true, hctl, setInfo_restore]
          | true =>
            refine Or.inr (Or.inr (Or.inl ⟨hvalid, hrest, kernel', rfl, ?_⟩))
            simp only [hrest, ne_eq, not_false_eq_true, if_true, hctl, unmask]
  · exact Or.inl ⟨kernel, by rw [delFdEvent, if_pos (not_validFd_iff.mp hvalid)], Or.inl rfl⟩

theorem removeFd_cases (t : FdTable) (kernel : κ) (fd : ℤ) (closeIt : Bool) :
    (∃ kernel', t.removeFd kernel fd closeIt = (.error, t, kernel') ∧ Refused kernel kernel') ∨
      (t.ValidFd fd ∧ (t.fdEventList fd).monitored = 0 ∧ t.removeFd kernel fd closeIt =
        (.ok, t, if closeIt then close kernel fd else kernel)) ∨
      (t.ValidFd fd ∧ (t.fdEventList fd).monitored ≠ 0 ∧ ∃ kernel',
        epollCtl kernel .del fd 0 = (true, kernel') ∧ t.removeFd kernel fd closeIt =
          (.ok, t.clearFd fd, if closeIt then close kernel' fd else kernel')) := by
  by_cases hvalid : t.ValidFd fd
  · rw [removeFd, if_neg (fun h ↦ not_validFd_iff.mpr h hvalid)]
    by_cases hnone : (t.fdEventList fd).monitored = 0
    · exact Or.inr (Or.inl ⟨hvalid, hnone, by rw [if_pos hnone]⟩)
    · rw [if_neg hnone]
      cases hctl : epollCtl kernel .del fd 0 with
      | mk success kernel' =>
        cases success with
        | false => exact Or.inl ⟨kernel', rfl, Or.inr ⟨_, _, _, hctl⟩⟩
        | true => exact Or.inr (Or.inr ⟨hvalid, hnone, kernel', rfl, rfl⟩)
  · exact Or.inl ⟨kernel, by rw [removeFd, if_pos (not_validFd_iff.mp hvalid)], Or.inl rfl⟩

end Outcomes

/-! ### Changes of the descriptor table -/

/-- What one operation can do to the descriptor table. -/
inductive Change (t : FdTable) : FdTable → Prop where
  | unchanged : Change t t
  | registered (fd : ℤ) (mask : Mask) (proc data procExp dataExp : Pointer)
      (hvalid : t.ValidFd fd) : Change t (t.register fd mask proc data procExp dataExp)
  | unmasked (fd : ℤ) (mask : Mask) (hvalid : t.ValidFd fd)
      (hrest : (t.fdEventList fd).monitored &&& ~~~mask ≠ 0) : Change t (t.unmask fd mask)
  | cleared (fd : ℤ) (hvalid : t.ValidFd fd) : Change t (t.clearFd fd)

end FdTable

namespace World

open FdTable

variable {κ : Type*} [EpollKernel κ]

/-- One call is one change of the descriptor table. -/
theorem change_call (env : Env κ) (w : World κ) (c : Call) :
    Change w.ae.fds (w.call env c).2.ae.fds := by
  cases c with
  | addFdEvent fd mask proc data procExp dataExp =>
    rcases addFdEvent_cases w.ae.fds w.kernel fd mask proc data procExp dataExp with
      ⟨kernel', h, -⟩ | ⟨hvalid, kernel', -, h⟩
    · simpa [call, h] using Change.unchanged
    · simpa [call, h] using Change.registered fd mask proc data procExp dataExp hvalid
  | delFdEvent fd mask =>
    rcases delFdEvent_cases w.ae.fds w.kernel fd mask with
      ⟨kernel', h, -⟩ | ⟨-, h⟩ | ⟨hvalid, hrest, kernel', -, h⟩ | ⟨hvalid, -, events, kernel', -, h⟩
    · simpa [call, h] using Change.unchanged
    · simpa [call, h] using Change.unchanged
    · simpa [call, h] using Change.unmasked fd mask hvalid hrest
    · simpa [call, h] using Change.cleared fd hvalid
  | removeFd fd closeIt =>
    rcases removeFd_cases w.ae.fds w.kernel fd closeIt with
      ⟨kernel', h, -⟩ | ⟨-, -, h⟩ | ⟨hvalid, -, kernel', -, h⟩
    · simpa [call, h] using Change.unchanged
    · simpa [call, h] using Change.unchanged
    · simpa [call, h] using Change.cleared fd hvalid
  | addTimeEvent msLater proc data =>
    simp only [call, addTimeEvent]
    split <;> exact Change.unchanged
  | delTimeEvent timeEventId => exact Change.unchanged
  | start => exact Change.unchanged
  | stop => exact Change.unchanged

/-- A callback changes the descriptor table by a sequence of changes. -/
theorem changes_runCalls (env : Env κ) (w : World κ) (calls : List Call) :
    Relation.ReflTransGen Change w.ae.fds (w.runCalls env calls).ae.fds :=
  runCalls_induction env (P := fun w' ↦ Relation.ReflTransGen Change w.ae.fds w'.ae.fds)
    (fun w' c hw' ↦ hw'.tail (change_call env w' c)) calls w .refl

theorem changes_callback (env : Env κ) (site : Site) (w : World κ)
    (invocation : Invocation) :
    Relation.ReflTransGen Change w.ae.fds (w.callback env site invocation).1.ae.fds :=
  changes_runCalls env (w.record (.called invocation)) _

end World

end Nebula.Async
