import Nebula.Async.InterestSet

/-!
A descriptor is registered with `addFdEvent` and then dropped with `removeFd`. `removeFd` tells from
the monitored events of the row whether the kernel watches the descriptor, while `addFdEvent` asks
the kernel to watch it for any set of events, also for none.

`undone_iff` says that the second call undoes the first one exactly if the descriptor was registered
for something.
-/

set_option autoImplicit false
set_option relaxedAutoImplicit false

namespace Nebula.Async

open Nebula.Library EpollKernel InterestSet

/-- A call that the rules allow succeeds, unless it fails for no reason of theirs. -/
theorem InterestSet.epollCtl_of_ctl {kernel : InterestSet} {operation : CtlOp} {fd : ℤ}
    {events : Mask} {watched : ℤ → Option Mask} (hspurious : kernel.spurious 0 = false)
    (hctl : ctl kernel.watched operation fd events = some watched) :
    epollCtl kernel operation fd events = (true, ⟨watched, fun n ↦ kernel.spurious (n + 1)⟩) := by
  simp only [epollCtl, hspurious, hctl]

namespace FdTable

/-- What is left of a registration when it has been undone: an empty row, the counter and the
interest set from before, and a descriptor that can be added to the set again. -/
structure Undone (t : FdTable) (kernel : InterestSet) (fd : ℤ)
    (removal : Status × FdTable × InterestSet) : Prop where
  ok : removal.1 = .ok
  row : removal.2.1.fdEventList fd = .zero
  num : removal.2.1.numMonitoredFds = t.numMonitoredFds
  watched : removal.2.2.watched = kernel.watched
  again : ∀ (mask : Mask) (proc data procExp dataExp : Pointer), ∃ kernel',
    epollCtl removal.2.2 .add fd (epollEvents mask) = (true, kernel') ∧
      removal.2.1.addFdEvent removal.2.2 fd mask proc data procExp dataExp =
        (.ok, removal.2.1.register fd mask proc data procExp dataExp, kernel')

variable {t : FdTable} {kernel : InterestSet} {fd : ℤ}

/-- A descriptor with an empty row that the kernel does not watch can be added. -/
theorem addFdEvent_of_not_watched (hvalid : t.ValidFd fd) (hrow : (t.fdEventList fd).monitored = 0)
    (hwatched : kernel.watched fd = none) (hspurious : kernel.spurious 0 = false) (mask : Mask)
    (proc data procExp dataExp : Pointer) : ∃ kernel',
      epollCtl kernel .add fd (epollEvents mask) = (true, kernel') ∧
        t.addFdEvent kernel fd mask proc data procExp dataExp =
          (.ok, t.register fd mask proc data procExp dataExp, kernel') := by
  have hctl : epollCtl kernel .add fd (epollEvents mask) = (true, _) :=
    epollCtl_of_ctl hspurious (by unfold ctl; rw [hwatched])
  refine ⟨_, hctl, ?_⟩
  rw [addFdEvent, if_neg fun h ↦ not_validFd_iff.mpr h hvalid]
  simp only [hrow, BitVec.ofNat_eq_ofNat, BitVec.zero_or, if_true, hctl, register]
  rfl

/-- A descriptor with an empty row is taken for one that the kernel does not watch. -/
theorem removeFd_of_not_monitored (hvalid : t.ValidFd fd)
    (hrow : (t.fdEventList fd).monitored = Mask.none) :
    t.removeFd kernel fd false = (.ok, t, kernel) := by
  rw [removeFd, if_neg fun h ↦ not_validFd_iff.mpr h hvalid, if_pos hrow]
  rfl

theorem removeFd_of_watched (hvalid : t.ValidFd fd)
    (hrow : (t.fdEventList fd).monitored ≠ Mask.none) {events : Mask}
    (hwatched : kernel.watched fd = some events) (hspurious : kernel.spurious 0 = false) :
    t.removeFd kernel fd false = (.ok, t.clearFd fd,
      ⟨Function.update kernel.watched fd none, fun n ↦ kernel.spurious (n + 1)⟩) := by
  have hctl : epollCtl kernel .del fd 0 = (true, _) :=
    epollCtl_of_ctl hspurious (by unfold ctl; rw [hwatched])
  rw [removeFd, if_neg fun h ↦ not_validFd_iff.mpr h hvalid, if_neg hrow, hctl]
  rfl

/-- A registration for nothing is counted, and never forgotten. -/
theorem not_undone_of_none {proc data procExp dataExp : Pointer} (hvalid : t.ValidFd fd)
    (hrow : (t.fdEventList fd).monitored = 0) (kernel' : InterestSet) :
    ¬ Undone t kernel fd
      ((t.register fd Mask.none proc data procExp dataExp).removeFd kernel' fd false) := by
  have hrow' : ((t.register fd Mask.none proc data procExp dataExp).fdEventList fd).monitored =
      Mask.none := by
    simp [register, hrow]
  have hvalid' : (t.register fd Mask.none proc data procExp dataExp).ValidFd fd := hvalid
  rw [removeFd_of_not_monitored hvalid' hrow']
  rintro ⟨-, -, hnum, -, -⟩
  simp only [register, if_pos hrow] at hnum
  omega

/-- A registration for something is undone. -/
theorem undone_of_ne_none {mask : Mask} {proc data procExp dataExp : Pointer}
    (hvalid : t.ValidFd fd) (hrow : (t.fdEventList fd).monitored = 0)
    (hwatched : kernel.watched fd = none) (hmask : mask ≠ Mask.none) {kernel' : InterestSet}
    {events : Mask} (hwatched' : kernel'.watched = Function.update kernel.watched fd (some events))
    (hspurious : ∀ n, kernel'.spurious n = false) :
    Undone t kernel fd
      ((t.register fd mask proc data procExp dataExp).removeFd kernel' fd false) := by
  have hrow' : ((t.register fd mask proc data procExp dataExp).fdEventList fd).monitored ≠
      Mask.none := by
    simpa [register, hrow] using hmask
  have hkernel : kernel'.watched fd = some events := by rw [hwatched', Function.update_self]
  have hback : Function.update kernel'.watched fd none = kernel.watched := by
    rw [hwatched', Function.update_idem, ← hwatched, Function.update_eq_self]
  have hcleared : ((t.register fd mask proc data procExp dataExp).clearFd fd).fdEventList fd =
      .zero := by
    rw [fdEventList_clearFd, if_pos rfl]
  have hvalid' : (t.register fd mask proc data procExp dataExp).ValidFd fd := hvalid
  rw [removeFd_of_watched hvalid' hrow' hkernel (hspurious 0), hback]
  refine ⟨rfl, hcleared, ?_, rfl, fun mask' proc' data' procExp' dataExp' ↦ ?_⟩
  · change (t.register fd mask proc data procExp dataExp).numMonitoredFds - 1 = _
    simp only [register, if_pos hrow]
    omega
  · have hvalid'' : ((t.register fd mask proc data procExp dataExp).clearFd fd).ValidFd fd := hvalid
    refine addFdEvent_of_not_watched hvalid'' ?_ ?_ ?_ ..
    · rw [hcleared]
      rfl
    · exact hwatched
    · exact hspurious 1

/-- A registration with `addFdEvent` is undone by `removeFd` exactly if it was one for something. -/
theorem undone_iff (t : FdTable) (kernel : InterestSet) (fd : ℤ) (mask : Mask)
    (proc data procExp dataExp : Pointer) (t' : FdTable) (kernel' : InterestSet)
    (hrow : (t.fdEventList fd).monitored = Mask.none) (hwatched : kernel.watched fd = none)
    (hadd : t.addFdEvent kernel fd mask proc data procExp dataExp = (.ok, t', kernel'))
    (hspurious : ∀ n, kernel'.spurious n = false) :
    Undone t kernel fd (t'.removeFd kernel' fd false) ↔ mask ≠ Mask.none := by
  rcases addFdEvent_cases t kernel fd mask proc data procExp dataExp with
    ⟨refused, h, -⟩ | ⟨hvalid, added, hctl, h⟩
  · rw [h] at hadd
    cases hadd
  · rw [h] at hadd
    cases hadd
    rw [if_pos hrow] at hctl
    have hwatched' := (ctl_add (ctl_of_epollCtl hctl)).2
    constructor
    · rintro hundone rfl
      exact not_undone_of_none hvalid hrow kernel' hundone
    · exact fun hmask ↦ undone_of_ne_none hvalid hrow hwatched hmask hwatched' hspurious

/-- A descriptor of a new event loop is registered for input. -/
theorem undone_iff_readable :
    let t := (AsyncEvent.initialized 8 4 (fun _ ↦ 0) fun _ ↦ ⟨0, 0, null, 0⟩).fds
    let kernel : InterestSet := ⟨fun _ ↦ none, fun _ ↦ false⟩
    let added := t.addFdEvent kernel 3 Mask.readable 1 0 0 0
    Undone t kernel 3 (added.2.1.removeFd added.2.2 3 false) ↔ Mask.readable ≠ Mask.none :=
  undone_iff _ _ 3 Mask.readable 1 0 0 0 _ _ rfl rfl rfl fun _ ↦ rfl

/-- A descriptor of a new event loop is registered for nothing. It stays counted after `removeFd`,
and cannot be added again. -/
theorem not_undone_none :
    let t := (AsyncEvent.initialized 8 4 (fun _ ↦ 0) fun _ ↦ ⟨0, 0, null, 0⟩).fds
    let kernel : InterestSet := ⟨fun _ ↦ none, fun _ ↦ false⟩
    let added := t.addFdEvent kernel 3 Mask.none 1 0 0 0
    let removal := added.2.1.removeFd added.2.2 3 false
    added.1 = .ok ∧ removal.1 = .ok ∧ removal.2.1.numMonitoredFds = 1 ∧
      (removal.2.1.addFdEvent removal.2.2 3 Mask.readable 1 0 0 0).1 = .error ∧
      ¬ Undone t kernel 3 removal :=
  ⟨rfl, rfl, rfl, by decide, fun h ↦ absurd h.num (by decide)⟩

end FdTable

end Nebula.Async
