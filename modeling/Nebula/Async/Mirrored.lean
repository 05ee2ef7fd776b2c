import Nebula.Async.Throughout
import Nebula.Async.Timeout

/-!
The registration table mirrors the kernel's interest set at every moment of every run: callbacks
make the same calls as everybody else, and the loop itself only ever writes the events that are
still to be handled. `eventLoop_mirrors` draws the conclusion about the loop test, which asks
`num_monitored_fds_` and not the kernel: a loop that ends without having been stopped leaves no
descriptor that the kernel still watches and no time event behind.
-/

set_option autoImplicit false
set_option relaxedAutoImplicit false

namespace Nebula.Async

open Nebula.Library FdTable

/-- No callback registers a descriptor for nothing at all. -/
def Env.RegistersSomething (env : Env InterestSet) : Prop :=
  ∀ w invocation, ∀ c ∈ (env.react w invocation).calls, ¬ c.RegistersNone

/-- The mirror is a matter of what is monitored, and of the counter. -/
theorem Mirrors.congr {t t' : FdTable} {watched : ℤ → Option Mask} (h : Mirrors t watched)
    (hsize : t'.fdTableSize = t.fdTableSize)
    (hrow : ∀ fd, (t'.fdEventList fd).monitored = (t.fdEventList fd).monitored)
    (hnum : t'.numMonitoredFds = t.numMonitoredFds) : Mirrors t' watched := by
  have hfds : monitoredFds t' = monitoredFds t := by
    ext fd
    rw [mem_monitoredFds, mem_monitoredFds, ValidFd, ValidFd, hsize, hrow]
  refine ⟨fun fd events hwatched ↦ ?_, fun fd ↦ by rw [hfds]; exact h.watched_iff fd, ?_⟩
  · rw [ValidFd, hsize, hrow]
    exact h.agrees fd events hwatched
  · rw [hnum, hfds, h.num_eq]

/-- The loop of `processReadyFds` writes no registration, wherever its cursor is. -/
theorem monitored_settleReady (t : FdTable) (idx fd : ℤ) (result : Mask) (fd' : ℤ) :
    ((t.settleReady idx fd result).fdEventList fd').monitored = (t.fdEventList fd').monitored := by
  have hset : ∀ fired, ((t.setInfo fd { t.fdEventList fd with alreadyFired := fired }).fdEventList
      fd').monitored = (t.fdEventList fd').monitored := by
    intro fired
    rw [fdEventList_setInfo]
    split_ifs with heq
    · rw [heq]
    · rfl
  unfold settleReady
  simp only
  split_ifs
  · exact hset _
  · exact hset 0
  · exact hset 0

theorem fdTableSize_settleReady (t : FdTable) (idx fd : ℤ) (result : Mask) :
    (t.settleReady idx fd result).fdTableSize = t.fdTableSize := by
  unfold settleReady
  simp only
  split_ifs <;> rfl

/-- A round keeps the mirror. -/
theorem keeps_mirrors {env : Env InterestSet} (henv : env.RegistersSomething) :
    env.Keeps fun w ↦ Mirrors w.ae.fds w.kernel.watched where
  record _ _ _ h := h
  calls _ _ _ h := h.runCalls _ (henv _ _)
  touchReady _ _ h := h.congr rfl (fun _ ↦ rfl) rfl
  settleReady w idx fd result h := h.congr (fdTableSize_settleReady w.ae.fds idx fd result)
    (monitored_settleReady w.ae.fds idx fd result) numMonitoredFds_settleReady
  settleFired _ _ _ _ h := h.congr fdTableSize_settleFired monitored_settleFired
    numMonitoredFds_settleFired
  clock _ h := h
  processTimeEvents := by
    refine World.processTimeEvents_state
      (P := fun w : World InterestSet ↦ Mirrors w.ae.fds w.kernel.watched) ?_ ?_ ?_
    · exact fun _ _ h ↦ h
    · exact fun _ _ h ↦ h.runCalls _ (henv _ _)
    · exact fun _ _ h ↦ h

/-- A new event loop, whose kernel object watches nothing yet. -/
def Unwatched (w : World InterestSet) : Prop :=
  ∃ (fdTableSize sizeTimeEvents : ℤ) (aroundFds : ℤ → ℤ) (aroundTimes : ℤ → TimeEventInfo)
    (spurious : ℕ → Bool) (log : List Record),
    w = ⟨.initialized fdTableSize sizeTimeEvents aroundFds aroundTimes,
      ⟨fun _ ↦ none, spurious⟩, log⟩

theorem Operated.mirrors {env : Env InterestSet} (henv : env.RegistersSomething)
    {w : World InterestSet} (hw : Operated env Unwatched (fun c ↦ ¬ c.RegistersNone) w) :
    Mirrors w.ae.fds w.kernel.watched := by
  refine hw.invariant (P := fun w ↦ Mirrors w.ae.fds w.kernel.watched) ?_ ?_ (keeps_mirrors henv)
  · rintro w ⟨fdTableSize, sizeTimeEvents, aroundFds, aroundTimes, spurious, log, rfl⟩
    exact mirrors_initialized _ _ _ _
  · exact fun w c hc h ↦ h.exchange hc (exchange_call env w c)

/-- When the loop test fails on a table that mirrors the kernel, nothing is left to wait for. -/
theorem nothing_left {ae : AsyncEvent} {watched : ℤ → Option Mask} (h : Mirrors ae.fds watched)
    (htest : ae.loopTest = false) : ae.stopped = true ∨
      (∀ fd, watched fd = none) ∧ ∀ event, ¬ ae.times.Pending event := by
  rw [AsyncEvent.loopTest, Bool.and_eq_false_iff, Bool.or_eq_false_iff] at htest
  rcases htest with hstopped | ⟨hnum, hused⟩
  · exact Or.inl (by simpa using hstopped)
  · refine Or.inr ⟨fun fd ↦ ?_, fun event ⟨i, hi, hlt, _⟩ ↦ ?_⟩
    · have hcard : (monitoredFds ae.fds).card = 0 := by
        have := h.num_eq
        have := of_decide_eq_false hnum
        omega
      by_contra hwatched
      have hmem := (h.watched_iff fd).mp hwatched
      rw [Finset.card_eq_zero.mp hcard] at hmem
      exact absurd hmem (Finset.notMem_empty fd)
    · have := of_decide_eq_false hused
      omega

/-- At every moment of every run of the event loop, whatever callbacks and calls from outside have
done as long as none of them registers a descriptor for nothing, the kernel watches exactly the
descriptors whose row monitors something, and the counter counts them. When `eventLoop` returns, it
has been stopped, or the kernel watches nothing any more and no time event is pending. -/
theorem eventLoop_mirrors (env : Env InterestSet) (henv : env.RegistersSomething)
    (w : World InterestSet) (hw : Operated env Unwatched (fun c ↦ ¬ c.RegistersNone) w)
    (rounds fuel : ℕ) :
    Mirrors (eventLoop env rounds fuel w).state.ae.fds
        (eventLoop env rounds fuel w).state.kernel.watched ∧
      ∀ w', eventLoop env rounds fuel w = .done w' → w'.ae.stopped = true ∨
        (∀ fd, w'.kernel.watched fd = none) ∧ ∀ event, ¬ w'.ae.times.Pending event := by
  have hmirrors := (keeps_mirrors henv).eventLoop rounds fuel (hw.mirrors henv)
  refine ⟨hmirrors, fun w' hdone ↦ ?_⟩
  have htest := guard_of_whileLoop_done (show whileLoop _ _ _ _ = .done w' from hdone)
  rw [hdone] at hmirrors
  exact nothing_left hmirrors htest

/-- The callbacks remove the descriptors they are called for. -/
def removingEnv : Env InterestSet :=
  bothReadableEnv fun _ invocation ↦
    match invocation with
    | .proc fd _ _ => ⟨[.removeFd fd false], 0⟩
    | _ => ⟨[], 0⟩

/-- Both ends of a connection are removed, and the loop ends. -/
theorem eventLoop_mirrors_removingEnv :
    (eventLoop removingEnv 2 1 twoFdsWorld).state.ae.stopped = false ∧
      ∀ fd, (eventLoop removingEnv 2 1 twoFdsWorld).state.kernel.watched fd = none := by
  have henv : removingEnv.RegistersSomething := by
    intro w invocation c hc
    cases invocation with
    | proc fd mask info =>
      rw [List.mem_singleton.mp hc]
      exact id
    | procExp fd info => exact absurd hc List.not_mem_nil
    | timeProc event => exact absurd hc List.not_mem_nil
  have hnew : Operated removingEnv Unwatched (fun c ↦ ¬ c.RegistersNone) newWorld :=
    .start _ ⟨8, 4, _, _, _, [], rfl⟩
  have hw : Operated removingEnv Unwatched (fun c ↦ ¬ c.RegistersNone) twoFdsWorld :=
    .call _ (.addFdEvent 4 .readable 2 0 0 0)
      (.call newWorld (.addFdEvent 3 .readable 1 0 0 0) hnew
        (by simp only [Call.RegistersNone]; decide)) (by simp only [Call.RegistersNone]; decide)
  have hstopped : (eventLoop removingEnv 2 1 twoFdsWorld).state.ae.stopped = false := by rfl
  have hdone : eventLoop removingEnv 2 1 twoFdsWorld =
      .done (eventLoop removingEnv 2 1 twoFdsWorld).state := by rfl
  have hleft := (eventLoop_mirrors removingEnv henv twoFdsWorld hw 2 1).2 _ hdone
  rw [hstopped] at hleft
  exact ⟨hstopped, (hleft.resolve_left Bool.false_ne_true).1⟩

end Nebula.Async
