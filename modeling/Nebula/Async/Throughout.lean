import Nebula.Async.EventLoop

/-!
What holds throughout `eventLoop`, whatever the callbacks do in it. `Env.KeepsIo` lists everything
that `processReadyFds` and `processFdEvents` do to the world; with what a round does about time
events, a property that is kept by all of it is one of every moment of every run
(`Env.Keeps.eventLoop`), and of every moment of the life of an event loop that is set up, run and
changed from outside between its runs (`Operated.invariant`).
-/

set_option autoImplicit false
set_option relaxedAutoImplicit false

namespace Nebula.Async

open Nebula.Library FdTable

/-- The callback is the one of a time event. -/
def Invocation.OfTime : Invocation → Prop
  | .timeProc _ => True
  | _ => False

/-- The exchange is about the time, or a time event. -/
def Record.OfTime : Record → Prop
  | .clock _ => True
  | .added .. => True
  | .deleted .. => True
  | .called invocation => invocation.OfTime
  | .returned invocation _ _ _ => invocation.OfTime
  | _ => False

section Keeps

variable {κ : Type*} [EpollKernel κ]

/-- The property is kept by everything that is done about descriptors in a round. -/
structure Env.KeepsIo (env : Env κ) (P : World κ → Prop) : Prop where
  record : ∀ w r, ¬ r.OfTime → P w → P (w.record r)
  calls : ∀ w invocation, ¬ invocation.OfTime → P w →
    P (w.runCalls env (env.react w invocation).calls)
  touchReady : ∀ w i, P w → P (w.setFds (w.ae.fds.touchReady i))
  settleReady : ∀ w idx fd result, P w → P (w.setFds (w.ae.fds.settleReady idx fd result))
  settleFired : ∀ w fd aeEvents result,
    P w → P (w.setFds (w.ae.fds.settleFired fd aeEvents result))

/-- The property is kept by everything that is done in a round. -/
structure Env.Keeps (env : Env κ) (P : World κ → Prop) : Prop extends env.KeepsIo P where
  clock : ∀ w, P w → P (w.record (.clock (env.clock w)))
  processTimeEvents : ∀ fuel w, P w → P (processTimeEvents env fuel w).state.world

namespace Env.KeepsIo

variable {env : Env κ} {P : World κ → Prop} {w : World κ}

theorem callback (h : env.KeepsIo P) (hw : P w) (site : Site) {invocation : Invocation}
    (hio : ¬ invocation.OfTime) : P (w.callback env site invocation).1 :=
  h.record _ _ hio (h.calls _ invocation hio (h.record w _ hio hw))

theorem readyBody (h : env.KeepsIo P) {x : ReadyLoop κ} (hx : P x.world) :
    P (readyBody env x).state.world := by
  have hreading : P x.reading := h.touchReady x.world x.idx hx
  refine World.invoke_state (P := fun y : ReadyLoop κ ↦ P y.world) ?_ ?_
  · exact h.record _ _ id hreading
  · exact h.settleReady _ x.idx x.fd _ (h.callback hreading _ id)

theorem processReadyFds (h : env.KeepsIo P) (fuel : ℕ) (hw : P w) :
    P (processReadyFds env fuel w).state.world :=
  whileLoop_state (I := fun x : ReadyLoop κ ↦ P x.world) (fun _ hx _ ↦ h.readyBody hx) fuel
    ⟨0, 0, w⟩ hw

theorem dispatchEntry (h : env.KeepsIo P) (hw : P w) (later : List EpollEvent) (ee : EpollEvent) :
    P (w.dispatchEntry env later ee).state := by
  unfold World.dispatchEntry
  simp only
  split_ifs
  · exact World.invoke_state (h.record _ _ id hw) (h.callback hw _ id)
  · refine World.invoke_state (h.record _ _ id hw) ?_
    exact h.settleFired _ ee.fd ee.aeEvents _ (h.callback hw _ id)
  · exact hw

theorem dispatchBatch (h : env.KeepsIo P) : ∀ (batch : List EpollEvent) {w : World κ},
    P w → P (w.dispatchBatch env batch).state := by
  intro batch
  induction batch with
  | nil => exact fun hw ↦ hw
  | cons ee later ih =>
    intro w hw
    have hentry := h.dispatchEntry hw later ee
    refine Outcome.state_andThen hentry fun w' hw' ↦ ih ?_
    simpa [hw'] using hentry

theorem processFdEvents (h : env.KeepsIo P) (hw : P w) (timeoutMs : ℤ) :
    P (w.processFdEvents env timeoutMs).state.2 := by
  unfold World.processFdEvents
  cases env.epollWait w timeoutMs with
  | none => exact h.record _ _ id hw
  | some batch =>
    simp only [Outcome.state_map]
    exact h.dispatchBatch batch (h.record _ _ id hw)

end Env.KeepsIo

/-- What records, the calls of callbacks and the table of time events have nothing to do with is
kept by `processTimeEvents`. -/
theorem World.processTimeEvents_state {env : Env κ} {P : World κ → Prop}
    (hrecord : ∀ w r, P w → P (w.record r))
    (hcalls : ∀ w invocation, P w → P (w.runCalls env (env.react w invocation).calls))
    (htimes : ∀ w t, P w → P (w.setTimes t)) (fuel : ℕ) (w : World κ) (hw : P w) :
    P (processTimeEvents env fuel w).state.world := by
  refine whileLoop_state (I := fun x : TimeLoop κ ↦ P x.world) ?_ fuel _ (hrecord w _ hw)
  intro x hx _
  have hreading : P x.reading := htimes x.world _ hx
  unfold timeBody
  split_ifs
  · refine World.invoke_state (P := fun y : TimeLoop κ ↦ P y.world) (hrecord _ _ hreading) ?_
    exact htimes _ _ (hrecord _ _ (hcalls _ _ (hrecord _ _ hreading)))
  · exact hreading

namespace Env.Keeps

variable {env : Env κ} {P : World κ → Prop} {w : World κ}

theorem nearestTimeEvent (h : env.Keeps P) (hw : P w) : P (w.nearestTimeEvent env).2 := by
  unfold World.nearestTimeEvent
  split_ifs
  · exact h.clock w hw
  · exact hw

theorem loopBody (h : env.Keeps P) (fuel : ℕ) (hw : P w) : P (loopBody env fuel w).state := by
  refine Outcome.state_map_andThen (h.toKeepsIo.processReadyFds fuel hw) fun hready ↦ ?_
  refine Outcome.state_map_andThen (h.toKeepsIo.processFdEvents (h.nearestTimeEvent hready) _)
    fun hfds ↦ ?_
  rw [Outcome.state_map]
  exact h.processTimeEvents fuel _ hfds

/-- What a round keeps holds at every moment of every run. -/
theorem eventLoop (h : env.Keeps P) (rounds fuel : ℕ) (hw : P w) :
    P (eventLoop env rounds fuel w).state :=
  whileLoop_state (fun _ hw _ ↦ h.loopBody fuel hw) rounds w hw

end Env.Keeps

/-! ### From outside -/

/-- The worlds between which the event loop runs: one it starts in, and what permitted calls from
outside and completed runs of `eventLoop` make of it. -/
inductive Operated (env : Env κ) (Start : World κ → Prop) (Permitted : Call → Prop) :
    World κ → Prop where
  | start (w : World κ) (hw : Start w) : Operated env Start Permitted w
  | call (w : World κ) (c : Call) (hw : Operated env Start Permitted w) (hc : Permitted c) :
      Operated env Start Permitted (w.call env c).2
  | looped (w w' : World κ) (rounds fuel : ℕ) (hw : Operated env Start Permitted w)
      (hdone : eventLoop env rounds fuel w = .done w') : Operated env Start Permitted w'

/-- What permitted calls and rounds keep, holds between all runs. -/
theorem Operated.invariant {env : Env κ} {Start : World κ → Prop} {Permitted : Call → Prop}
    {P : World κ → Prop} (hstart : ∀ w, Start w → P w)
    (hcall : ∀ w c, Permitted c → P w → P (w.call env c).2) (hround : env.Keeps P) {w : World κ}
    (hw : Operated env Start Permitted w) : P w := by
  induction hw with
  | start w hw => exact hstart w hw
  | call w c hw hc ih => exact hcall w c hc ih
  | looped w w' rounds fuel hw hdone ih =>
    have h := hround.eventLoop rounds fuel ih
    rwa [hdone] at h

end Keeps

end Nebula.Async
