import Nebula.ProducerAndConsumer.Pool
import Mathlib.Algebra.BigOperators.Group.Finset.Basic
import Mathlib.Data.Fintype.Sum

/-!
How much work there is in a pool. A worker inside of its loop is never blocked, and every step it
takes uses up some work: a tasklet that is generated is worth seven steps of producers and
consumers, a worker that enters its loop one step, and nothing else adds to what is left.

So `quiesces` bounds the steps that all workers take together, in any interleaving, by the work that
is in the pool and the work that is added. When nobody generates tasklets or enters a loop any more,
every worker returns.
-/

set_option autoImplicit false
set_option relaxedAutoImplicit false

namespace Nebula.ProducerAndConsumer

open Nebula.Library

variable {ι κ : Type*}

/-- A worker is a producer or a consumer. -/
def Worker.equivSum : ι ⊕ κ ≃ Worker ι κ where
  toFun := Sum.elim .producer .consumer
  invFun
    | .producer i => .inl i
    | .consumer k => .inr k
  left_inv w := by cases w <;> rfl
  right_inv w := by cases w <;> rfl

instance [Fintype ι] [Fintype κ] : Fintype (Worker ι κ) := .ofEquiv _ Worker.equivSum

/-- The steps that there are in a position, with those that the tasklet will be worth. -/
def Position.work : Position → ℕ
  | .outside => 0
  | .testing _ _ => 1
  | .handling .prepareBeforeDispatch _ _ _ => 7
  | .handling .dispatchTasklet _ _ _ => 6
  | .handling .cleanupAfterDispatchFailure _ _ _ => 2
  | .handling .prepareBeforeExecute _ _ _ => 4
  | .handling .execute _ _ _ => 3
  | .handling .cleanupAfterExecute _ _ _ => 2

/-- The steps of workers. -/
def Action.workerSteps : Action ι κ → ℕ
  | .generateTaskletAndDispatch _ _ | .fetchTaskletAndExecute _ _ => 1
  | _ => 0

/-- The worker that enters its loop adds a step. -/
def Action.entered : Action ι κ → ℕ
  | .enter _ _ => 1
  | _ => 0

namespace Pool

variable [DecidableEq ι] [DecidableEq κ] {s s' : Pool ι κ} {w : Worker ι κ}

/-! ### No worker is blocked -/

/-- Workers are in front of calls of their own only. -/
def OnDuty (s : Pool ι κ) : Prop :=
  ∀ w duty limit count t, s.worker w = .handling duty limit count t → w.Does duty

theorem OnDuty.go (h : s.OnDuty) {position : Position}
    (hworker : s'.worker = Function.update s.worker w position)
    (hposition : ∀ duty limit count t, position = .handling duty limit count t → w.Does duty) :
    s'.OnDuty := by
  intro v duty limit count t hv
  rw [hworker, Function.update_apply] at hv
  split_ifs at hv with heq
  · exact heq ▸ hposition duty limit count t hv
  · exact h v duty limit count t hv

/-- A worker goes on with a duty of its own. -/
theorem OnDuty.goes (h : s.OnDuty) {duty : Duty} {limit count : SizeT} {t : ℕ}
    (hworker : s'.worker = Function.update s.worker w (.handling duty limit count t))
    (hdoes : w.Does duty) : s'.OnDuty := by
  refine h.go hworker fun duty' limit' count' t' heq ↦ ?_
  cases heq
  exact hdoes

theorem OnDuty.steps (h : s.OnDuty) (hsteps : s.Steps s') : s'.OnDuty := by
  cases hsteps with
  | setAttached w attached hw => exact h
  | entered w limit hw => exact h.go rfl (by simp)
  | limited w limit count hw hlimit => exact h.go rfl (by simp)
  | noneGenerated i limit count hw hlimit => exact h.go rfl (by simp)
  | generated i limit count hw hlimit => exact h.goes rfl trivial
  | preparedBeforeDispatch i limit count t hw => exact h.goes rfl trivial
  | pushed i limit count t hw hattached => exact h.go rfl (by simp)
  | rejected i limit count t hw hattached => exact h.goes rfl trivial
  | cleanedUpAfterDispatchFailure i limit count t hw => exact h.go rfl (by simp)
  | noneFetched k limit count hw hlimit hnone => exact h.go rfl (by simp)
  | fetched k limit count t rest hw hlimit hattached hitems => exact h.goes rfl trivial
  | preparedBeforeExecute k limit count t hw => exact h.goes rfl trivial
  | executed k limit count t rc hw => exact h.goes rfl trivial
  | cleanedUpAfterExecute k limit count t hw => exact h.go rfl (by simp)

/-! ### What is left -/

variable [Fintype ι] [Fintype κ]

/-- The steps that there are in the pool. -/
def work (s : Pool ι κ) : ℕ := ∑ w, (s.worker w).work + 4 * s.items.length

/-- A worker that goes on changes its own share only: what the step costs is paid for by its
position, by the queue and by the tasklet it generates. -/
theorem work_go {position : Position} {cost gain : ℕ}
    (hworker : s'.worker = Function.update s.worker w position)
    (hcost : position.work + 4 * s'.items.length + cost + 7 * s.generated ≤
      (s.worker w).work + 4 * s.items.length + gain + 7 * s'.generated) :
    s'.work + cost + 7 * s.generated ≤ s.work + gain + 7 * s'.generated := by
  have hmem := Finset.mem_univ w
  have hbefore := Finset.add_sum_erase Finset.univ (fun v ↦ (s.worker v).work) hmem
  have hafter := Finset.add_sum_erase Finset.univ (fun v ↦ (s'.worker v).work) hmem
  have hothers : ∑ v ∈ Finset.univ.erase w, (s'.worker v).work =
      ∑ v ∈ Finset.univ.erase w, (s.worker v).work := by
    refine Finset.sum_congr rfl fun v hv ↦ ?_
    rw [hworker, Function.update_of_ne (Finset.ne_of_mem_erase hv)]
  have hself : s'.worker w = position := by rw [hworker, Function.update_self]
  rw [hothers, hself] at hafter
  unfold work
  omega

/-- Every step of a producer uses up work, and a tasklet that it generates is new work. -/
theorem work_producerStep {i : ι} {available : Bool}
    (hstep : s.producerStep i available = some s') :
    s'.work + 1 + 7 * s.generated ≤ s.work + 0 + 7 * s'.generated := by
  unfold producerStep at hstep
  split at hstep
  case h_1 limit count hw =>
    split_ifs at hstep <;> cases hstep
    all_goals
      refine work_go rfl ?_
      simp only [hw, go, Position.work]
      omega
  case h_2 limit count t hw =>
    cases hstep
    refine work_go rfl ?_
    simp only [hw, go, Position.work]
    omega
  case h_3 limit count t hw =>
    split_ifs at hstep <;> cases hstep
    all_goals
      refine work_go rfl ?_
      simp only [hw, go, pushTasklet, Position.work, List.length_append, List.length_singleton]
      omega
  case h_4 limit count t hw =>
    cases hstep
    refine work_go rfl ?_
    simp only [hw, go, Position.work]
    omega
  case h_5 => cases hstep

/-- Every step of a consumer uses up work: a tasklet in the queue is worth the four steps in which
it is fetched and handled. -/
theorem work_consumerStep {k : κ} {rc : Result} (hstep : s.consumerStep k rc = some s') :
    s'.work + 1 + 7 * s.generated ≤ s.work + 0 + 7 * s'.generated := by
  unfold consumerStep at hstep
  split at hstep
  case h_1 limit count hw =>
    split_ifs at hstep
    · split at hstep <;> cases hstep
      case h_1 t items hfetch =>
        have hitems := (fetchNextTasklet_some hfetch).2
        refine work_go rfl ?_
        simp only [hw, hitems, go, Position.work, List.length_cons]
        omega
      case h_2 hfetch =>
        refine work_go rfl ?_
        simp only [hw, go, Position.work]
        omega
    · cases hstep
      refine work_go rfl ?_
      simp only [hw, go, Position.work]
      omega
  case h_5 => cases hstep
  all_goals
    rename_i hw
    cases hstep
    refine work_go rfl ?_
    simp only [hw, go, Position.work]
    omega

/-- What a step costs is drawn from the work that there is. -/
theorem work_next {action : Action ι κ} (hnext : next s action = some s') :
    s'.work + action.workerSteps + 7 * s.generated ≤
      s.work + action.entered + 7 * s'.generated := by
  cases action with
  | attachToQueue w =>
    simp only [next] at hnext
    split_ifs at hnext
    cases hnext
    exact Nat.le_refl _
  | detachFromQueue w =>
    simp only [next] at hnext
    split_ifs at hnext
    cases hnext
    exact Nat.le_refl _
  | enter w limit =>
    simp only [next] at hnext
    split_ifs at hnext with hw
    cases hnext
    refine work_go rfl ?_
    simp only [hw, go, Position.work, Action.workerSteps, Action.entered]
    omega
  | generateTaskletAndDispatch i available => exact work_producerStep hnext
  | fetchTaskletAndExecute k rc => exact work_consumerStep hnext

/-! ### The workers return -/

omit [Fintype ι] [Fintype κ] in
theorem onDuty_run (attached : Worker ι κ → Bool) {actions : List (Action ι κ)}
    (hrun : System.run next (start attached) actions = some s) : s.OnDuty :=
  System.run_invariant (fun _ _ _ h hnext ↦ h.steps (steps_next hnext))
    (fun _ _ _ _ _ h ↦ by cases h) hrun

/-- From any state that a pool reaches, the workers take no more steps than there are in the state
and than are added by the loops that are entered and the tasklets that are generated; and as long as
a worker is inside of its loop, it is able to take a step. -/
theorem quiesces (attached : Worker ι κ → Bool) (before after : List (Action ι κ))
    (s t : Pool ι κ) (hbefore : System.run next (start attached) before = some s)
    (hafter : System.run next s after = some t) :
    t.work + (after.map Action.workerSteps).sum + 7 * s.generated ≤
        s.work + (after.map Action.entered).sum + 7 * t.generated ∧
      ∀ w, t.worker w ≠ .outside → ∀ available rc,
        ∃ t', next t (w.step available rc) = some t' := by
  constructor
  · -- What is left to be generated counts as work, so that generating a tasklet costs a step too.
    have hpaid := System.run_potential (I := fun _ ↦ True)
      (μ := fun s : Pool ι κ ↦ s.work - 7 * s.generated) (c := Action.workerSteps)
      (g := Action.entered) (fun _ _ _ _ _ ↦ trivial)
      (fun s action s' _ hnext ↦ by
        have hnext' := work_next hnext
        omega) trivial hafter
    omega
  · have honduty := onDuty_run attached (System.run_append_eq_some.mpr ⟨s, hbefore, hafter⟩)
    exact fun w hw available rc ↦ exists_step hw (honduty w) available rc

/-- A producer comes to the dispatch of a tasklet, and a consumer waits for one. -/
def untilDispatch : List (Action Bool Bool) :=
  [.enter (.consumer false) 0, .enter (.producer true) 0, .generateTaskletAndDispatch true true,
    .generateTaskletAndDispatch true false]

/-- The producer dispatches the tasklet and returns, the consumer executes it and returns. -/
def fromDispatch : List (Action Bool Bool) :=
  List.replicate 2 (.generateTaskletAndDispatch true false) ++
    List.replicate 5 (.fetchTaskletAndExecute false .success)

def atDispatch : Pool Bool Bool :=
  (System.run next (start fun _ ↦ true) untilDispatch).get (by decide +kernel)

def afterDispatch : Pool Bool Bool :=
  (System.run next atDispatch fromDispatch).get (by decide +kernel)

/-- All of the work is done in the seven steps that it is worth. -/
theorem quiesces_fromDispatch :
    atDispatch.work = 7 ∧ afterDispatch.work + 7 ≤ 7 ∧ ∀ w, afterDispatch.worker w = .outside := by
  have hquiesces := (quiesces _ untilDispatch fromDispatch atDispatch afterDispatch
    (Option.some_get _).symm (Option.some_get _).symm).1
  have hwork : atDispatch.work = 7 := by decide +kernel
  have hsteps : (fromDispatch.map Action.workerSteps).sum = 7 := by decide +kernel
  have hentered : (fromDispatch.map Action.entered).sum = 0 := by decide +kernel
  have hgenerated : afterDispatch.generated = atDispatch.generated := by decide +kernel
  refine ⟨hwork, by omega, fun w ↦ ?_⟩
  rcases w with (_ | _) | (_ | _)
  all_goals decide +kernel

end Pool

end Nebula.ProducerAndConsumer
