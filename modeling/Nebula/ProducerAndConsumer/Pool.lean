import Nebula.Library.Transition
import Mathlib.Data.Nat.Notation
import Mathlib.Logic.Function.Basic
import Mathlib.Tactic.SplitIfs

/-!
Producers and consumers that share a `Queue` of tasklets. A worker is a producer in
`generateTaskletAndDispatch` or a consumer in `fetchTaskletAndExecute`, and takes one step at a
time: a test of its loop with the call of `generateNextTasklet` or `fetchNextTasklet` in it, or a
call on the tasklet it has got. Pushing and popping hold the queue's lock from beginning to end and
are one step each. Between any two steps of a worker, all others can take steps.

A tasklet is known by the number of tasklets that were generated before it. The `log` records what
is done to tasklets, the oldest first; the program never reads it.

`Steps` lists everything that one action can do, with the condition under which it is done.
-/

set_option autoImplicit false
set_option relaxedAutoImplicit false

namespace Nebula.ProducerAndConsumer

open Nebula.Library

abbrev SizeT := BitVec 64

/-! ### Tasklets -/

/-- `Tasklet::Result::Constants`. -/
inductive Result where
  | notAvailable
  | success
  | failed
  | aborted
  | cancelled
  deriving DecidableEq

/-- The values that `execute` stores in `result_`, each of which it reports before the next one,
when `process` returns the given value. -/
def Result.stored : Result → List Result
  -- this case has no `break`
  | .notAvailable => [.notAvailable, .success]
  | .success => [.success]
  | .failed => [.failed]
  | .aborted => [.aborted]
  | .cancelled => [.cancelled]

/-! ### Workers -/

/-- The threads: producers and consumers. -/
inductive Worker (ι κ : Type*) where
  | producer (i : ι)
  | consumer (k : κ)
  deriving DecidableEq

/-- The calls that a worker makes on a tasklet. -/
inductive Duty where
  | prepareBeforeDispatch
  | dispatchTasklet
  | cleanupAfterDispatchFailure
  | prepareBeforeExecute
  | execute
  | cleanupAfterExecute
  deriving DecidableEq

/-- Where a worker is: outside of its loop, at the loop test, or in front of a call on a tasklet. -/
inductive Position where
  | outside
  | testing (limit count : SizeT)
  | handling (duty : Duty) (limit count : SizeT) (tasklet : ℕ)
  deriving DecidableEq

/-- What is done to tasklets. `generated` and `fetched` record what `generateNextTasklet` and
`fetchNextTasklet` return, `dispatched` whether the tasklet was pushed, `reported` the arguments of
`reportResult` with the `result_` at that time, `cancelled` that `~Queue` has taken a tasklet, and
`returned` the number a worker's loop returns. -/
inductive Event (ι κ : Type*) where
  | generated (i : ι) (tasklet : Option ℕ)
  | prepareBeforeDispatch (i : ι) (tasklet : ℕ)
  | dispatched (i : ι) (tasklet : ℕ) (pushed : Bool)
  | cleanupAfterDispatchFailure (i : ι) (tasklet : ℕ)
  | fetched (k : κ) (tasklet : Option ℕ)
  | prepareBeforeExecute (k : κ) (tasklet : ℕ)
  | executed (k : κ) (tasklet : ℕ) (rc : Result)
  | reported (tasklet : ℕ) (rc result : Result)
  | cleanupAfterExecute (k : κ) (tasklet : ℕ)
  | cancelled (tasklet : ℕ)
  | deleted (tasklet : ℕ)
  | returned (worker : Worker ι κ) (count : SizeT)
  deriving DecidableEq

/-- The queue, the workers, and the tasklets. -/
structure Pool (ι κ : Type*) where
  items : List ℕ
  worker : Worker ι κ → Position
  attached : Worker ι κ → Bool
  generated : ℕ
  result : ℕ → Result
  log : List (Event ι κ)

/-- An action: a worker outside of its loop is attached to the queue, detached from it, or enters
the loop, or a worker takes a step in its loop, in which `generateNextTasklet` may have no tasklet
available, or `process` returns a value. -/
inductive Action (ι κ : Type*) where
  | attachToQueue (w : Worker ι κ)
  | detachFromQueue (w : Worker ι κ)
  | enter (w : Worker ι κ) (limit : SizeT)
  | generateTaskletAndDispatch (i : ι) (available : Bool)
  | fetchTaskletAndExecute (k : κ) (rc : Result)

/-- The next step of a worker inside of its loop; whether a tasklet is available, and what `process`
returns, is for the system to say. -/
def Worker.step {ι κ : Type*} (available : Bool) (rc : Result) : Worker ι κ → Action ι κ
  | .producer i => .generateTaskletAndDispatch i available
  | .consumer k => .fetchTaskletAndExecute k rc

/-- The duties of producers and consumers. -/
def Worker.Does {ι κ : Type*} : Worker ι κ → Duty → Prop
  | .producer _, .prepareBeforeDispatch | .producer _, .dispatchTasklet
  | .producer _, .cleanupAfterDispatchFailure => True
  | .consumer _, .prepareBeforeExecute | .consumer _, .execute
  | .consumer _, .cleanupAfterExecute => True
  | _, _ => False

/-- `limit ? (count < limit) : 1`. -/
def withinLimit (limit count : SizeT) : Bool := if limit ≠ 0 then decide (count < limit) else true

namespace Pool

variable {ι κ : Type*} [DecidableEq ι] [DecidableEq κ]

/-- No tasklet has been generated. -/
def start (attached : Worker ι κ → Bool) : Pool ι κ where
  items := []
  worker := fun _ ↦ .outside
  attached := attached
  generated := 0
  result := fun _ ↦ .notAvailable
  log := []

/-- A worker goes on, and something is recorded. -/
def go (s : Pool ι κ) (w : Worker ι κ) (position : Position) (events : List (Event ι κ)) :
    Pool ι κ :=
  { s with worker := Function.update s.worker w position, log := s.log ++ events }

/-- `pushTasklet`. -/
def pushTasklet (s : Pool ι κ) (t : ℕ) : Pool ι κ := { s with items := s.items ++ [t] }

/-- One step in `generateTaskletAndDispatch`. -/
def producerStep (s : Pool ι κ) (i : ι) (available : Bool) : Option (Pool ι κ) :=
  match s.worker (.producer i) with
  | .testing limit count =>
      if withinLimit limit count then
        if available then
          some { s.go (.producer i) (.handling .prepareBeforeDispatch limit (count + 1) s.generated)
              [.generated i (some s.generated)] with generated := s.generated + 1 }
        else
          some (s.go (.producer i) .outside [.generated i none, .returned (.producer i) count])
      else some (s.go (.producer i) .outside [.returned (.producer i) count])
  | .handling .prepareBeforeDispatch limit count t =>
      some (s.go (.producer i) (.handling .dispatchTasklet limit count t)
        [.prepareBeforeDispatch i t])
  | .handling .dispatchTasklet limit count t =>
      if s.attached (.producer i) then
        some ((s.pushTasklet t).go (.producer i) (.testing limit count) [.dispatched i t true])
      else
        some (s.go (.producer i) (.handling .cleanupAfterDispatchFailure limit count t)
          [.dispatched i t false])
  | .handling .cleanupAfterDispatchFailure limit count t =>
      some (s.go (.producer i) (.testing limit count)
        [.cleanupAfterDispatchFailure i t, .deleted t])
  | _ => none

/-- `fetchNextTasklet`, with `popTasklet`: the tasklet, and the queue without it. -/
def fetchNextTasklet (s : Pool ι κ) (k : κ) : Option ℕ × List ℕ :=
  if s.attached (.consumer k) then
    match s.items with
    | t :: rest => (some t, rest)
    | [] => (none, [])
  else (none, s.items)

/-- One step in `fetchTaskletAndExecute`. -/
def consumerStep (s : Pool ι κ) (k : κ) (rc : Result) : Option (Pool ι κ) :=
  match s.worker (.consumer k) with
  | .testing limit count =>
      if withinLimit limit count then
        match s.fetchNextTasklet k with
        | (some t, items) =>
            some { s.go (.consumer k) (.handling .prepareBeforeExecute limit count t)
              [.fetched k (some t)] with items := items }
        | (none, _) =>
            some (s.go (.consumer k) .outside [.fetched k none, .returned (.consumer k) count])
      else some (s.go (.consumer k) .outside [.returned (.consumer k) count])
  | .handling .prepareBeforeExecute limit count t =>
      some (s.go (.consumer k) (.handling .execute limit count t) [.prepareBeforeExecute k t])
  | .handling .execute limit count t =>
      some { s.go (.consumer k) (.handling .cleanupAfterExecute limit (count + 1) t)
          (.executed k t rc :: rc.stored.map fun r ↦ .reported t r r) with
        result := Function.update s.result t (rc.stored.getLastD (s.result t)) }
  | .handling .cleanupAfterExecute limit count t =>
      some (s.go (.consumer k) (.testing limit count) [.cleanupAfterExecute k t, .deleted t])
  | _ => none

def next : System (Pool ι κ) (Action ι κ)
  | s, .attachToQueue w =>
      if s.worker w = .outside then
        some { s with attached := Function.update s.attached w true }
      else none
  | s, .detachFromQueue w =>
      if s.worker w = .outside then
        some { s with attached := Function.update s.attached w false }
      else none
  | s, .enter w limit =>
      if s.worker w = .outside then some (s.go w (.testing limit 0) []) else none
  | s, .generateTaskletAndDispatch i available => s.producerStep i available
  | s, .fetchTaskletAndExecute k rc => s.consumerStep k rc

/-- What `~Queue` does to one tasklet. -/
def cancel (s : Pool ι κ) (t : ℕ) : List (Event ι κ) :=
  [.cancelled t, .reported t .cancelled (s.result t), .deleted t]

/-- `~Queue`, when no worker uses the queue any more. -/
def destroyQueue (s : Pool ι κ) : Pool ι κ :=
  { s with items := [], log := s.log ++ s.items.flatMap s.cancel }

/-! ### What a step does -/

/-- What one action of the pool can do, and when. -/
inductive Steps (s : Pool ι κ) : Pool ι κ → Prop where
  | setAttached (w : Worker ι κ) (attached : Bool) (hw : s.worker w = .outside) :
      s.Steps { s with attached := Function.update s.attached w attached }
  | entered (w : Worker ι κ) (limit : SizeT) (hw : s.worker w = .outside) :
      s.Steps (s.go w (.testing limit 0) [])
  | limited (w : Worker ι κ) (limit count : SizeT) (hw : s.worker w = .testing limit count)
      (hlimit : ¬ withinLimit limit count) : s.Steps (s.go w .outside [.returned w count])
  | noneGenerated (i : ι) (limit count : SizeT)
      (hw : s.worker (.producer i) = .testing limit count) (hlimit : withinLimit limit count) :
      s.Steps (s.go (.producer i) .outside [.generated i none, .returned (.producer i) count])
  | generated (i : ι) (limit count : SizeT) (hw : s.worker (.producer i) = .testing limit count)
      (hlimit : withinLimit limit count) :
      s.Steps { s.go (.producer i) (.handling .prepareBeforeDispatch limit (count + 1) s.generated)
        [.generated i (some s.generated)] with generated := s.generated + 1 }
  | preparedBeforeDispatch (i : ι) (limit count : SizeT) (t : ℕ)
      (hw : s.worker (.producer i) = .handling .prepareBeforeDispatch limit count t) :
      s.Steps (s.go (.producer i) (.handling .dispatchTasklet limit count t)
        [.prepareBeforeDispatch i t])
  | pushed (i : ι) (limit count : SizeT) (t : ℕ)
      (hw : s.worker (.producer i) = .handling .dispatchTasklet limit count t)
      (hattached : s.attached (.producer i)) :
      s.Steps ((s.pushTasklet t).go (.producer i) (.testing limit count) [.dispatched i t true])
  | rejected (i : ι) (limit count : SizeT) (t : ℕ)
      (hw : s.worker (.producer i) = .handling .dispatchTasklet limit count t)
      (hattached : ¬ s.attached (.producer i)) :
      s.Steps (s.go (.producer i) (.handling .cleanupAfterDispatchFailure limit count t)
        [.dispatched i t false])
  | cleanedUpAfterDispatchFailure (i : ι) (limit count : SizeT) (t : ℕ)
      (hw : s.worker (.producer i) = .handling .cleanupAfterDispatchFailure limit count t) :
      s.Steps (s.go (.producer i) (.testing limit count)
        [.cleanupAfterDispatchFailure i t, .deleted t])
  | noneFetched (k : κ) (limit count : SizeT)
      (hw : s.worker (.consumer k) = .testing limit count) (hlimit : withinLimit limit count)
      (hnone : s.attached (.consumer k) → s.items = []) :
      s.Steps (s.go (.consumer k) .outside [.fetched k none, .returned (.consumer k) count])
  | fetched (k : κ) (limit count : SizeT) (t : ℕ) (rest : List ℕ)
      (hw : s.worker (.consumer k) = .testing limit count) (hlimit : withinLimit limit count)
      (hattached : s.attached (.consumer k)) (hitems : s.items = t :: rest) :
      s.Steps { s.go (.consumer k) (.handling .prepareBeforeExecute limit count t)
        [.fetched k (some t)] with items := rest }
  | preparedBeforeExecute (k : κ) (limit count : SizeT) (t : ℕ)
      (hw : s.worker (.consumer k) = .handling .prepareBeforeExecute limit count t) :
      s.Steps (s.go (.consumer k) (.handling .execute limit count t) [.prepareBeforeExecute k t])
  | executed (k : κ) (limit count : SizeT) (t : ℕ) (rc : Result)
      (hw : s.worker (.consumer k) = .handling .execute limit count t) :
      s.Steps { s.go (.consumer k) (.handling .cleanupAfterExecute limit (count + 1) t)
          (.executed k t rc :: rc.stored.map fun r ↦ .reported t r r) with
        result := Function.update s.result t (rc.stored.getLastD (s.result t)) }
  | cleanedUpAfterExecute (k : κ) (limit count : SizeT) (t : ℕ)
      (hw : s.worker (.consumer k) = .handling .cleanupAfterExecute limit count t) :
      s.Steps (s.go (.consumer k) (.testing limit count) [.cleanupAfterExecute k t, .deleted t])

variable {s s' : Pool ι κ} {i : ι} {k : κ}

theorem steps_producerStep {available : Bool} (hstep : s.producerStep i available = some s') :
    s.Steps s' := by
  unfold producerStep at hstep
  split at hstep
  case h_1 limit count hw =>
    split_ifs at hstep with hlimit <;> cases hstep
    · exact .generated i limit count hw hlimit
    · exact .noneGenerated i limit count hw hlimit
    · exact .limited _ limit count hw hlimit
  case h_2 limit count t hw =>
    cases hstep
    exact .preparedBeforeDispatch i limit count t hw
  case h_3 limit count t hw =>
    split_ifs at hstep with hattached <;> cases hstep
    · exact .pushed i limit count t hw hattached
    · exact .rejected i limit count t hw hattached
  case h_4 limit count t hw =>
    cases hstep
    exact .cleanedUpAfterDispatchFailure i limit count t hw
  case h_5 => cases hstep

omit [DecidableEq ι] [DecidableEq κ] in
/-- A tasklet that is fetched is the first one of the queue. -/
theorem fetchNextTasklet_some {t : ℕ} {items : List ℕ}
    (h : s.fetchNextTasklet k = (some t, items)) :
    s.attached (.consumer k) ∧ s.items = t :: items := by
  unfold fetchNextTasklet at h
  split_ifs at h with hattached
  · split at h <;> cases h
    exact ⟨hattached, ‹_›⟩
  · cases h

omit [DecidableEq ι] [DecidableEq κ] in
/-- A consumer that fetches nothing has no queue, or an empty one. -/
theorem fetchNextTasklet_none {items : List ℕ} (h : s.fetchNextTasklet k = (none, items))
    (hattached : s.attached (.consumer k)) : s.items = [] := by
  rw [fetchNextTasklet, if_pos hattached] at h
  split at h <;> cases h
  assumption

theorem steps_consumerStep {rc : Result} (hstep : s.consumerStep k rc = some s') :
    s.Steps s' := by
  unfold consumerStep at hstep
  split at hstep
  case h_1 limit count hw =>
    split_ifs at hstep with hlimit
    · split at hstep <;> cases hstep
      case h_1 t items hfetch =>
        obtain ⟨hattached, hitems⟩ := fetchNextTasklet_some hfetch
        exact .fetched k limit count t items hw hlimit hattached hitems
      case h_2 hfetch => exact .noneFetched k limit count hw hlimit (fetchNextTasklet_none hfetch)
    · cases hstep
      exact .limited _ limit count hw hlimit
  case h_2 limit count t hw =>
    cases hstep
    exact .preparedBeforeExecute k limit count t hw
  case h_3 limit count t hw =>
    cases hstep
    exact .executed k limit count t rc hw
  case h_4 limit count t hw =>
    cases hstep
    exact .cleanedUpAfterExecute k limit count t hw
  case h_5 => cases hstep

/-- Every step is one of those of `Steps`. -/
theorem steps_next {action : Action ι κ} (hnext : next s action = some s') : s.Steps s' := by
  cases action with
  | attachToQueue w =>
    simp only [next] at hnext
    split_ifs at hnext with hw
    cases hnext
    exact .setAttached w true hw
  | detachFromQueue w =>
    simp only [next] at hnext
    split_ifs at hnext with hw
    cases hnext
    exact .setAttached w false hw
  | enter w limit =>
    simp only [next] at hnext
    split_ifs at hnext with hw
    cases hnext
    exact .entered w limit hw
  | generateTaskletAndDispatch i available => exact steps_producerStep hnext
  | fetchTaskletAndExecute k rc => exact steps_consumerStep hnext

/-- A worker inside of its loop that is in front of a call of its own takes a step, whatever the
system says. -/
theorem exists_step {w : Worker ι κ} (hw : s.worker w ≠ .outside)
    (hduty : ∀ duty limit count t, s.worker w = .handling duty limit count t → w.Does duty)
    (available : Bool) (rc : Result) : ∃ s', next s (w.step available rc) = some s' := by
  cases w with
  | producer i =>
    change ∃ s', s.producerStep i available = some s'
    unfold producerStep
    cases hposition : s.worker (.producer i) with
    | outside => exact absurd hposition hw
    | testing limit count =>
      simp only
      split_ifs <;> exact ⟨_, rfl⟩
    | handling duty limit count t =>
      have hdoes := hduty _ _ _ _ hposition
      cases duty <;> simp only
      case dispatchTasklet => split_ifs <;> exact ⟨_, rfl⟩
      all_goals first | exact ⟨_, rfl⟩ | exact hdoes.elim
  | consumer k =>
    change ∃ s', s.consumerStep k rc = some s'
    unfold consumerStep
    cases hposition : s.worker (.consumer k) with
    | outside => exact absurd hposition hw
    | testing limit count =>
      simp only
      split_ifs
      · cases hfetch : s.fetchNextTasklet k with
        | mk found items => cases found <;> exact ⟨_, rfl⟩
      · exact ⟨_, rfl⟩
    | handling duty limit count t =>
      have hdoes := hduty _ _ _ _ hposition
      cases duty <;> simp only
      all_goals first | exact ⟨_, rfl⟩ | exact hdoes.elim

end Pool

end Nebula.ProducerAndConsumer
