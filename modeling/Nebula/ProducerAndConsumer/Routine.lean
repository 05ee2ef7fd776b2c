import Nebula.ProducerAndConsumer.Pool

/-!
The default routines of producers and consumers: the loop around `generateTaskletAndDispatch` and
`fetchTaskletAndExecute` that looks at the stop flag of its thread before every round. The loop of
`Producer::routine` goes on while the flag is clear, the one of `Consumer::routine` while it is set.

`stopsWhenTold_iff` says that the threads run until they are told to stop exactly in the runs in
which no consumer comes to its loop test.
-/

set_option autoImplicit false
set_option relaxedAutoImplicit false

namespace Nebula.ProducerAndConsumer

open Nebula.Library

/-- Where a thread is: `create` has not been called for it, or it is in its `routine`, or that has
returned. -/
inductive Routine where
  | created
  | looping
  | returned
  deriving DecidableEq

/-- What a thread does in its `routine`: a loop test that finds the flag as given, the start of a
round, or the return. -/
inductive RoutineEvent where
  | tested (stopFlag : Bool)
  | round
  | returned
  deriving DecidableEq

/-- The pool, and the threads of its workers. `history` records what a thread has done, the latest
first; the program never reads it. -/
structure Threads (ι κ : Type*) where
  pool : Pool ι κ
  stopFlag : Worker ι κ → Bool
  routine : Worker ι κ → Routine
  history : Worker ι κ → List RoutineEvent

/-- An action: a thread enters its `routine`, somebody sets the stop flag of a thread or pushes a
tasklet, a thread comes to its loop test, or the pool takes a step. -/
inductive ThreadAction (ι κ : Type*) where
  | routine (w : Worker ι κ)
  | setStopFlag (w : Worker ι κ)
  | pushTasklet (t : ℕ)
  | loopTest (w : Worker ι κ)
  | work (action : Action ι κ)

/-- The worker that enters its loop. -/
def Action.entering {ι κ : Type*} : Action ι κ → Option (Worker ι κ)
  | .enter w _ => some w
  | _ => none

/-- Whether the loop of a `routine` goes on when its test finds the stop flag as given. -/
def goesOn {ι κ : Type*} : Worker ι κ → Bool → Bool
  -- `while (!getStopFlag())`
  | .producer _, stopFlag => !stopFlag
  -- `while (getStopFlag())`
  | .consumer _, stopFlag => stopFlag

namespace Threads

variable {ι κ : Type*} [DecidableEq ι] [DecidableEq κ]

/-- No thread has been created, and no tasklet has been generated. -/
def start (attached : Worker ι κ → Bool) : Threads ι κ where
  pool := .start attached
  stopFlag := fun _ ↦ false
  routine := fun _ ↦ .created
  history := fun _ ↦ []

/-- The thread is at its loop test. -/
def AtLoopTest (s : Threads ι κ) (w : Worker ι κ) : Prop :=
  s.routine w = .looping ∧ s.pool.worker w = .outside

instance (s : Threads ι κ) (w : Worker ι κ) : Decidable (s.AtLoopTest w) :=
  inferInstanceAs (Decidable (_ ∧ _))

/-- The loop test of `routine`, and what follows: a round without a limit, or the return. -/
def loopTest (s : Threads ι κ) (w : Worker ι κ) : Threads ι κ :=
  if goesOn w (s.stopFlag w) then
    { s with
      pool := s.pool.go w (.testing 0 0) []
      history :=
        Function.update s.history w (.round :: .tested (s.stopFlag w) :: s.history w) }
  else
    { s with
      routine := Function.update s.routine w .returned
      history :=
        Function.update s.history w (.returned :: .tested (s.stopFlag w) :: s.history w) }

def next : System (Threads ι κ) (ThreadAction ι κ)
  | s, .routine w =>
      if s.routine w = .created ∧ s.pool.worker w = .outside then
        some { s with routine := Function.update s.routine w .looping }
      else none
  | s, .setStopFlag w => some { s with stopFlag := Function.update s.stopFlag w true }
  | s, .pushTasklet t => some { s with pool := s.pool.pushTasklet t }
  | s, .loopTest w => if s.AtLoopTest w then some (s.loopTest w) else none
  | s, .work action =>
      -- while a thread is in its `routine`, its rounds are started there
      if action.entering.map s.routine = some .looping then none
      else (s.pool.next action).map fun pool ↦ { s with pool := pool }

/-! ### Being told to stop -/

/-- A thread returns only right after a loop test that has found the flag set, and starts no round
after such a test. -/
def Obeys : List RoutineEvent → Prop
  | [] => True
  | .tested _ :: earlier => Obeys earlier
  | .round :: earlier => .tested true ∉ earlier ∧ Obeys earlier
  | .returned :: earlier => earlier.head? = some (.tested true) ∧ Obeys earlier

/-- What all threads should do at any time: none has returned while its stop flag is clear. -/
structure StopsWhenTold (s : Threads ι κ) : Prop where
  obeys : ∀ w, Obeys (s.history w)
  flagged : ∀ w, s.routine w = .returned → s.stopFlag w = true

/-- If the action is a loop test, then it is the one of a producer. -/
def TestsAsProducer (s : Threads ι κ) : ThreadAction ι κ → Prop
  | .loopTest (.consumer k) => ¬ s.AtLoopTest (.consumer k)
  | _ => True

/-- What the loop tests of producers keep of one thread. -/
structure Obedient (s : Threads ι κ) (w : Worker ι κ) : Prop where
  obeys : Obeys (s.history w)
  untold : s.routine w ≠ .returned → .tested true ∉ s.history w
  flagged : s.routine w = .returned → s.stopFlag w = true

variable {s s' : Threads ι κ} {w : Worker ι κ}

omit [DecidableEq ι] [DecidableEq κ] in
/-- A step that is not a loop test of the thread, and does not clear its flag. -/
theorem Obedient.keep (h : s.Obedient w) (hhistory : s'.history w = s.history w)
    (hroutine : s'.routine w = .returned → s.routine w = .returned)
    (hback : s.routine w = .returned → s'.routine w = .returned)
    (hflag : s.stopFlag w = true → s'.stopFlag w = true) : s'.Obedient w where
  obeys := hhistory ▸ h.obeys
  untold hne := hhistory ▸ h.untold fun hreturned ↦ hne (hback hreturned)
  flagged hreturned := hflag (h.flagged (hroutine hreturned))

/-- A loop test of a producer. -/
theorem Obedient.loopTest {i : ι} (h : s.Obedient (.producer i))
    (htest : s.AtLoopTest (.producer i)) : (s.loopTest (.producer i)).Obedient (.producer i) := by
  have huntold : .tested true ∉ s.history (.producer i) := h.untold (by rw [htest.1]; nofun)
  unfold Threads.loopTest
  cases hflag : s.stopFlag (.producer i) with
  | false =>
    simp only [goesOn, Bool.not_false, if_true]
    constructor
    · simp only [Function.update_self]
      exact ⟨by simpa using huntold, h.obeys⟩
    · intro _
      simpa only [Function.update_self, List.mem_cons, reduceCtorEq, RoutineEvent.tested.injEq,
        Bool.true_eq_false, false_or] using huntold
    · exact fun hreturned ↦ absurd (htest.1.symm.trans hreturned) nofun
  | true =>
    simp only [goesOn, Bool.not_true, Bool.false_eq_true, if_false]
    constructor
    · simp only [Function.update_self]
      exact ⟨rfl, h.obeys⟩
    · exact fun hne ↦ absurd (Function.update_self ..) hne
    · exact fun _ ↦ hflag

/-- A loop test of another thread. -/
theorem Obedient.loopTest_of_ne {v : Worker ι κ} (h : s.Obedient w) (hne : w ≠ v) :
    (s.loopTest v).Obedient w := by
  unfold Threads.loopTest
  split
  · exact h.keep (Function.update_of_ne hne ..) id id id
  · have hroutine : Function.update s.routine v .returned w = s.routine w :=
      Function.update_of_ne hne ..
    exact h.keep (Function.update_of_ne hne ..) hroutine.symm.trans hroutine.trans id

/-- Every step but a loop test of a consumer keeps the threads obedient. -/
theorem Obedient.next {a : ThreadAction ι κ} (h : ∀ w, s.Obedient w) (ha : s.TestsAsProducer a)
    (hnext : Threads.next s a = some s') (w : Worker ι κ) : s'.Obedient w := by
  cases a with
  | routine v =>
    simp only [Threads.next] at hnext
    split_ifs at hnext with hcreated
    cases hnext
    rcases eq_or_ne w v with rfl | hne
    · refine (h w).keep rfl (fun hreturned ↦ ?_) (fun hreturned ↦ ?_) id
      · exact absurd ((Function.update_self ..).symm.trans hreturned) nofun
      · exact absurd (hcreated.1.symm.trans hreturned) nofun
    · have hroutine : Function.update s.routine v .looping w = s.routine w :=
        Function.update_of_ne hne ..
      exact (h w).keep rfl hroutine.symm.trans hroutine.trans id
  | setStopFlag v =>
    cases hnext
    refine (h w).keep rfl id id fun hflag ↦ ?_
    rcases eq_or_ne w v with rfl | hne
    · exact Function.update_self ..
    · exact (Function.update_of_ne hne ..).trans hflag
  | pushTasklet t =>
    cases hnext
    exact (h w).keep rfl id id id
  | loopTest v =>
    simp only [Threads.next] at hnext
    split_ifs at hnext with htest
    cases hnext
    cases v with
    | producer i =>
      rcases eq_or_ne w (.producer i) with rfl | hne
      · exact (h _).loopTest htest
      · exact (h w).loopTest_of_ne hne
    | consumer k => exact absurd htest ha
  | work action =>
    simp only [Threads.next] at hnext
    split_ifs at hnext with hentering
    obtain ⟨pool, -, rfl⟩ := Option.map_eq_some_iff.mp hnext
    exact (h w).keep rfl id id id

/-- After the loop test of a consumer, the thread has not been doing what it is told. -/
theorem not_stopsWhenTold_loopTest (s : Threads ι κ) (k : κ) :
    ¬ (s.loopTest (.consumer k)).StopsWhenTold := by
  rintro ⟨hobeys, hflagged⟩
  unfold Threads.loopTest at hobeys hflagged
  cases hflag : s.stopFlag (.consumer k) with
  | false =>
    simp only [goesOn, hflag, Bool.false_eq_true, if_false] at hflagged
    -- it has returned while its flag is clear
    have hset := hflagged (.consumer k) (Function.update_self ..)
    exact absurd (hflag.symm.trans hset) nofun
  | true =>
    simp only [goesOn, hflag, if_true] at hobeys
    -- it starts a round although it has seen the flag set
    have hround := hobeys (.consumer k)
    simp only [Function.update_self] at hround
    exact hround.1 (List.mem_cons_self ..)

/-! ### All runs -/

/-- The threads do what they are told in every state of a run exactly when no consumer comes to its
loop test on the way. -/
theorem stopsWhenTold_iff (attached : Worker ι κ → Bool) (actions : List (ThreadAction ι κ)) :
    System.Always next StopsWhenTold (start attached) actions ↔
      System.Meets next TestsAsProducer (start attached) actions := by
  refine System.always_iff_meets (I := fun _ ↦ True) (J := fun s ↦ ∀ w, s.Obedient w)
    (fun _ _ _ _ _ ↦ trivial) (fun s a s' h ha hnext ↦ Obedient.next h ha hnext)
    (fun s h ↦ ⟨fun w ↦ (h w).obeys, fun w ↦ (h w).flagged⟩) (fun s a _ ha ↦ ?_) trivial
    fun w ↦ ⟨trivial, fun _ ↦ nofun, nofun⟩
  cases a with
  | loopTest v =>
    cases v with
    | producer i => exact absurd trivial ha
    | consumer k =>
      have htest : s.AtLoopTest (.consumer k) := Classical.not_not.mp ha
      exact ⟨s.loopTest (.consumer k), if_pos htest, not_stopsWhenTold_loopTest s k⟩
  | _ => exact absurd trivial ha

/-- A tasklet is pushed, a consumer enters its `routine` and comes to its loop test. -/
def idleRun : List (ThreadAction Unit Unit) :=
  [.pushTasklet 0, .routine (.consumer ()), .loopTest (.consumer ())]

/-- The consumer of `idleRun` has returned without a round, although nobody has told it to stop and
there is a tasklet in its queue. -/
theorem not_stopsWhenTold_idleRun :
    ∃ s, System.run next (start fun _ ↦ true) idleRun = some s ∧
      s.routine (.consumer ()) = .returned ∧ s.stopFlag (.consumer ()) = false ∧
        s.pool.items = [0] ∧ ¬ s.StopsWhenTold :=
  ⟨_, rfl, rfl, rfl, rfl, fun h ↦ absurd (h.flagged (.consumer ()) rfl) nofun⟩

end Threads

end Nebula.ProducerAndConsumer
