import Nebula.Library.LockFree
import Nebula.ProducerAndConsumer.Routine

/-!
The stop flag of a `Thread`. Any number of threads set and read it at the same time, without a lock:
`getStopFlag` and `trySetStopFlag` are one atomic instruction each, and `setStopFlag` compares and
swaps in a loop that goes on as long as the comparison has found 0, that is, once more after it has
set the flag itself.

`stopFlag_linearizable` says that the threads cannot tell this from a flag that is set and read at
once, that at most one `trySetStopFlag` is answered with 0, and that nobody ever waits: the loop
ends after two rounds, since the flag is never cleared. The default routines of producers and
consumers have such a flag (`ProducerAndConsumer.Threads.HasFlag.next`).
-/

set_option autoImplicit false
set_option relaxedAutoImplicit false

namespace Nebula.Thread

open Nebula.Library

/-- `stop_`. -/
abbrev StopFlag := BitVec 32

/-- A call of a method. -/
inductive Op where
  | trySetStopFlag
  | setStopFlag
  | getStopFlag
  deriving DecidableEq

/-- The atomic instruction that comes next. -/
inductive Place where
  /-- `return __sync_val_compare_and_swap(&stop_, 0, 1)`. -/
  | compareAndSwap
  /-- `while (!__sync_val_compare_and_swap(&stop_, 0, 1))`, and what the last round has found. -/
  | loop (found : Option StopFlag)
  /-- `return __sync_fetch_and_add(&stop_, 0)`. -/
  | fetchAndAdd
  deriving DecidableEq

/-- What a method returns. -/
inductive Answer where
  | value (stop : StopFlag)
  | done
  deriving DecidableEq

/-- The word afterwards, and what has been found in it. -/
def valCompareAndSwap (word oldval newval : StopFlag) : StopFlag × StopFlag :=
  (if word = oldval then newval else word, word)

def fetchAndAdd (word value : StopFlag) : StopFlag × StopFlag := (word + value, word)

def methods : Methods StopFlag Op Place Answer where
  enter
    | .trySetStopFlag => .compareAndSwap
    | .setStopFlag => .loop none
    | .getStopFlag => .fetchAndAdd
  step
    | stop, .compareAndSwap =>
        let (stop, found) := valCompareAndSwap stop 0 1
        (stop, .inr (.value found))
    | stop, .loop _ =>
        let (stop, found) := valCompareAndSwap stop 0 1
        (stop, if found = 0 then .inl (.loop (some found)) else .inr .done)
    | stop, .fetchAndAdd =>
        let (stop, found) := fetchAndAdd stop 0
        (stop, .inr (.value found))

/-! ### The flag that is set and read at once -/

/-- A flag that is set stays as it is. -/
def setFlag (stop : StopFlag) : StopFlag := if stop = 0 then 1 else stop

def flag : StopFlag → Op → StopFlag × Answer
  | stop, .trySetStopFlag => (setFlag stop, .value stop)
  | stop, .setStopFlag => (setFlag stop, .done)
  | stop, .getStopFlag => (stop, .value stop)

theorem setFlag_ne_zero (stop : StopFlag) : setFlag stop ≠ 0 := by
  unfold setFlag
  split_ifs with hstop
  · decide
  · exact hstop

theorem setFlag_of_ne_zero {stop : StopFlag} (hstop : stop ≠ 0) : setFlag stop = stop :=
  if_neg hstop

/-- The flag is never cleared. -/
theorem flag_ne_zero {stop : StopFlag} (hstop : stop ≠ 0) (op : Op) : (flag stop op).1 ≠ 0 := by
  cases op with
  | trySetStopFlag | setStopFlag => exact setFlag_ne_zero stop
  | getStopFlag => exact hstop

/-- What an instruction does with the flag. -/
theorem step_fst (stop : StopFlag) (place : Place) :
    (methods.step stop place).1 = if place = .fetchAndAdd then stop else setFlag stop := by
  cases place with
  | compareAndSwap | loop => rfl
  | fetchAndAdd => exact BitVec.add_zero stop

theorem step_fst_ne_zero {stop : StopFlag} (hstop : stop ≠ 0) (place : Place) :
    (methods.step stop place).1 ≠ 0 := by
  rw [step_fst]
  split_ifs
  · exact hstop
  · exact setFlag_ne_zero stop

/-! ### The instructions in between -/

/-- Where a call can be, and what it knows there: a loop that goes on has set the flag. -/
inductive Known (stop : StopFlag) : Op → Place → Prop
  | trySetStopFlag : Known stop .trySetStopFlag .compareAndSwap
  | setStopFlag : Known stop .setStopFlag (.loop none)
  | setAlready (found : StopFlag) (hset : stop ≠ 0) : Known stop .setStopFlag (.loop (some found))
  | getStopFlag : Known stop .getStopFlag .fetchAndAdd

/-- A loop that goes on has taken effect. -/
def effected : Op → Place → Option Answer
  | _, .loop (some _) => some .done
  | _, _ => none

/-- The rounds that are left of a loop, besides this one. -/
def roundsLeft : Op → Place → ℕ
  | _, .loop none => 1
  | _, _ => 0

theorem loop_of_eq_zero {stop : StopFlag} (hstop : stop = 0) (found : Option StopFlag) :
    methods.step stop (.loop found) = (1, .inl (.loop (some 0))) := by
  subst hstop
  rfl

theorem loop_of_ne_zero {stop : StopFlag} (hstop : stop ≠ 0) (found : Option StopFlag) :
    methods.step stop (.loop found) = (stop, .inr .done) := by
  change (setFlag stop, if stop = 0 then Sum.inl (Place.loop (some stop)) else
    Sum.inr Answer.done) = _
  rw [setFlag_of_ne_zero hstop, if_neg hstop]

def outline : Outline methods flag where
  Holds := Known
  effected := effected
  enter stop op := by
    cases op with
    | trySetStopFlag => exact ⟨.trySetStopFlag, rfl⟩
    | setStopFlag => exact ⟨.setStopFlag, rfl⟩
    | getStopFlag => exact ⟨.getStopFlag, rfl⟩
  effect stop op place hknown := by
    cases hknown with
    | trySetStopFlag => exact .inr ⟨rfl, rfl, rfl⟩
    | setStopFlag =>
      -- the round that finds the flag clear sets it, and the loop goes on
      by_cases hstop : stop = 0
      · rw [loop_of_eq_zero hstop]
        exact .inr ⟨rfl, (if_pos hstop).symm, rfl⟩
      · rw [loop_of_ne_zero hstop]
        exact .inr ⟨rfl, (setFlag_of_ne_zero hstop).symm, rfl⟩
    | setAlready found hset =>
      rw [loop_of_ne_zero hset]
      exact .inl ⟨rfl, rfl⟩
    | getStopFlag => exact .inr ⟨rfl, BitVec.add_zero stop, rfl⟩
  onward stop op place place' hknown hstep := by
    cases hknown with
    | trySetStopFlag => cases hstep
    | setStopFlag =>
      by_cases hstop : stop = 0
      · rw [loop_of_eq_zero hstop] at hstep ⊢
        cases hstep
        exact .setAlready 0 (by decide)
      · rw [loop_of_ne_zero hstop] at hstep
        cases hstep
    | setAlready found hset =>
      rw [loop_of_ne_zero hset] at hstep
      cases hstep
    | getStopFlag => cases hstep
  undisturbed stop op place op' place' _ hknown' := by
    cases hknown' with
    | trySetStopFlag => exact .trySetStopFlag
    | setStopFlag => exact .setStopFlag
    | setAlready found hset => exact .setAlready found (step_fst_ne_zero hset place)
    | getStopFlag => exact .getStopFlag

theorem roundsLeft_lt (stop : StopFlag) (op : Op) (place place' : Place)
    (hknown : Known stop op place) (hstep : (methods.step stop place).2 = .inl place') :
    roundsLeft op place' < roundsLeft op place := by
  cases hknown with
  | trySetStopFlag => cases hstep
  | setStopFlag =>
    by_cases hstop : stop = 0
    · rw [loop_of_eq_zero hstop] at hstep
      cases hstep
      exact Nat.zero_lt_one
    · rw [loop_of_ne_zero hstop] at hstep
      cases hstep
  | setAlready found hset =>
    rw [loop_of_ne_zero hset] at hstep
    cases hstep
  | getStopFlag => cases hstep

/-! ### The one that has set the flag -/

section Winner

variable {τ : Type*}

/-- The stage of a call of `trySetStopFlag` that has set the flag. -/
abbrev winning : Stage Op Answer := .effected .trySetStopFlag (.value 0)

/-- `trySetStopFlag` has returned 0. -/
def won : CallEvent τ Op Answer → Bool
  | .returned _ op answer => op = .trySetStopFlag ∧ answer = .value 0
  | .called _ _ => false

/-- The threads that have set the flag with `trySetStopFlag`, which has not returned yet. -/
def Winner (stage : τ → Stage Op Answer) (winner : Option τ) : Prop :=
  ∀ t, stage t = winning ↔ winner = some t

/-- At most one call of `trySetStopFlag` is answered with 0, and none as long as the flag is
clear. -/
def WonOnce (a : Atomic τ StopFlag Op Answer) : Prop :=
  ∃ winner, Winner a.stage winner ∧
    a.history.countP won + (if winner.isSome then 1 else 0) ≤ if a.object = 0 then 0 else 1

/-- The flag is set when a call that sets it has taken effect. -/
structure IsSet (a : Atomic τ StopFlag Op Answer) : Prop where
  effected : ∀ t op answer, a.stage t = .effected op answer → op ≠ .getStopFlag → a.object ≠ 0
  returned : ∀ t op answer, .returned t op answer ∈ a.history → op ≠ .getStopFlag → a.object ≠ 0

theorem wonOnce_start (stop : StopFlag) : WonOnce (Atomic.start stop : Atomic τ _ _ _) :=
  ⟨none, fun t ↦ iff_of_false (by simp [Atomic.start]) (by simp), by simp [Atomic.start]⟩

theorem isSet_start (stop : StopFlag) : IsSet (Atomic.start stop : Atomic τ _ _ _) :=
  ⟨by simp [Atomic.start], by simp [Atomic.start]⟩

variable [DecidableEq τ] {stage : τ → Stage Op Answer} {winner : Option τ} {t : τ}
  {a a' : Atomic τ StopFlag Op Answer} {turn : Turn τ Op}

theorem Winner.update (h : Winner stage winner) {after : Stage Op Answer}
    (hbefore : stage t ≠ winning) (hafter : after ≠ winning) :
    Winner (Function.update stage t after) winner := by
  intro t'
  rw [Function.update_apply]
  split_ifs with ht
  · subst ht
    exact iff_of_false hafter fun hwinner ↦ hbefore ((h t').mpr hwinner)
  · exact h t'

theorem Winner.wins (h : Winner stage none) (t : τ) :
    Winner (Function.update stage t winning) (some t) := by
  intro t'
  rw [Function.update_apply]
  split_ifs with ht
  · exact iff_of_true rfl (congrArg some ht.symm)
  · exact iff_of_false (fun hwinning ↦ by cases (h t').mp hwinning) fun heq ↦
      ht (Option.some.inj heq).symm

theorem Winner.leaves (h : Winner stage (some t)) {after : Stage Op Answer}
    (hafter : after ≠ winning) : Winner (Function.update stage t after) none := by
  intro t'
  rw [Function.update_apply]
  split_ifs with ht
  · exact iff_of_false hafter (by simp)
  · exact iff_of_false (fun hwinning ↦ ht (Option.some.inj ((h t').mp hwinning)).symm) (by simp)

theorem IsSet.update (h : IsSet a) {after : Stage Op Answer}
    (hstage : a'.stage = Function.update a.stage t after)
    (hobject : a.object ≠ 0 → a'.object ≠ 0)
    (hnew : ∀ op answer, after = .effected op answer → op ≠ .getStopFlag → a'.object ≠ 0)
    (hreturned : ∀ t op answer,
      .returned t op answer ∈ a'.history → op ≠ .getStopFlag → a'.object ≠ 0) : IsSet a' := by
  refine ⟨fun t' op answer heffected hop ↦ ?_, hreturned⟩
  rw [hstage, Function.update_apply] at heffected
  split_ifs at heffected
  · exact hnew op answer heffected hop
  · exact hobject (h.effected t' op answer heffected hop)

theorem IsSet.next (h : IsSet a) (hnext : Atomic.next flag a turn = some a') : IsSet a' := by
  cases turn with
  | call t op =>
    simp only [Atomic.next] at hnext
    split at hnext <;> cases hnext
    refine h.update rfl id (by simp) fun t' op' answer hmem ↦ ?_
    exact h.returned t' op' answer (by simpa using hmem)
  | go t =>
    simp only [Atomic.next] at hnext
    split at hnext <;> cases hnext
    case h_2 op hcalled =>
      refine h.update rfl (fun hset ↦ flag_ne_zero hset op) (fun op' answer heq hop ↦ ?_)
        fun t' op' answer hmem hop ↦ flag_ne_zero (h.returned t' op' answer hmem hop) op
      cases heq
      cases op with
      | trySetStopFlag | setStopFlag => exact setFlag_ne_zero a.object
      | getStopFlag => exact absurd rfl hop
    case h_3 op answer heffected =>
      refine h.update rfl id (by simp) fun t' op' answer' hmem hop ↦ ?_
      rcases List.mem_append.mp hmem with hmem | hmem
      · exact h.returned t' op' answer' hmem hop
      · cases List.mem_singleton.mp hmem
        exact h.effected t op answer heffected hop

/-- A call of `trySetStopFlag` is answered with 0 exactly when the flag is clear. -/
theorem winning_iff (stop : StopFlag) (op : Op) :
    Stage.effected op (flag stop op).2 = winning ↔ op = .trySetStopFlag ∧ stop = 0 := by
  cases op <;> simp [flag, winning]

theorem WonOnce.next (h : WonOnce a) (hnext : Atomic.next flag a turn = some a') :
    WonOnce a' := by
  obtain ⟨winner, hwinner, hcount⟩ := h
  cases turn with
  | call t op =>
    simp only [Atomic.next] at hnext
    split at hnext <;> cases hnext
    case h_1 hidle =>
      refine ⟨winner, hwinner.update (by rw [hidle]; simp) (by simp), ?_⟩
      rw [List.countP_append]
      exact hcount
  | go t =>
    simp only [Atomic.next] at hnext
    split at hnext <;> cases hnext
    case h_2 op hcalled =>
      by_cases hwins : op = .trySetStopFlag ∧ a.object = 0
      · -- nobody has set the flag before
        rw [if_pos hwins.2] at hcount
        have hnobody : winner = none := by
          cases winner with
          | none => rfl
          | some t' => simp at hcount
        subst hnobody
        refine ⟨some t, ?_, ?_⟩
        · rw [(winning_iff ..).mpr hwins]
          exact hwinner.wins t
        · have hset : (flag a.object op).1 ≠ 0 := by
            rw [hwins.1]
            exact setFlag_ne_zero a.object
          simp only [if_neg hset]
          exact Nat.add_le_add_right (Nat.le_trans (Nat.le_add_right ..) hcount) 1
      · refine ⟨winner, hwinner.update (by rw [hcalled]; simp) (mt (winning_iff ..).mp hwins), ?_⟩
        refine Nat.le_trans hcount ?_
        split_ifs with hclear hclear'
        · exact Nat.le_refl 0
        · exact Nat.zero_le 1
        · exact absurd ‹_› (flag_ne_zero hclear op)
        · exact Nat.le_refl 1
    case h_3 op answer heffected =>
      rw [WonOnce, List.countP_append]
      by_cases hwins : op = .trySetStopFlag ∧ answer = .value 0
      · obtain ⟨rfl, rfl⟩ := hwins
        have hwinner' : winner = some t := (hwinner t).mp heffected
        subst hwinner'
        exact ⟨none, hwinner.leaves (by simp), hcount⟩
      · have hlost : won (.returned t op answer) = false := decide_eq_false hwins
        refine ⟨winner, hwinner.update ?_ (by simp), ?_⟩
        · rw [heffected]
          simpa [winning] using hwins
        · rw [List.countP_singleton, hlost]
          exact hcount

/-- What is known of every history of the flag that is set and read at once. -/
theorem setOnce_run {stop : StopFlag} {turns : List (Turn τ Op)}
    (hrun : System.run (Atomic.next flag) (Atomic.start stop) turns = some a) :
    IsSet a ∧ WonOnce a :=
  ⟨System.run_invariant (fun _ _ _ h hnext ↦ IsSet.next h hnext) (isSet_start stop) hrun,
    System.run_invariant (fun _ _ _ h hnext ↦ WonOnce.next h hnext) (wonOnce_start stop) hrun⟩

end Winner

/-- In every interleaving of any number of threads that call `trySetStopFlag`, `setStopFlag` and
`getStopFlag` of a new thread, the calls return what those of a flag return that is set and read at
once; at most one `trySetStopFlag` returns 0; from the first return of a call that sets it on, the
flag is set; a thread can always go on with its call, and takes at most three turns for it. -/
theorem stopFlag_linearizable {τ : Type*} [DecidableEq τ] (turns : List (Turn τ Op))
    (c : LockFree τ StopFlag Op Place Answer)
    (hrun : System.run (LockFree.next methods) (LockFree.start 0) turns = some c) :
    (∃ turns' a, List.Sublist turns' turns ∧
        System.run (Atomic.next flag) (Atomic.start 0) turns' = some a ∧
        a.history = c.history ∧ a.object = c.object) ∧
      c.history.countP won ≤ 1 ∧
      (∀ t op answer, .returned t op answer ∈ c.history → op ≠ .getStopFlag → c.object ≠ 0) ∧
      ∀ t, (c.progress t ≠ .idle → ∃ c', LockFree.next methods c (.go t) = some c') ∧
        (turns.map (LockFree.goes t)).sum ≤ 3 * (turns.map (LockFree.calls t)).sum := by
  obtain ⟨turns', a, hsub, hrun', hhistory, hobject⟩ := LockFree.linearizable outline hrun
  obtain ⟨hset, winner, -, hcount⟩ := setOnce_run hrun'
  have hrounds : ∀ op, roundsLeft op (methods.enter op) ≤ 1 := fun op ↦ by cases op <;> decide
  refine ⟨⟨turns', a, hsub, hrun', hhistory, hobject⟩, ?_, fun t op answer hmem ↦ ?_, fun t ↦
    ⟨LockFree.exists_next methods, LockFree.turns_le outline hrounds roundsLeft_lt hrun t⟩⟩
  · rw [← hhistory]
    refine Nat.le_trans (Nat.le_add_right ..) (hcount.trans ?_)
    split_ifs <;> decide
  · rw [← hobject]
    exact hset.returned t op answer (hhistory ▸ hmem)

/-- One thread sets the flag in its loop between the call and the instruction of one that tries. -/
def twoSet : List (Turn ℕ Op) :=
  [.call 0 .setStopFlag, .call 1 .trySetStopFlag, .go 0, .go 1, .call 2 .getStopFlag, .go 2, .go 0,
    .go 1, .go 0, .go 2]

def afterTwoSet : LockFree ℕ StopFlag Op Place Answer :=
  (System.run (LockFree.next methods) (LockFree.start 0) twoSet).get (by decide +kernel)

/-- The one that tries finds the flag set. -/
theorem stopFlag_linearizable_twoSet :
    ∃ turns' a, List.Sublist turns' twoSet ∧
      System.run (Atomic.next flag) (Atomic.start 0) turns' = some a ∧
      a.history = [.called 0 .setStopFlag, .called 1 .trySetStopFlag, .called 2 .getStopFlag,
        .returned 1 .trySetStopFlag (.value 1), .returned 0 .setStopFlag .done,
        .returned 2 .getStopFlag (.value 1)] ∧ a.object = 1 := by
  obtain ⟨turns', a, hsub, hrun, hhistory, hobject⟩ :=
    (stopFlag_linearizable twoSet afterTwoSet (Option.some_get _).symm).1
  exact ⟨turns', a, hsub, hrun, hhistory.trans rfl, hobject.trans rfl⟩

end Nebula.Thread

/-! ### The flags of producers and consumers -/

namespace Nebula.ProducerAndConsumer.Threads

open Nebula.Library Nebula.Thread

variable {ι κ : Type*} [DecidableEq ι] [DecidableEq κ] {s s' : Threads ι κ} {w : Worker ι κ}
  {stop : StopFlag}

/-- What the loop tests of a worker see of its flag. -/
def HasFlag (s : Threads ι κ) (w : Worker ι κ) (stop : StopFlag) : Prop :=
  s.stopFlag w = decide (stop ≠ 0)

omit [DecidableEq ι] [DecidableEq κ] in
theorem hasFlag_start (attached : Worker ι κ → Bool) (w : Worker ι κ) :
    (start attached).HasFlag w 0 := rfl

theorem stopFlag_loopTest (w' : Worker ι κ) : (s.loopTest w').stopFlag = s.stopFlag := by
  unfold loopTest
  split_ifs <;> rfl

/-- Whatever the threads do, the flag of a worker is left as it is or set. -/
theorem HasFlag.next {action : ThreadAction ι κ} (h : s.HasFlag w stop)
    (hnext : Threads.next s action = some s') :
    s'.HasFlag w stop ∨ s'.HasFlag w (flag stop .setStopFlag).1 := by
  cases action with
  | routine w' =>
    simp only [Threads.next] at hnext
    split_ifs at hnext
    cases hnext
    exact .inl h
  | setStopFlag w' =>
    cases hnext
    unfold HasFlag
    simp only [Function.update_apply]
    split_ifs
    · exact .inr (decide_eq_true (setFlag_ne_zero stop)).symm
    · exact .inl h
  | pushTasklet t =>
    cases hnext
    exact .inl h
  | loopTest w' =>
    simp only [Threads.next] at hnext
    split_ifs at hnext
    cases hnext
    rw [HasFlag, stopFlag_loopTest]
    exact .inl h
  | work action =>
    simp only [Threads.next] at hnext
    split_ifs at hnext
    obtain ⟨pool, -, rfl⟩ := Option.map_eq_some_iff.mp hnext
    exact .inl h

end Nebula.ProducerAndConsumer.Threads
