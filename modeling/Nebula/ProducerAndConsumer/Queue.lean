import Nebula.Library.Locked
import Nebula.ProducerAndConsumer.Pool

/-!
The queue of the tasklets, one statement after the other. Each method of `Queue` locks the mutex,
works on the `std::list`, and unlocks; `popTasklet` asks for the size, takes the first tasklet and
removes it in three steps, between which the list must not change. The pool pushes and pops in one
step (`Pool.pushTasklet`, `Pool.fetchNextTasklet`), and `queue_linearizable` is what it relies on:
whatever the threads do, their calls return what those of the atomic queue `fifo` return.
-/

set_option autoImplicit false
set_option relaxedAutoImplicit false

namespace Nebula.ProducerAndConsumer

open Nebula.Library

namespace Queue

variable {α : Type*}

/-- A call of a method. -/
inductive Op (α : Type*) where
  | pushTasklet (t : α)
  | popTasklet
  | size
  | isEmpty

/-- The statement that comes next, between `pthread_mutex_lock` and `pthread_mutex_unlock`. -/
inductive Place (α : Type*) where
  /-- `items_.push_back(t)`. -/
  | pushBack (t : α)
  /-- `if (items_.size())`. -/
  | testSize
  /-- `t = items_.front()`. -/
  | front
  /-- `items_.pop_front()`. -/
  | popFront (t : α)
  /-- `sz = items_.size()`. -/
  | readSize
  /-- `result = items_.empty()`. -/
  | readEmpty

/-- What a method returns. `front` and `pop_front` are undefined for an empty list. -/
inductive Answer (α : Type*) where
  | pushed
  | popped (t : Option α)
  | size (sz : ℕ)
  | isEmpty (result : Bool)
  | undefined
  deriving DecidableEq

def methods : Methods (List α) (Op α) (Place α) (Answer α) where
  enter
    | .pushTasklet t => .pushBack t
    | .popTasklet => .testSize
    | .size => .readSize
    | .isEmpty => .readEmpty
  step
    | items, .pushBack t => (items ++ [t], .inr .pushed)
    | items, .testSize => (items, if items.length ≠ 0 then .inl .front else .inr (.popped none))
    | t :: rest, .front => (t :: rest, .inl (.popFront t))
    | [], .front => ([], .inr .undefined)
    | _ :: rest, .popFront t => (rest, .inr (.popped (some t)))
    | [], .popFront _ => ([], .inr .undefined)
    | items, .readSize => (items, .inr (.size items.length))
    | items, .readEmpty => (items, .inr (.isEmpty items.isEmpty))

/-- A queue. -/
def fifo : List α → Op α → List α × Answer α
  | items, .pushTasklet t => (items ++ [t], .pushed)
  | t :: rest, .popTasklet => (rest, .popped (some t))
  | [], .popTasklet => ([], .popped none)
  | items, .size => (items, .size items.length)
  | items, .isEmpty => (items, .isEmpty items.isEmpty)

/-- Under the lock, every method does what it should. -/
theorem implements_fifo : (methods (α := α)).Implements fifo := by
  intro items op
  cases op with
  | pushTasklet t => exact .last rfl
  | popTasklet =>
    cases items with
    | nil => exact .last rfl
    | cons t rest => exact .next rfl (.next rfl (.last rfl))
  | size => cases items <;> exact .last rfl
  | isEmpty => cases items <;> exact .last rfl

theorem fifo_ne_undefined (items : List α) (op : Op α) : (fifo items op).2 ≠ .undefined := by
  cases op <;> cases items <;> simp [fifo]

/-- In every interleaving, the calls of the methods return what those of an atomic queue return,
none of them is undefined, at most one thread is inside of the list, and as long as a call has not
returned, its thread or the one that holds the lock can go on. -/
theorem queue_linearizable {τ : Type*} [DecidableEq τ] (turns : List (Turn τ (Op α)))
    (c : Locked τ (List α) (Op α) (Place α) (Answer α))
    (hrun : System.run (Locked.next methods) (Locked.start []) turns = some c) :
    (∃ turns' a, List.Sublist turns' turns ∧
        System.run (Atomic.next fifo) (Atomic.start []) turns' = some a ∧
        a.history = c.history ∧ (c.holder = none → a.object = c.object)) ∧
      (∀ thread op, .returned thread op .undefined ∉ c.history) ∧
      (∀ t u, (c.phase t).Holds → (c.phase u).Holds → t = u) ∧
      ∀ thread, c.phase thread ≠ .idle →
        ∃ t, (t = thread ∨ c.holder = some t) ∧ ∃ c', Locked.next methods c (.go t) = some c' := by
  have hguarded := Locked.guarded_run hrun
  obtain ⟨turns', a, hsub, hrun', hhistory, hobject⟩ := Locked.linearizable implements_fifo hrun
  have hanswers := Atomic.answers_run (P := fun _ answer ↦ answer ≠ .undefined)
    fifo_ne_undefined hrun'
  refine ⟨⟨turns', a, hsub, hrun', hhistory, hobject⟩, fun thread op hmem ↦ ?_,
    fun t u ht hu ↦ hguarded.unique ht hu, fun thread hcalled ↦ hguarded.exists_go hcalled⟩
  exact hanswers.returned thread op .undefined (hhistory ▸ hmem) rfl

/-- Two threads fetch a tasklet while a third one pushes it: the first of them is at `front` when
the others call. -/
def twoFetch : List (Turn (Fin 3) (Op ℕ)) :=
  [.call 0 (.pushTasklet 7), .call 1 .popTasklet, .go 0, .go 0, .go 0, .go 1, .go 1,
    .call 2 .popTasklet, .go 0, .go 1, .go 1, .go 1, .go 2, .go 2, .go 1, .go 2, .go 2]

def afterTwoFetch : Locked (Fin 3) (List ℕ) (Op ℕ) (Place ℕ) (Answer ℕ) :=
  (System.run (Locked.next methods) (Locked.start []) twoFetch).get (by decide +kernel)

/-- One thread gets the tasklet, the other one finds the queue empty. -/
theorem queue_linearizable_twoFetch :
    ∃ turns' a, List.Sublist turns' twoFetch ∧
      System.run (Atomic.next fifo) (Atomic.start []) turns' = some a ∧
      a.history = [.called 0 (.pushTasklet 7), .called 1 .popTasklet, .called 2 .popTasklet,
        .returned 0 (.pushTasklet 7) .pushed, .returned 1 .popTasklet (.popped (some 7)),
        .returned 2 .popTasklet (.popped none)] ∧ a.object = [] := by
  obtain ⟨turns', a, hsub, hrun, hhistory, hobject⟩ :=
    (queue_linearizable twoFetch afterTwoFetch (Option.some_get _).symm).1
  exact ⟨turns', a, hsub, hrun, hhistory.trans rfl, (hobject rfl).trans rfl⟩

end Queue

/-! ### The queue of the pool -/

namespace Pool

variable {ι κ : Type*} {s : Pool ι κ}

/-- The pool pushes as the queue does. -/
theorem items_pushTasklet (t : ℕ) :
    (s.pushTasklet t).items = (Queue.fifo s.items (.pushTasklet t)).1 := rfl

/-- A consumer that is attached fetches what the queue pops. -/
theorem fetchNextTasklet_eq {k : κ} (hattached : s.attached (.consumer k)) :
    Queue.fifo s.items .popTasklet =
      ((s.fetchNextTasklet k).2, .popped (s.fetchNextTasklet k).1) := by
  rw [fetchNextTasklet, if_pos hattached]
  cases s.items <;> rfl

end Pool

end Nebula.ProducerAndConsumer
