import Nebula.Async.Tables
import Nebula.Library.Ownership
import Mathlib.Algebra.Order.Group.Multiset
import Mathlib.Tactic.SplitIfs

/-!
How an `AsyncEvent` comes and goes: the constructor, `initialize`, which creates the `epoll`
descriptor and allocates the four arrays, and the destructor. `initialize` returns from each of its
failing calls and leaves what it has got so far to the destructor.

`turns_initialization` and `turns_destroy` say what the object holds in between, whatever fails.
-/

set_option autoImplicit false
set_option relaxedAutoImplicit false

namespace Nebula.Async

open Nebula.Library Handover

/-- A descriptor, a block of memory, or the file of a socket. -/
inductive Resource where
  | descriptor (fd : ℤ)
  | block (p : Pointer)
  | socketFile (path : List UInt8)
  deriving DecidableEq

namespace Resource

def heldFd (fd : ℤ) : Multiset Resource := held (0 ≤ fd) (.descriptor fd)

def heldBlock (p : Pointer) : Multiset Resource := held (p ≠ null) (.block p)

/-- `if (fd >= 0) close(fd);` -/
def closeFd (fd : ℤ) : List (Handover Resource) := releasing (0 ≤ fd) (.descriptor fd)

/-- `if (p) free(p);` -/
def freeBlock (p : Pointer) : List (Handover Resource) := releasing (p ≠ null) (.block p)

theorem heldFd_of_neg {fd : ℤ} (h : fd < 0) : heldFd fd = 0 := if_neg (not_le.mpr h)

theorem heldFd_of_nonneg {fd : ℤ} (h : ¬ fd < 0) : heldFd fd = {.descriptor fd} :=
  if_pos (not_lt.mp h)

theorem heldBlock_null : heldBlock null = 0 := rfl

theorem heldBlock_of_ne {p : Pointer} (h : p ≠ null) : heldBlock p = {.block p} := if_pos h

end Resource

open Resource

/-- The members of an `AsyncEvent` that its resources are kept in. -/
structure Allocations where
  epollFd : ℤ
  listOfReadyFds : Pointer
  fdEventList : Pointer
  firedEvents : Pointer
  timeEventList : Pointer

/-- What `epoll_create` and the four calls of `calloc` in `initialize` return. -/
structure InitializeAnswers where
  epollCreate : ℤ
  listOfReadyFds : Pointer
  fdEventList : Pointer
  firedEvents : Pointer
  timeEventList : Pointer

namespace Allocations

/-- The constructor. -/
def new : Allocations := ⟨-1, null, null, null, null⟩

/-- `initialize`. -/
def initialization (a : Allocations) (epollHintSize timeEventHintSize : ℤ)
    (answers : InitializeAnswers) : Status × Allocations × List (Handover Resource) :=
  if epollHintSize < 0 then (.error, a, [])
  else
    let a := { a with epollFd := answers.epollCreate }
    if a.epollFd < 0 then (.error, a, [])
    else
      let calls := [.obtained (.descriptor a.epollFd)]
      let a := { a with listOfReadyFds := answers.listOfReadyFds }
      if a.listOfReadyFds = null then (.error, a, calls)
      else
        let calls := calls ++ [.obtained (.block a.listOfReadyFds)]
        let a := { a with fdEventList := answers.fdEventList }
        if a.fdEventList = null then (.error, a, calls)
        else
          let calls := calls ++ [.obtained (.block a.fdEventList)]
          let a := { a with firedEvents := answers.firedEvents }
          if a.firedEvents = null then (.error, a, calls)
          else
            let calls := calls ++ [.obtained (.block a.firedEvents)]
            if timeEventHintSize < 0 then (.error, a, calls)
            else
              let a := { a with timeEventList := answers.timeEventList }
              if a.timeEventList = null then (.error, a, calls)
              else (.ok, a, calls ++ [.obtained (.block a.timeEventList)])

/-- The destructor. -/
def destroy (a : Allocations) : List (Handover Resource) :=
  closeFd a.epollFd ++ freeBlock a.listOfReadyFds ++ freeBlock a.fdEventList ++
    freeBlock a.firedEvents ++ freeBlock a.timeEventList

/-- What the object holds. -/
def owned (a : Allocations) : Multiset Resource :=
  heldFd a.epollFd + (heldBlock a.listOfReadyFds + (heldBlock a.fdEventList +
    (heldBlock a.firedEvents + (heldBlock a.timeEventList + 0))))

theorem owned_new : new.owned = 0 := rfl

theorem turns_destroy (a : Allocations) : Turns a.owned a.destroy 0 :=
  ((((Turns.releasing _ _ _).append (.releasing _ _ _)).append (.releasing _ _ _)).append
    (.releasing _ _ _)).append (.releasing _ _ _)

theorem turns_of_owned {a : Allocations} {calls : List (Handover Resource)} (rs : List Resource)
    (hcalls : calls = rs.map .obtained) (howned : a.owned = ↑rs) : Turns 0 calls a.owned := by
  rw [hcalls, howned, ← Multiset.add_zero (rs : Multiset Resource)]
  exact .obtained rs 0

/-- The first call of `initialize`. -/
theorem turns_initialization (epollHintSize timeEventHintSize : ℤ) (answers : InitializeAnswers) :
    Turns 0 (new.initialization epollHintSize timeEventHintSize answers).2.2
      (new.initialization epollHintSize timeEventHintSize answers).2.1.owned := by
  unfold initialization
  simp only
  by_cases hhint : epollHintSize < 0
  · rw [if_pos hhint]
    exact .refl _
  rw [if_neg hhint]
  by_cases hfd : answers.epollCreate < 0
  · rw [if_pos hfd, owned, heldFd_of_neg hfd]
    exact .refl _
  rw [if_neg hfd]
  split_ifs with hready hevents hfired hsize htimes
  · refine turns_of_owned [.descriptor answers.epollCreate] rfl ?_
    simp only [owned, heldFd_of_nonneg hfd, hready]
    rfl
  · refine turns_of_owned [.descriptor answers.epollCreate, .block answers.listOfReadyFds] rfl ?_
    simp only [owned, heldFd_of_nonneg hfd, heldBlock_of_ne hready, hevents]
    rfl
  · refine turns_of_owned [.descriptor answers.epollCreate, .block answers.listOfReadyFds,
      .block answers.fdEventList] rfl ?_
    simp only [owned, heldFd_of_nonneg hfd, heldBlock_of_ne hready, heldBlock_of_ne hevents, hfired]
    rfl
  · refine turns_of_owned [.descriptor answers.epollCreate, .block answers.listOfReadyFds,
      .block answers.fdEventList, .block answers.firedEvents] rfl ?_
    simp only [owned, heldFd_of_nonneg hfd, heldBlock_of_ne hready, heldBlock_of_ne hevents,
      heldBlock_of_ne hfired]
    rfl
  · refine turns_of_owned [.descriptor answers.epollCreate, .block answers.listOfReadyFds,
      .block answers.fdEventList, .block answers.firedEvents] rfl ?_
    simp only [owned, heldFd_of_nonneg hfd, heldBlock_of_ne hready, heldBlock_of_ne hevents,
      heldBlock_of_ne hfired, htimes]
    rfl
  · refine turns_of_owned [.descriptor answers.epollCreate, .block answers.listOfReadyFds,
      .block answers.fdEventList, .block answers.firedEvents, .block answers.timeEventList] rfl ?_
    simp only [owned, heldFd_of_nonneg hfd, heldBlock_of_ne hready, heldBlock_of_ne hevents,
      heldBlock_of_ne hfired, heldBlock_of_ne htimes]
    rfl

end Allocations

end Nebula.Async
