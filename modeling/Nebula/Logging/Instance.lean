import Nebula.Library.Transition
import Mathlib.Data.Nat.Notation
import Mathlib.Logic.Function.Basic

/-!
The one instance of the log server: the threads that call `getInstance`, the one that calls
`destroyInstance`, and the server threads that are created for them.

`getInstance` creates the server under `uniq_instance_lock_` and keeps the lock until the server
thread has set `ready_to_serve_client_`, which it does behind six calls that can fail. Between any
two steps of one thread, all others can take steps. A server is known by the number of servers that
were created before it.
-/

set_option autoImplicit false
set_option relaxedAutoImplicit false

namespace Nebula.Logging

open Nebula.Library

/-! ### Server threads -/

/-- The calls with which `routine` starts up, in order. -/
inductive StartupCall where
  | socket
  | setNonblock
  | bind
  /-- `AsyncEvent::initialize`. -/
  | newAsyncEvent
  | addFdEvent
  | addTimeEvent
  deriving DecidableEq

/-- The call after a call that was successful. -/
def StartupCall.next : StartupCall → Option StartupCall
  | .socket => some .setNonblock
  | .setNonblock => some .bind
  | .bind => some .newAsyncEvent
  | .newAsyncEvent => some .addFdEvent
  | .addFdEvent => some .addTimeEvent
  | .addTimeEvent => none

/-- Where a server thread is in `routine`. -/
inductive Routine where
  /-- The thread has not been created. -/
  | absent
  | starting (call : StartupCall)
  /-- In front of `setReadyToServe`. -/
  | settingReady
  /-- In `eventLoop`. -/
  | serving
  /-- In `eventLoop`, behind `clearReadyToServe`. -/
  | stopping
  /-- `routine` has returned, with `ready_to_serve_client_` once set or not. -/
  | returned (served : Bool)
  deriving DecidableEq

/-! ### Callers -/

/-- What a pointer to the instance is wanted for: by a caller of `getInstance`, or for the first or
the second use in `destroyInstance`. -/
inductive Purpose where
  | get
  | setStopFlag
  | join
  deriving DecidableEq

/-- Where a thread is in `getInstance` or `destroyInstance`. -/
inductive Caller where
  | outside
  /-- At the first test of `uniq_instance_`. -/
  | testing (purpose : Purpose)
  | locking (purpose : Purpose)
  /-- At the second test, under the lock. -/
  | retesting (purpose : Purpose)
  | creating (purpose : Purpose)
  /-- At the test of the readiness wait loop. -/
  | waiting (purpose : Purpose) (server : ℕ)
  /-- In front of `uniq_instance_ = temp`. -/
  | publishing (purpose : Purpose) (temp : Option ℕ)
  | unlocking (purpose : Purpose)
  /-- At `return uniq_instance_`. -/
  | returning (purpose : Purpose)
  | settingStopFlag (server : ℕ)
  | joining (server : ℕ)
  | lockingToDelete
  | deleting
  | unlockingDeleted
  /-- A member function has been called on a `NULL` pointer. -/
  | crashed
  deriving DecidableEq

/-- The static members of `LogServer`, the servers that have been created, and the threads. -/
structure Instances (τ : Type*) where
  readyToServeClient : Bool
  uniqInstanceLock : Option τ
  uniqInstance : Option ℕ
  created : ℕ
  routine : ℕ → Routine
  stopFlag : ℕ → Bool
  caller : τ → Caller

/-- An action: a thread calls `getInstance`, the destroyer calls `destroyInstance`, a caller takes a
step, in which `create` may fail, or a server thread does, in which a start-up call may fail. -/
inductive InstanceAction (τ : Type*) where
  | getInstance (t : τ)
  | destroyInstance
  | caller (t : τ) (ok : Bool)
  | server (n : ℕ) (ok : Bool)

namespace Instances

variable {τ : Type*} [DecidableEq τ]

/-- No thread has called anything. -/
def fresh : Instances τ where
  readyToServeClient := false
  uniqInstanceLock := none
  uniqInstance := none
  created := 0
  routine := fun _ ↦ .absent
  stopFlag := fun _ ↦ false
  caller := fun _ ↦ .outside

def move (s : Instances τ) (t : τ) (caller : Caller) : Instances τ :=
  { s with caller := Function.update s.caller t caller }

def setRoutine (s : Instances τ) (n : ℕ) (routine : Routine) : Instances τ :=
  { s with routine := Function.update s.routine n routine }

/-- A successful `create`: the new thread is in front of its first start-up call. -/
def create (s : Instances τ) : Instances τ :=
  { s.setRoutine s.created (.starting .socket) with created := s.created + 1 }

/-- Where a caller is when it has got the pointer. -/
def received (uniqInstance : Option ℕ) : Purpose → Caller
  | .get => .outside
  | .setStopFlag => uniqInstance.elim .crashed .settingStopFlag
  | .join => uniqInstance.elim .crashed .joining

/-- One step of a caller, unless it has to wait for the lock or for a thread to end. -/
def callerStep (s : Instances τ) (t : τ) (ok : Bool) : Option (Instances τ) :=
  match s.caller t with
  | .outside => none
  | .testing purpose =>
      some (s.move t (if s.uniqInstance = none then .locking purpose else .returning purpose))
  | .locking purpose =>
      if s.uniqInstanceLock = none then
        some { s.move t (.retesting purpose) with uniqInstanceLock := some t }
      else none
  | .retesting purpose =>
      some (s.move t (if s.uniqInstance = none then .creating purpose else .unlocking purpose))
  | .creating purpose =>
      if ok then some (s.create.move t (.waiting purpose s.created))
      else some (s.move t (.publishing purpose none))
  | .waiting purpose n =>
      some (if s.readyToServeClient then s.move t (.publishing purpose (some n)) else s)
  | .publishing purpose temp =>
      some { s.move t (.unlocking purpose) with uniqInstance := temp }
  | .unlocking purpose => some { s.move t (.returning purpose) with uniqInstanceLock := none }
  | .returning purpose => some (s.move t (received s.uniqInstance purpose))
  | .settingStopFlag n =>
      some { s.move t (.testing .join) with stopFlag := Function.update s.stopFlag n true }
  | .joining n =>
      match s.routine n with
      | .returned _ => some (s.move t .lockingToDelete)
      | _ => none
  | .lockingToDelete =>
      if s.uniqInstanceLock = none then
        some { s.move t .deleting with uniqInstanceLock := some t }
      else none
  | .deleting => some { s.move t .unlockingDeleted with uniqInstance := none }
  | .unlockingDeleted => some { s.move t .outside with uniqInstanceLock := none }
  | .crashed => none

/-- One step of a server thread. -/
def serverStep (s : Instances τ) (n : ℕ) (ok : Bool) : Option (Instances τ) :=
  match s.routine n with
  | .absent => none
  | .starting call =>
      some (s.setRoutine n
        (if ok then call.next.elim .settingReady .starting else .returned false))
  | .settingReady => some { s.setRoutine n .serving with readyToServeClient := true }
  | .serving =>
      some (if s.stopFlag n then { s.setRoutine n .stopping with readyToServeClient := false }
        else s)
  | .stopping => some (s.setRoutine n (.returned true))
  | .returned _ => none

/-- What an action does, when `destroyInstance` is called by the thread `destroyer` only. -/
def next (destroyer : τ) : System (Instances τ) (InstanceAction τ)
  | s, .getInstance t => if s.caller t = .outside then some (s.move t (.testing .get)) else none
  | s, .destroyInstance =>
      if s.caller destroyer = .outside then some (s.move destroyer (.testing .setStopFlag))
      else none
  | s, .caller t ok => s.callerStep t ok
  | s, .server n ok => s.serverStep n ok

end Instances

end Nebula.Logging
