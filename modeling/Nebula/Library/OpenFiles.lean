import Mathlib.Data.Int.Order.Basic
import Mathlib.Logic.Function.Basic

/-!
The files a piece of code works on, seen through its system calls: which descriptors are open, and
how many successful writes to each have not been followed by an `fsync` yet. `Accepts` says that a
sequence of calls treats them well: a descriptor is only opened while it is closed, it is only
closed while it is open and when everything written to it has been synced, and in the end none is
left open. So each descriptor that is obtained is closed exactly once.
-/

set_option autoImplicit false
set_option relaxedAutoImplicit false

namespace Nebula.Library

/-- A system call on a descriptor that was made, with its outcome. -/
inductive FileCall (μ : Type*) where
  | opened (fd : ℤ)
  | write (fd : ℤ) (data : μ) (result : ℤ)
  | fsync (fd : ℤ)
  | close (fd : ℤ)

/-- The data of a `write`. -/
def FileCall.data? {μ : Type*} : FileCall μ → Option μ
  | .write _ data _ => some data
  | _ => none

/-- Which descriptors are open, and the number of unsynced writes to each. -/
structure FileStates where
  isOpen : ℤ → Bool
  unsynced : ℤ → ℕ

namespace FileStates

variable {μ : Type*}

/-- No descriptor is open. -/
def allClosed : FileStates := ⟨fun _ ↦ false, fun _ ↦ 0⟩

/-- The states after a call. -/
def apply (s : FileStates) : FileCall μ → FileStates
  | .opened fd =>
      ⟨Function.update s.isOpen fd true, Function.update s.unsynced fd 0⟩
  | .write fd _ result =>
      if 0 ≤ result then { s with unsynced := Function.update s.unsynced fd (s.unsynced fd + 1) }
      else s
  | .fsync fd => { s with unsynced := Function.update s.unsynced fd 0 }
  | .close fd => { s with isOpen := Function.update s.isOpen fd false }

/-- The states after a sequence of calls. -/
def after (s : FileStates) (calls : List (FileCall μ)) : FileStates := calls.foldl apply s

/-- The call treats its descriptor well. Closing a negative number closes nothing. -/
def Permits (s : FileStates) : FileCall μ → Prop
  | .opened fd => s.isOpen fd = false
  | .close fd => 0 ≤ fd → s.isOpen fd = true ∧ s.unsynced fd = 0
  | _ => True

/-- All calls treat their descriptors well, and none is open in the end. -/
def Accepts : FileStates → List (FileCall μ) → Prop
  | s, [] => ∀ fd, s.isOpen fd = false
  | s, call :: rest => s.Permits call ∧ Accepts (s.apply call) rest

@[simp] theorem after_nil (s : FileStates) : s.after ([] : List (FileCall μ)) = s := rfl

@[simp] theorem after_cons (s : FileStates) (call : FileCall μ) (rest : List (FileCall μ)) :
    s.after (call :: rest) = (s.apply call).after rest := rfl

/-- A failed write changes nothing. -/
theorem apply_write_failed (s : FileStates) (fd : ℤ) (data : μ) {result : ℤ} (h : result < 0) :
    s.apply (.write fd data result) = s := if_neg (not_le.mpr h)

theorem unsynced_apply_write (s : FileStates) (fd : ℤ) (data : μ) {result : ℤ} (h : 0 ≤ result) :
    (s.apply (.write fd data result)).unsynced fd = s.unsynced fd + 1 := by
  change (if 0 ≤ result then _ else s : FileStates).unsynced fd = _
  rw [if_pos h]
  exact Function.update_self ..

@[simp] theorem isOpen_apply_write (s : FileStates) (fd : ℤ) (data : μ) (result : ℤ) :
    (s.apply (.write fd data result)).isOpen = s.isOpen := by
  change (if 0 ≤ result then _ else s : FileStates).isOpen = _
  split <;> rfl

end FileStates

end Nebula.Library
