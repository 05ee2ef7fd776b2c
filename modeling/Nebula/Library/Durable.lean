import Nebula.Library.OpenFiles
import Mathlib.Data.List.Infix

/-!
What the files of a program hold, and what of it would survive a crash. A `write` stores as many
elements of its data as it says, an `fsync` makes everything stored so far durable, and a file that
is opened is a new one.

`FileStates` counts the writes that have not been synced: a file without any is durable as it is
(`Synced.after`). What is durable is always the beginning of what is stored (`Lagging.after`), and
that only grows while no new file is opened (`stored_prefix_after`). So when the calls of a program
are accepted, every file is durable as it is when it is closed (`durable_of_accepts`).
-/

set_option autoImplicit false
set_option relaxedAutoImplicit false

namespace Nebula.Library

/-- What is stored in the file of each descriptor, and what of it is durable. -/
structure Disk (α : Type*) where
  stored : ℤ → List α
  durable : ℤ → List α

namespace Disk

variable {α : Type*}

def blank : Disk α := ⟨fun _ ↦ [], fun _ ↦ []⟩

/-- The disk after a call. -/
def apply (d : Disk α) : FileCall (List α) → Disk α
  | .opened fd => ⟨Function.update d.stored fd [], Function.update d.durable fd []⟩
  | .write fd data result =>
      { d with stored := Function.update d.stored fd (d.stored fd ++ data.take result.toNat) }
  | .fsync fd => { d with durable := Function.update d.durable fd (d.stored fd) }
  | .close _ => d

/-- The disk after a sequence of calls. -/
def after (d : Disk α) (calls : List (FileCall (List α))) : Disk α := calls.foldl apply d

/-- Files without unsynced writes are durable. -/
def Synced (d : Disk α) (s : FileStates) : Prop :=
  ∀ fd, s.unsynced fd = 0 → d.durable fd = d.stored fd

/-- What is durable is the beginning of what is stored. -/
def Lagging (d : Disk α) : Prop := ∀ fd, d.durable fd <+: d.stored fd

variable {d : Disk α} {s : FileStates} {call : FileCall (List α)} {calls : List (FileCall (List α))}

@[simp] theorem after_nil (d : Disk α) : d.after [] = d := rfl

@[simp] theorem after_cons (d : Disk α) (call : FileCall (List α))
    (rest : List (FileCall (List α))) : d.after (call :: rest) = (d.apply call).after rest := rfl

theorem after_append (d : Disk α) (calls calls' : List (FileCall (List α))) :
    d.after (calls ++ calls') = (d.after calls).after calls' := List.foldl_append

theorem Synced.apply (h : d.Synced s) (call : FileCall (List α)) :
    (d.apply call).Synced (s.apply call) := by
  intro fd hfd
  cases call with
  | opened fd' =>
    change Function.update s.unsynced fd' 0 fd = 0 at hfd
    change Function.update d.durable fd' [] fd = Function.update d.stored fd' [] fd
    rw [Function.update_apply] at hfd
    rw [Function.update_apply, Function.update_apply]
    split_ifs at hfd ⊢
    · rfl
    · exact h fd hfd
  | write fd' data result =>
    change d.durable fd = Function.update d.stored fd' (d.stored fd' ++ data.take result.toNat) fd
    rw [Function.update_apply]
    by_cases hresult : 0 ≤ result
    · change (if 0 ≤ result then _ else s : FileStates).unsynced fd = 0 at hfd
      rw [if_pos hresult] at hfd
      change Function.update s.unsynced fd' (s.unsynced fd' + 1) fd = 0 at hfd
      rw [Function.update_apply] at hfd
      split_ifs at hfd ⊢
      exact h fd hfd
    · rw [FileStates.apply_write_failed _ _ _ (not_le.mp hresult)] at hfd
      have hnothing : data.take result.toNat = [] := by
        rw [Int.toNat_of_nonpos (not_le.mp hresult).le, List.take_zero]
      split_ifs with heq
      · rw [hnothing, List.append_nil, ← heq]
        exact h fd hfd
      · exact h fd hfd
  | fsync fd' =>
    change Function.update s.unsynced fd' 0 fd = 0 at hfd
    change Function.update d.durable fd' (d.stored fd') fd = d.stored fd
    rw [Function.update_apply] at hfd ⊢
    split_ifs at hfd ⊢ with heq
    · rw [heq]
    · exact h fd hfd
  | close fd' => exact h fd hfd

theorem Synced.after (h : d.Synced s) (calls : List (FileCall (List α))) :
    (d.after calls).Synced (s.after calls) := by
  induction calls generalizing d s with
  | nil => exact h
  | cons call rest ih => exact ih (h.apply call)

theorem Lagging.apply (h : d.Lagging) (call : FileCall (List α)) : (d.apply call).Lagging := by
  intro fd
  cases call with
  | opened fd' =>
    change Function.update d.durable fd' [] fd <+: Function.update d.stored fd' [] fd
    rw [Function.update_apply, Function.update_apply]
    split_ifs
    · exact List.prefix_rfl
    · exact h fd
  | write fd' data result =>
    change d.durable fd <+: Function.update d.stored fd' (d.stored fd' ++ _) fd
    rw [Function.update_apply]
    split_ifs with heq
    · rw [heq]
      exact (h fd').trans (List.prefix_append _ _)
    · exact h fd
  | fsync fd' =>
    change Function.update d.durable fd' (d.stored fd') fd <+: d.stored fd
    rw [Function.update_apply]
    split_ifs with heq
    · rw [heq]
    · exact h fd
  | close fd' => exact h fd

theorem Lagging.after (h : d.Lagging) (calls : List (FileCall (List α))) :
    (d.after calls).Lagging := by
  induction calls generalizing d with
  | nil => exact h
  | cons call rest ih => exact ih (h.apply call)

/-- What is stored in a file only grows, until another one is opened. -/
theorem stored_prefix_after {fd : ℤ} (hno : .opened fd ∉ calls) :
    d.stored fd <+: (d.after calls).stored fd := by
  induction calls generalizing d with
  | nil => exact List.prefix_rfl
  | cons call rest ih =>
    have hrest := ih (d := d.apply call) fun hmem ↦ hno (List.mem_cons_of_mem call hmem)
    refine List.IsPrefix.trans ?_ hrest
    cases call with
    | opened fd' =>
      have hne : fd ≠ fd' := fun heq ↦ hno (by rw [heq]; exact List.mem_cons_self)
      change d.stored fd <+: Function.update d.stored fd' [] fd
      rw [Function.update_of_ne hne]
    | write fd' data result =>
      change d.stored fd <+: Function.update d.stored fd' (d.stored fd' ++ _) fd
      rw [Function.update_apply]
      split_ifs with heq
      · rw [heq]
        exact List.prefix_append _ _
      · exact List.prefix_rfl
    | fsync fd' => exact List.prefix_rfl
    | close fd' => exact List.prefix_rfl

/-- When the calls are accepted, a file is durable as it is when it is closed. -/
theorem durable_of_accepts {fd : ℤ} (hfd : 0 ≤ fd) (h : d.Synced s)
    (haccepts : s.Accepts (calls ++ [.close fd])) :
    (d.after (calls ++ [.close fd])).durable fd = (d.after (calls ++ [.close fd])).stored fd := by
  rw [after_append]
  change (d.after calls).durable fd = (d.after calls).stored fd
  refine h.after calls fd ?_
  clear h
  induction calls generalizing s with
  | nil => exact (haccepts.1 hfd).2
  | cons call rest ih => exact ih haccepts.2

end Disk

end Nebula.Library
