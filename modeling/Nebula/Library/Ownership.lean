import Mathlib.Data.Multiset.AddSub

/-!
Resources that a program obtains and gives back: descriptors, memory, files. What an owner holds is
a multiset, so that giving back something twice needs having it twice.

`Turns m calls m'` says that an owner of `m` can make the calls, giving back only what it holds, and
has `m'` afterwards. The rules put such steps together, `Turns.frame` adds what others hold, and
`nodup_after` says that nothing is ever held twice, when the system hands out only what is not in
use.
-/

set_option autoImplicit false
set_option relaxedAutoImplicit false

namespace Nebula.Library

/-- A call that obtains a resource, or gives it back. -/
inductive Handover (ρ : Type*) where
  | obtained (r : ρ)
  | released (r : ρ)

namespace Handover

variable {ρ : Type*}

/-- A call that obtains a resource, if it was successful. -/
def obtaining (p : Prop) [Decidable p] (r : ρ) : List (Handover ρ) :=
  if p then [.obtained r] else []

/-- A call that gives back a resource, if there is one. -/
def releasing (p : Prop) [Decidable p] (r : ρ) : List (Handover ρ) :=
  if p then [.released r] else []

/-- A resource that may be there or not. -/
def held (p : Prop) [Decidable p] (r : ρ) : Multiset ρ := if p then {r} else 0

variable [DecidableEq ρ]

/-- What is held after a call. -/
def apply (m : Multiset ρ) : Handover ρ → Multiset ρ
  | .obtained r => r ::ₘ m
  | .released r => m.erase r

/-- What is held after a sequence of calls. -/
def after (m : Multiset ρ) (calls : List (Handover ρ)) : Multiset ρ := calls.foldl apply m

/-- What is given back is held. -/
def Owned : Multiset ρ → List (Handover ρ) → Prop
  | _, [] => True
  | m, .obtained r :: rest => Owned (r ::ₘ m) rest
  | m, .released r :: rest => r ∈ m ∧ Owned (m.erase r) rest

/-- What is handed out is not in use. -/
def Fresh : Multiset ρ → List (Handover ρ) → Prop
  | _, [] => True
  | m, .obtained r :: rest => r ∉ m ∧ Fresh (r ::ₘ m) rest
  | m, .released r :: rest => Fresh (m.erase r) rest

instance decidableFresh : ∀ (m : Multiset ρ) (calls : List (Handover ρ)), Decidable (Fresh m calls)
  | _, [] => isTrue trivial
  | m, .obtained r :: rest =>
      have : Decidable (Fresh (r ::ₘ m) rest) := decidableFresh (r ::ₘ m) rest
      inferInstanceAs (Decidable (r ∉ m ∧ Fresh (r ::ₘ m) rest))
  | m, .released r :: rest => decidableFresh (m.erase r) rest

/-- An owner goes from one holding to another one. -/
structure Turns (m : Multiset ρ) (calls : List (Handover ρ)) (m' : Multiset ρ) : Prop where
  owned : Owned m calls
  after_eq : after m calls = m'

variable {m m' m'' : Multiset ρ} {calls calls' : List (Handover ρ)} {r : ρ}

theorem owned_append :
    Owned m (calls ++ calls') ↔ Owned m calls ∧ Owned (after m calls) calls' := by
  induction calls generalizing m with
  | nil => exact (and_iff_right trivial).symm
  | cons call rest ih =>
    cases call with
    | obtained r => exact ih
    | released r =>
      rw [List.cons_append, Owned, Owned, ih, and_assoc]
      rfl

theorem Turns.refl (m : Multiset ρ) : Turns m [] m := ⟨trivial, rfl⟩

theorem Turns.append (h : Turns m calls m') (h' : Turns m' calls' m'') :
    Turns m (calls ++ calls') m'' := by
  refine ⟨owned_append.mpr ⟨h.owned, by rw [h.after_eq]; exact h'.owned⟩, ?_⟩
  rw [after, List.foldl_append]
  change after (after m calls) calls' = m''
  rw [h.after_eq, h'.after_eq]

/-- Resources that are obtained one after the other. -/
theorem Turns.obtained (rs : List ρ) (m : Multiset ρ) :
    Turns m (rs.map .obtained) (↑rs + m) := by
  induction rs generalizing m with
  | nil => exact ⟨trivial, (Multiset.zero_add m).symm⟩
  | cons r rest ih =>
    have hrest := ih (r ::ₘ m)
    rw [Multiset.add_cons, ← Multiset.cons_add] at hrest
    exact ⟨hrest.owned, hrest.after_eq⟩

theorem Turns.obtaining (m : Multiset ρ) (p : Prop) [Decidable p] (r : ρ) :
    Turns m (obtaining p r) (held p r + m) := by
  unfold Handover.obtaining held
  split_ifs
  · exact ⟨trivial, (Multiset.singleton_add r m).symm⟩
  · exact ⟨trivial, (Multiset.zero_add m).symm⟩

theorem Turns.releasing (m : Multiset ρ) (p : Prop) [Decidable p] (r : ρ) :
    Turns (held p r + m) (releasing p r) m := by
  unfold Handover.releasing held
  split_ifs
  · rw [Multiset.singleton_add]
    exact ⟨⟨Multiset.mem_cons_self r m, trivial⟩, Multiset.erase_cons_head r m⟩
  · rw [Multiset.zero_add]
    exact .refl m

/-- What others hold is left alone. -/
theorem Turns.frame (h : Turns m calls m') (base : Multiset ρ) :
    Turns (base + m) calls (base + m') := by
  induction calls generalizing m with
  | nil =>
    obtain rfl : m = m' := h.after_eq
    exact .refl _
  | cons call rest ih =>
    cases call with
    | obtained r =>
      have hrest := ih (m := r ::ₘ m) ⟨h.owned, h.after_eq⟩
      rw [Multiset.add_cons] at hrest
      exact ⟨hrest.owned, hrest.after_eq⟩
    | released r =>
      have hmem : r ∈ m := h.owned.1
      have hrest := ih (m := m.erase r) ⟨h.owned.2, h.after_eq⟩
      rw [← Multiset.erase_add_right_pos base hmem] at hrest
      exact ⟨⟨Multiset.mem_add.mpr (Or.inr hmem), hrest.owned⟩, hrest.after_eq⟩

theorem Turns.frame_right (h : Turns m calls m') (base : Multiset ρ) :
    Turns (m + base) calls (m' + base) := by
  rw [Multiset.add_comm m, Multiset.add_comm m']
  exact h.frame base

/-- Nothing is held twice. -/
theorem nodup_after (h : m.Nodup) (hfresh : Fresh m calls) : (after m calls).Nodup := by
  induction calls generalizing m with
  | nil => exact h
  | cons call rest ih =>
    cases call with
    | obtained r => exact ih (Multiset.nodup_cons.mpr ⟨hfresh.1, h⟩) hfresh.2
    | released r => exact ih (h.erase r) hfresh

end Handover

end Nebula.Library
