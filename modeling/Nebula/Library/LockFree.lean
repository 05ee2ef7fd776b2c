import Nebula.Library.Locked
import Mathlib.Algebra.BigOperators.Ring.List
import Mathlib.Algebra.Ring.Nat

/-!
An object whose methods work without a lock, one atomic instruction at a time. `LockFree.next` is
what any number of threads do that call the methods: between two instructions of a thread the others
may execute any of theirs.

An `Outline` of the methods says what a thread knows of the object at each place of a method, which
the other threads must not spoil, and with which instruction the method takes effect. Then every
history is one of the atomic object (`LockFree.linearizable`). When in addition the instructions
that a thread has still to execute get fewer, whatever the others do, then a call takes a bounded
number of turns of its own thread (`LockFree.turns_le`), and no thread ever waits for another one
(`LockFree.exists_next`).
-/

set_option autoImplicit false
set_option relaxedAutoImplicit false

namespace Nebula.Library

/-- Where a call of a method is: at an instruction, or behind the last one. -/
inductive Progress (ο ℓ ρ : Type*) where
  | idle
  | inside (op : ο) (place : ℓ)
  | returning (op : ο) (result : ρ)

/-- An object without a lock. -/
structure LockFree (τ σ ο ℓ ρ : Type*) where
  object : σ
  progress : τ → Progress ο ℓ ρ
  history : List (CallEvent τ ο ρ)

/-- What is known at the places of the methods, and where they take effect. -/
structure Outline {σ ο ℓ ρ : Type*} (m : Methods σ ο ℓ ρ) (spec : σ → ο → σ × ρ) where
  /-- What a thread at a place knows of the object. -/
  Holds : σ → ο → ℓ → Prop
  /-- The result of a method that has taken effect. -/
  effected : ο → ℓ → Option ρ
  enter : ∀ s op, Holds s op (m.enter op) ∧ effected op (m.enter op) = none
  /-- An instruction leaves the object alone, or it is the one that the method takes effect with. -/
  effect : ∀ s op l, Holds s op l →
    ((m.step s l).1 = s ∧ (m.step s l).2.elim (effected op) some = effected op l) ∨
      (effected op l = none ∧ (m.step s l).1 = (spec s op).1 ∧
        (m.step s l).2.elim (effected op) some = some (spec s op).2)
  /-- The thread knows what it should at the next place, … -/
  onward : ∀ s op l l', Holds s op l → (m.step s l).2 = .inl l' → Holds (m.step s l).1 op l'
  /-- … and the other threads what they knew. -/
  undisturbed : ∀ s op l op' l', Holds s op l → Holds s op' l' → Holds (m.step s l).1 op' l'

namespace LockFree

variable {τ σ ο ℓ ρ : Type*}

def start (object : σ) : LockFree τ σ ο ℓ ρ := ⟨object, fun _ ↦ .idle, []⟩

/-- Where a call is behind an instruction. -/
def after (op : ο) : ℓ ⊕ ρ → Progress ο ℓ ρ
  | .inl place => .inside op place
  | .inr result => .returning op result

variable [DecidableEq τ]

def next (m : Methods σ ο ℓ ρ) : System (LockFree τ σ ο ℓ ρ) (Turn τ ο)
  | c, .call thread op =>
      match c.progress thread with
      | .idle => some { c with
          progress := Function.update c.progress thread (.inside op (m.enter op))
          history := c.history ++ [.called thread op] }
      | _ => none
  | c, .go thread =>
      match c.progress thread with
      | .idle => none
      | .inside op place => some { c with
          object := (m.step c.object place).1
          progress := Function.update c.progress thread (after op (m.step c.object place).2) }
      | .returning op result => some { c with
          progress := Function.update c.progress thread .idle
          history := c.history ++ [.returned thread op result] }

variable {m : Methods σ ο ℓ ρ} {spec : σ → ο → σ × ρ} {c c' : LockFree τ σ ο ℓ ρ}
  {a : Atomic τ σ ο ρ} {turn : Turn τ ο} {thread : τ}

/-- A thread whose call has not returned can go on, whatever the others do. -/
theorem exists_next (m : Methods σ ο ℓ ρ) (hcalled : c.progress thread ≠ .idle) :
    ∃ c', next m c (.go thread) = some c' := by
  cases hprogress : c.progress thread with
  | idle => exact absurd hprogress hcalled
  | inside op place => exact ⟨_, by simp only [next, hprogress]; rfl⟩
  | returning op result => exact ⟨_, by simp only [next, hprogress]; rfl⟩

/-! ### What the threads know -/

/-- Every thread knows what it should. -/
def Informed (outline : Outline m spec) (c : LockFree τ σ ο ℓ ρ) : Prop :=
  ∀ t op place, c.progress t = .inside op place → outline.Holds c.object op place

omit [DecidableEq τ] in
theorem informed_start (outline : Outline m spec) (object : σ) :
    (start object : LockFree τ σ ο ℓ ρ).Informed outline := by
  intro t op place h
  cases h

theorem Informed.update {outline : Outline m spec} (h : c.Informed outline)
    {progress : Progress ο ℓ ρ}
    (hprogress : c'.progress = Function.update c.progress thread progress)
    (hothers : ∀ op l, outline.Holds c.object op l → outline.Holds c'.object op l)
    (hnew : ∀ op l, progress = .inside op l → outline.Holds c'.object op l) :
    c'.Informed outline := by
  intro t op place hplace
  rw [hprogress, Function.update_apply] at hplace
  split_ifs at hplace
  · exact hnew op place hplace
  · exact hothers op place (h t op place hplace)

theorem Informed.next {outline : Outline m spec} (h : c.Informed outline)
    (hnext : LockFree.next m c turn = some c') : c'.Informed outline := by
  cases turn with
  | call thread op =>
    simp only [LockFree.next] at hnext
    split at hnext <;> cases hnext
    refine h.update rfl (fun _ _ hholds ↦ hholds) fun op' place hplace ↦ ?_
    cases hplace
    exact (outline.enter c.object op).1
  | go thread =>
    simp only [LockFree.next] at hnext
    split at hnext <;> cases hnext
    case h_2 op place hprogress =>
      have hholds := h thread op place hprogress
      refine h.update rfl (fun op' l ↦ outline.undisturbed _ _ _ _ _ hholds) fun op' l hl ↦ ?_
      cases hstep : (m.step c.object place).2 with
      | inl l' =>
        rw [hstep] at hl
        cases hl
        exact outline.onward c.object op place l hholds hstep
      | inr result =>
        rw [hstep] at hl
        cases hl
    case h_3 op result hprogress =>
      refine h.update rfl (fun _ _ hholds ↦ hholds) fun op' place hplace ↦ ?_
      cases hplace

/-! ### Linearizability -/

/-- How far the atomic object is with a call. -/
def stage (outline : Outline m spec) : Progress ο ℓ ρ → Stage ο ρ
  | .idle => .idle
  | .inside op place => (outline.effected op place).elim (.called op) (.effected op)
  | .returning op result => .effected op result

omit [DecidableEq τ] in
theorem stage_after (outline : Outline m spec) (op : ο) (next : ℓ ⊕ ρ) :
    stage outline (after op next) =
      (next.elim (outline.effected op) some).elim (.called op) (.effected op) := by
  cases next <;> rfl

/-- The object looks like the atomic one. -/
structure Matches (outline : Outline m spec) (c : LockFree τ σ ο ℓ ρ) (a : Atomic τ σ ο ρ) :
    Prop where
  informed : c.Informed outline
  stage : a.stage = stage outline ∘ c.progress
  history : a.history = c.history
  object : a.object = c.object

variable {outline : Outline m spec}

omit [DecidableEq τ] in
theorem Matches.stage_eq (h : c.Matches outline a) {progress : Progress ο ℓ ρ}
    (hprogress : c.progress thread = progress) :
    a.stage thread = LockFree.stage outline progress := by
  rw [h.stage, Function.comp_apply, hprogress]

theorem Matches.stage_update (h : c.Matches outline a) (progress : Progress ο ℓ ρ) :
    Function.update a.stage thread (LockFree.stage outline progress) =
      LockFree.stage outline ∘ Function.update c.progress thread progress := by
  rw [h.stage, Function.comp_update]

/-- The atomic object does not notice a turn that leaves the stage of its thread. -/
theorem Matches.stage_same (h : c.Matches outline a) {progress : Progress ο ℓ ρ}
    (hsame : LockFree.stage outline progress = LockFree.stage outline (c.progress thread)) :
    a.stage = LockFree.stage outline ∘ Function.update c.progress thread progress := by
  rw [← h.stage_update, hsame, ← h.stage_eq rfl, Function.update_eq_self]

/-- Every turn is the same turn of the atomic object, or none that it notices. -/
theorem Matches.next (h : c.Matches outline a) (hnext : LockFree.next m c turn = some c') :
    c'.Matches outline a ∨ ∃ a', Atomic.next spec a turn = some a' ∧ c'.Matches outline a' := by
  have hinformed := h.informed.next hnext
  cases turn with
  | call thread op =>
    simp only [LockFree.next] at hnext
    split at hnext <;> cases hnext
    case h_1 hprogress =>
      have hstage : LockFree.stage outline (.inside op (m.enter op)) = .called op := by
        rw [LockFree.stage, (outline.enter c.object op).2]
        rfl
      have hatomic : Atomic.next spec a (.call thread op) = some { a with
          stage := Function.update a.stage thread (.called op)
          history := a.history ++ [.called thread op] } := by
        simp only [Atomic.next, h.stage_eq hprogress, LockFree.stage]
      refine .inr ⟨_, hatomic, hinformed, ?_, by rw [h.history], h.object⟩
      rw [← hstage]
      exact h.stage_update _
  | go thread =>
    simp only [LockFree.next] at hnext
    split at hnext <;> cases hnext
    case h_2 op place hprogress =>
      have hstage := h.stage_eq hprogress
      have hafter := stage_after outline op (m.step c.object place).2
      rcases outline.effect c.object op place (h.informed thread op place hprogress) with
        ⟨hobject, hsame⟩ | ⟨hcalled, hobject, hresult⟩
      · refine .inl ⟨hinformed, h.stage_same ?_, h.history, h.object.trans hobject.symm⟩
        rw [hafter, hsame, hprogress]
        rfl
      · rw [hresult] at hafter
        rw [LockFree.stage, hcalled] at hstage
        have hatomic : Atomic.next spec a (.go thread) = some { a with
            object := (spec a.object op).1
            stage := Function.update a.stage thread (.effected op (spec a.object op).2) } := by
          simp only [Atomic.next, hstage, Option.elim_none]
        rw [h.object] at hatomic
        refine .inr ⟨_, hatomic, hinformed, ?_, h.history, hobject.symm⟩
        exact (congrArg _ hafter.symm).trans (h.stage_update _)
    case h_3 op result hprogress =>
      have hatomic : Atomic.next spec a (.go thread) = some { a with
          stage := Function.update a.stage thread .idle
          history := a.history ++ [.returned thread op result] } := by
        simp only [Atomic.next, h.stage_eq hprogress, LockFree.stage]
      exact .inr ⟨_, hatomic, hinformed, h.stage_update .idle, by rw [h.history], h.object⟩

/-- Every history is one of the atomic object, and the objects are the same. -/
theorem linearizable (outline : Outline m spec) {object : σ} {turns : List (Turn τ ο)}
    (hrun : System.run (next m) (start object) turns = some c) :
    ∃ turns' a, List.Sublist turns' turns ∧
      System.run (Atomic.next spec) (Atomic.start object) turns' = some a ∧
      a.history = c.history ∧ a.object = c.object := by
  have hstart : (start object : LockFree τ σ ο ℓ ρ).Matches outline (Atomic.start object) :=
    ⟨informed_start outline object, rfl, rfl, rfl⟩
  have hstep : ∀ (c : LockFree τ σ ο ℓ ρ) turn c' (a : Atomic τ σ ο ρ), c.Matches outline a →
      next m c turn = some c' → c'.Matches outline a ∨
        ∃ a', Atomic.next spec a turn = some a' ∧ c'.Matches outline a' :=
    fun _ _ _ _ h hnext ↦ h.next hnext
  obtain ⟨turns', a, hsub, hrun', hmatches⟩ := System.run_simulates hstep hstart hrun
  exact ⟨turns', a, hsub, hrun', hmatches.history, hmatches.object⟩

/-! ### How many turns a call takes -/

/-- The turns of its thread that a call takes at most from here. -/
def remaining (rank : ο → ℓ → ℕ) : Progress ο ℓ ρ → ℕ
  | .idle => 0
  | .inside op place => rank op place + 2
  | .returning _ _ => 1

/-- A turn in which the thread goes on with its call. -/
def goes (thread : τ) : Turn τ ο → ℕ
  | .go t => if t = thread then 1 else 0
  | .call _ _ => 0

/-- A turn in which the thread calls a method. -/
def calls (thread : τ) : Turn τ ο → ℕ
  | .call t _ => if t = thread then 1 else 0
  | .go _ => 0

section Turns

variable {rank : ο → ℓ → ℕ} {bound : ℕ}

theorem remaining_after_lt (outline : Outline m spec)
    (hrank : ∀ s op l l', outline.Holds s op l → (m.step s l).2 = .inl l' → rank op l' < rank op l)
    {s : σ} {op : ο} {l : ℓ} (hholds : outline.Holds s op l) :
    remaining rank (after op (m.step s l).2) < rank op l + 2 := by
  cases hafter : (m.step s l).2 with
  | inl l' => exact Nat.add_lt_add_right (hrank s op l l' hholds hafter) 2
  | inr result =>
    simp only [after, remaining]
    omega

/-- A turn of the thread leaves it less to do, a call adds a bounded number of turns, and the other
threads have nothing to do with it. -/
theorem Informed.remaining_next {outline : Outline m spec} (h : c.Informed outline)
    (hbound : ∀ op, rank op (m.enter op) ≤ bound)
    (hrank : ∀ s op l l', outline.Holds s op l → (m.step s l).2 = .inl l' → rank op l' < rank op l)
    (hnext : LockFree.next m c turn = some c') (thread : τ) :
    remaining rank (c'.progress thread) + goes thread turn ≤
      remaining rank (c.progress thread) + (bound + 2) * calls thread turn := by
  cases turn with
  | call t op =>
    simp only [LockFree.next] at hnext
    split at hnext <;> cases hnext
    case h_1 hprogress =>
      by_cases ht : t = thread
      · subst ht
        have hop := hbound op
        simp only [Function.update_self, remaining, hprogress, goes, calls, if_pos]
        omega
      · simp only [Function.update_of_ne (Ne.symm ht), goes, calls, if_neg ht]
        omega
  | go t =>
    simp only [LockFree.next] at hnext
    split at hnext <;> cases hnext
    case h_2 op place hprogress =>
      by_cases ht : t = thread
      · subst ht
        have hless := remaining_after_lt outline hrank (h t op place hprogress)
        have hhere : remaining rank (c.progress t) = rank op place + 2 := by
          rw [hprogress]
          rfl
        simp only [Function.update_self, goes, calls, if_pos]
        omega
      · simp only [Function.update_of_ne (Ne.symm ht), goes, calls, if_neg ht]
        omega
    case h_3 op result hprogress =>
      by_cases ht : t = thread
      · subst ht
        simp only [Function.update_self, remaining, hprogress, goes, calls, if_pos]
        omega
      · simp only [Function.update_of_ne (Ne.symm ht), goes, calls, if_neg ht]
        omega

/-- When what a thread has still to do gets less with every instruction, then its turns are bounded
by its calls. -/
theorem turns_le (outline : Outline m spec) (hbound : ∀ op, rank op (m.enter op) ≤ bound)
    (hrank : ∀ s op l l', outline.Holds s op l → (m.step s l).2 = .inl l' → rank op l' < rank op l)
    {object : σ} {turns : List (Turn τ ο)}
    (hrun : System.run (next m) (start object) turns = some c) (thread : τ) :
    (turns.map (goes thread)).sum ≤ (bound + 2) * (turns.map (calls thread)).sum := by
  have hstep : ∀ (c : LockFree τ σ ο ℓ ρ) turn c', c.Informed outline →
      next m c turn = some c' →
      (remaining rank (c'.progress thread) : ℤ) + goes thread turn ≤
        remaining rank (c.progress thread) + ((bound + 2) * calls thread turn : ℕ) := by
    intro c turn c' hinformed hnext
    exact_mod_cast hinformed.remaining_next hbound hrank hnext thread
  have hpotential := System.run_potential
    (fun _ _ _ h hnext ↦ Informed.next h hnext) hstep (informed_start outline object) hrun
  have hscale : (turns.map fun turn ↦ (bound + 2) * calls thread turn).sum =
      (bound + 2) * (turns.map (calls thread)).sum := List.sum_map_mul_left ..
  rw [hscale] at hpotential
  change _ ≤ (0 : ℤ) + _ at hpotential
  omega

end Turns

end LockFree

end Nebula.Library
