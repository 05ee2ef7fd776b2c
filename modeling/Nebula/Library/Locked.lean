import Nebula.Library.Transition
import Mathlib.Logic.Function.Basic
import Mathlib.Tactic.SplitIfs

/-!
An object whose methods all work under one lock. `Locked.next` is what any number of threads do that
call the methods: a thread waits for the lock, takes the steps of the method one at a time, unlocks
and returns, and the other threads act in between. `Atomic.next` is the same object with methods
that take effect at once, some time between the call and the return.

When every method, executed alone, does what its specification says, then nobody can tell the two
apart: every history of calls and returns of the object with the lock is one of the atomic object
(`Locked.linearizable`). Only one thread is between locking and unlocking, and as long as a call has
not returned some thread can go on (`Locked.exists_go`).
-/

set_option autoImplicit false
set_option relaxedAutoImplicit false

namespace Nebula.Library

/-- The methods of an object. A call starts at some place in its method, and from there takes one
step after the other until there is a result. -/
structure Methods (σ ο ℓ ρ : Type*) where
  enter : ο → ℓ
  step : σ → ℓ → σ × (ℓ ⊕ ρ)

namespace Methods

variable {σ ο ℓ ρ : Type*}

/-- A method that goes on from the place without being interrupted comes to an end, with the given
object and result. -/
inductive Completes (m : Methods σ ο ℓ ρ) : σ → ℓ → σ × ρ → Prop
  | last {s s' : σ} {l : ℓ} {r : ρ} (h : m.step s l = (s', .inr r)) : Completes m s l (s', r)
  | next {s s' : σ} {l l' : ℓ} {result : σ × ρ} (h : m.step s l = (s', .inl l'))
      (hrest : Completes m s' l' result) : Completes m s l result

/-- Every method does what is specified. -/
def Implements (m : Methods σ ο ℓ ρ) (spec : σ → ο → σ × ρ) : Prop :=
  ∀ s op, m.Completes s (m.enter op) (spec s op)

variable {m : Methods σ ο ℓ ρ} {s s' : σ} {l l' : ℓ} {r : ρ} {result : σ × ρ}

theorem Completes.of_inl (h : m.Completes s l result) (hstep : m.step s l = (s', .inl l')) :
    m.Completes s' l' result := by
  cases h with
  | last h =>
    rw [h] at hstep
    cases hstep
  | next h hrest =>
    rw [h] at hstep
    cases hstep
    exact hrest

theorem Completes.of_inr (h : m.Completes s l result) (hstep : m.step s l = (s', .inr r)) :
    result = (s', r) := by
  cases h with
  | last h =>
    rw [h] at hstep
    cases hstep
    rfl
  | next h hrest =>
    rw [h] at hstep
    cases hstep

end Methods

/-- What the outside sees of a call. -/
inductive CallEvent (τ ο ρ : Type*) where
  | called (thread : τ) (op : ο)
  | returned (thread : τ) (op : ο) (result : ρ)

/-- A thread calls a method, or goes on with its call. -/
inductive Turn (τ ο : Type*) where
  | call (thread : τ) (op : ο)
  | go (thread : τ)

/-! ### The atomic object -/

/-- Where a call of an atomic method is: it has not taken effect yet, or it has. -/
inductive Stage (ο ρ : Type*) where
  | idle
  | called (op : ο)
  | effected (op : ο) (result : ρ)

/-- An object with atomic methods. -/
structure Atomic (τ σ ο ρ : Type*) where
  object : σ
  stage : τ → Stage ο ρ
  history : List (CallEvent τ ο ρ)

namespace Atomic

variable {τ σ ο ρ : Type*}

def start (object : σ) : Atomic τ σ ο ρ := ⟨object, fun _ ↦ .idle, []⟩

variable [DecidableEq τ]

def next (spec : σ → ο → σ × ρ) : System (Atomic τ σ ο ρ) (Turn τ ο)
  | a, .call thread op =>
      match a.stage thread with
      | .idle => some { a with
          stage := Function.update a.stage thread (.called op)
          history := a.history ++ [.called thread op] }
      | _ => none
  | a, .go thread =>
      match a.stage thread with
      | .idle => none
      | .called op => some { a with
          object := (spec a.object op).1
          stage := Function.update a.stage thread (.effected op (spec a.object op).2) }
      | .effected op result => some { a with
          stage := Function.update a.stage thread .idle
          history := a.history ++ [.returned thread op result] }

/-- What every effect has as a result, and every call returns. -/
structure Answers (P : ο → ρ → Prop) (a : Atomic τ σ ο ρ) : Prop where
  effected : ∀ thread op result, a.stage thread = .effected op result → P op result
  returned : ∀ thread op result, .returned thread op result ∈ a.history → P op result

variable {spec : σ → ο → σ × ρ} {a a' : Atomic τ σ ο ρ} {P : ο → ρ → Prop}

theorem Answers.update (h : a.Answers P) {thread : τ} {stage : Stage ο ρ}
    (hstage : a'.stage = Function.update a.stage thread stage)
    (hnew : ∀ op result, stage = .effected op result → P op result)
    (hreturned : ∀ t op result, .returned t op result ∈ a'.history → P op result) :
    a'.Answers P := by
  refine ⟨fun other op result hother ↦ ?_, hreturned⟩
  rw [hstage, Function.update_apply] at hother
  split_ifs at hother
  · exact hnew op result hother
  · exact h.effected other op result hother

theorem Answers.next {turn : Turn τ ο} (h : a.Answers P) (hspec : ∀ s op, P op (spec s op).2)
    (hnext : Atomic.next spec a turn = some a') : a'.Answers P := by
  cases turn with
  | call thread op =>
    simp only [Atomic.next] at hnext
    split at hnext <;> cases hnext
    refine h.update rfl (by simp) fun t op' result hmem ↦ ?_
    exact h.returned t op' result (by simpa using hmem)
  | go thread =>
    simp only [Atomic.next] at hnext
    split at hnext <;> cases hnext
    case h_2 op hstage =>
      refine h.update rfl (fun op' result heq ↦ ?_) h.returned
      cases heq
      exact hspec a.object op
    case h_3 op result hstage =>
      refine h.update rfl (by simp) fun t op' result' hmem ↦ ?_
      rcases List.mem_append.mp hmem with hmem | hmem
      · exact h.returned t op' result' hmem
      · cases List.mem_singleton.mp hmem
        exact h.effected thread op result hstage

theorem answers_run {object : σ} {turns : List (Turn τ ο)} (hspec : ∀ s op, P op (spec s op).2)
    (hrun : System.run (next spec) (start object) turns = some a) : a.Answers P := by
  have hstart : (start object : Atomic τ σ ο ρ).Answers P :=
    ⟨by simp [start], by simp [start]⟩
  exact System.run_invariant (fun _ _ _ h hnext ↦ Answers.next h hspec hnext) hstart hrun

end Atomic

/-! ### The object with the lock -/

/-- Where a call of a method is that works under the lock: it waits for the lock, is somewhere in
the method, has a result and holds the lock still, or has unlocked. -/
inductive Phase (ο ℓ ρ : Type*) where
  | idle
  | waiting (op : ο)
  | inside (op : ο) (place : ℓ)
  | unlocking (op : ο) (result : ρ)
  | returning (op : ο) (result : ρ)

namespace Phase

variable {ο ℓ ρ : Type*}

/-- The thread holds the lock. -/
def Holds : Phase ο ℓ ρ → Prop
  | .inside _ _ | .unlocking _ _ => True
  | _ => False

/-- A method takes effect when it has its result. -/
def stage : Phase ο ℓ ρ → Stage ο ρ
  | .idle => .idle
  | .waiting op | .inside op _ => .called op
  | .unlocking op result | .returning op result => .effected op result

end Phase

/-- An object with a lock. -/
structure Locked (τ σ ο ℓ ρ : Type*) where
  object : σ
  holder : Option τ
  phase : τ → Phase ο ℓ ρ
  history : List (CallEvent τ ο ρ)

namespace Locked

variable {τ σ ο ℓ ρ : Type*}

def start (object : σ) : Locked τ σ ο ℓ ρ := ⟨object, none, fun _ ↦ .idle, []⟩

variable [DecidableEq τ]

def next (m : Methods σ ο ℓ ρ) : System (Locked τ σ ο ℓ ρ) (Turn τ ο)
  | c, .call thread op =>
      match c.phase thread with
      | .idle => some { c with
          phase := Function.update c.phase thread (.waiting op)
          history := c.history ++ [.called thread op] }
      | _ => none
  | c, .go thread =>
      match c.phase thread with
      | .idle => none
      | .waiting op =>
          match c.holder with
          | some _ => none
          | none => some { c with
              holder := some thread
              phase := Function.update c.phase thread (.inside op (m.enter op)) }
      | .inside op place =>
          match m.step c.object place with
          | (object, .inl place) => some { c with
              object := object
              phase := Function.update c.phase thread (.inside op place) }
          | (object, .inr result) => some { c with
              object := object
              phase := Function.update c.phase thread (.unlocking op result) }
      | .unlocking op result => some { c with
          holder := none
          phase := Function.update c.phase thread (.returning op result) }
      | .returning op result => some { c with
          phase := Function.update c.phase thread .idle
          history := c.history ++ [.returned thread op result] }

/-! ### Mutual exclusion -/

variable {m : Methods σ ο ℓ ρ} {c c' : Locked τ σ ο ℓ ρ} {turn : Turn τ ο}

/-- The threads that hold the lock are those that the lock is held by. -/
def Guarded (c : Locked τ σ ο ℓ ρ) : Prop :=
  ∀ thread, (c.phase thread).Holds ↔ c.holder = some thread

/-- A thread that neither locks nor unlocks. -/
theorem Guarded.update (h : c.Guarded) {thread : τ} {phase : Phase ο ℓ ρ}
    (hphase : c'.phase = Function.update c.phase thread phase) (hholder : c'.holder = c.holder)
    (hsame : phase.Holds ↔ (c.phase thread).Holds) : c'.Guarded := by
  intro other
  rw [hphase, hholder, Function.update_apply]
  split_ifs with heq
  · rw [hsame, heq]
    exact h thread
  · exact h other

theorem Guarded.lock (h : c.Guarded) {thread : τ} {phase : Phase ο ℓ ρ}
    (hphase : c'.phase = Function.update c.phase thread phase) (hfree : c.holder = none)
    (hholder : c'.holder = some thread) (hholds : phase.Holds) : c'.Guarded := by
  intro other
  rw [hphase, hholder, Function.update_apply]
  split_ifs with heq
  · exact iff_of_true hholds (congrArg some heq.symm)
  · rw [h other, hfree]
    exact iff_of_false (by simp) fun heq' ↦ heq (Option.some.inj heq').symm

theorem Guarded.unlock (h : c.Guarded) {thread : τ} {phase : Phase ο ℓ ρ}
    (hphase : c'.phase = Function.update c.phase thread phase) (hheld : (c.phase thread).Holds)
    (hholder : c'.holder = none) (hholds : ¬ phase.Holds) : c'.Guarded := by
  intro other
  rw [hphase, hholder, Function.update_apply]
  split_ifs with heq
  · exact iff_of_false hholds (by simp)
  · rw [h other, (h thread).mp hheld]
    exact iff_of_false (fun heq' ↦ heq (Option.some.inj heq').symm) (by simp)

theorem Guarded.next (h : c.Guarded) (hnext : Locked.next m c turn = some c') : c'.Guarded := by
  cases turn with
  | call thread op =>
    simp only [Locked.next] at hnext
    split at hnext <;> cases hnext
    case h_1 hphase => exact h.update rfl rfl (by rw [hphase]; exact Iff.rfl)
  | go thread =>
    simp only [Locked.next] at hnext
    split at hnext
    case h_1 => cases hnext
    case h_2 op hphase =>
      split at hnext <;> cases hnext
      case h_2 hfree => exact h.lock rfl hfree rfl trivial
    case h_3 op place hphase =>
      split at hnext <;> cases hnext
      all_goals exact h.update rfl rfl (by rw [hphase]; exact Iff.rfl)
    case h_4 op result hphase =>
      cases hnext
      exact h.unlock rfl (by rw [hphase]; trivial) rfl id
    case h_5 op result hphase =>
      cases hnext
      exact h.update rfl rfl (by rw [hphase]; exact Iff.rfl)

omit [DecidableEq τ] in
/-- Two threads never hold the lock together. -/
theorem Guarded.unique (h : c.Guarded) {t u : τ} (ht : (c.phase t).Holds)
    (hu : (c.phase u).Holds) : t = u :=
  Option.some.inj (((h t).mp ht).symm.trans ((h u).mp hu))

/-- As long as a call has not returned, a thread can go on: the one that holds the lock, or the
caller itself. -/
theorem Guarded.exists_go (h : c.Guarded) {thread : τ} (hcalled : c.phase thread ≠ .idle) :
    ∃ t, (t = thread ∨ c.holder = some t) ∧ ∃ c', Locked.next m c (.go t) = some c' := by
  cases hphase : c.phase thread with
  | idle => exact absurd hphase hcalled
  | waiting op =>
    cases hholder : c.holder with
    | none => exact ⟨thread, .inl rfl, _, by simp only [Locked.next, hphase, hholder]; rfl⟩
    | some t =>
      refine ⟨t, .inr rfl, ?_⟩
      have hholds := (h t).mpr hholder
      cases ht : c.phase t with
      | inside op place =>
        cases hstep : m.step c.object place with
        | mk object after =>
          cases after <;> exact ⟨_, by simp only [Locked.next, ht, hstep]; rfl⟩
      | unlocking op result => exact ⟨_, by simp only [Locked.next, ht]; rfl⟩
      | idle | waiting | returning =>
        rw [ht] at hholds
        exact hholds.elim
  | inside op place =>
    refine ⟨thread, .inl rfl, ?_⟩
    cases hstep : m.step c.object place with
    | mk object after =>
      cases after <;> exact ⟨_, by simp only [Locked.next, hphase, hstep]; rfl⟩
  | unlocking op result => exact ⟨thread, .inl rfl, _, by simp only [Locked.next, hphase]; rfl⟩
  | returning op result => exact ⟨thread, .inl rfl, _, by simp only [Locked.next, hphase]; rfl⟩

/-! ### Linearizability -/

/-- What is known of the object: nobody is changing it, and it is the atomic one, or the holder of
the lock is going to complete its method, which the atomic object has not done yet. -/
def Tied (m : Methods σ ο ℓ ρ) (spec : σ → ο → σ × ρ) (object object' : σ) :
    Option (Phase ο ℓ ρ) → Prop
  | some (.inside op place) => m.Completes object place (spec object' op)
  | _ => object' = object

/-- The object with the lock looks like the atomic one. -/
structure Matches (m : Methods σ ο ℓ ρ) (spec : σ → ο → σ × ρ) (c : Locked τ σ ο ℓ ρ)
    (a : Atomic τ σ ο ρ) : Prop where
  guarded : c.Guarded
  stage : a.stage = Phase.stage ∘ c.phase
  history : a.history = c.history
  tied : Tied m spec c.object a.object (c.holder.map c.phase)

variable {spec : σ → ο → σ × ρ} {a : Atomic τ σ ο ρ} {thread : τ}

omit [DecidableEq τ] in
theorem Matches.stage_eq (h : Matches m spec c a) {phase : Phase ο ℓ ρ}
    (hphase : c.phase thread = phase) : a.stage thread = phase.stage := by
  rw [h.stage, Function.comp_apply, hphase]

theorem Matches.stage_update (h : Matches m spec c a) (phase : Phase ο ℓ ρ) :
    Function.update a.stage thread phase.stage =
      Phase.stage ∘ Function.update c.phase thread phase := by
  rw [h.stage, Function.comp_update]

/-- The atomic object does not notice a step that leaves the stage of its thread. -/
theorem Matches.stage_same (h : Matches m spec c a) {phase : Phase ο ℓ ρ}
    (hsame : phase.stage = (c.phase thread).stage) :
    a.stage = Phase.stage ∘ Function.update c.phase thread phase := by
  rw [← h.stage_update, hsame, ← h.stage_eq rfl, Function.update_eq_self]

/-- While a thread is not the holder, what it does has nothing to do with the object. -/
theorem Matches.tied_update (h : Matches m spec c a) (hout : ¬ (c.phase thread).Holds)
    (phase : Phase ο ℓ ρ) :
    Tied m spec c.object a.object (c.holder.map (Function.update c.phase thread phase)) := by
  have hsame : c.holder.map (Function.update c.phase thread phase) = c.holder.map c.phase := by
    cases hholder : c.holder with
    | none => rfl
    | some other =>
      have hne : other ≠ thread := by
        rintro rfl
        exact hout ((h.guarded other).mpr hholder)
      rw [Option.map_some, Option.map_some, Function.update_of_ne hne]
  rw [hsame]
  exact h.tied

/-- Every action with the lock is the same action of the atomic object, or none that it notices: a
method takes effect with its last step. -/
theorem Matches.next (h : Matches m spec c a) (himplements : m.Implements spec)
    (hnext : Locked.next m c turn = some c') :
    Matches m spec c' a ∨ ∃ a', Atomic.next spec a turn = some a' ∧ Matches m spec c' a' := by
  have hguarded := h.guarded.next hnext
  cases turn with
  | call thread op =>
    simp only [Locked.next] at hnext
    split at hnext <;> cases hnext
    case h_1 hphase =>
      refine .inr ⟨_, by simp only [Atomic.next, h.stage_eq hphase, Phase.stage]; rfl, hguarded,
        h.stage_update (.waiting op), by rw [h.history], ?_⟩
      exact h.tied_update (by rw [hphase]; exact id) _
  | go thread =>
    simp only [Locked.next] at hnext
    split at hnext
    case h_1 => cases hnext
    case h_2 op hphase =>
      split at hnext <;> cases hnext
      case h_2 hfree =>
        refine .inl ⟨hguarded, h.stage_same (by rw [hphase]; rfl), h.history, ?_⟩
        have htied := h.tied
        rw [hfree] at htied
        simp only [Option.map_some, Function.update_self]
        change m.Completes c.object (m.enter op) (spec a.object op)
        rw [show a.object = c.object from htied]
        exact himplements c.object op
    case h_3 op place hphase =>
      have hholder := (h.guarded thread).mp (by rw [hphase]; trivial)
      have htied := h.tied
      rw [hholder, Option.map_some, hphase] at htied
      split at hnext <;> cases hnext
      case h_1 object place' hstep =>
        refine .inl ⟨hguarded, h.stage_same (by rw [hphase]; rfl), h.history, ?_⟩
        simp only [hholder, Option.map_some, Function.update_self]
        exact Methods.Completes.of_inl htied hstep
      case h_2 object result hstep =>
        have heffect : spec a.object op = (object, result) :=
          Methods.Completes.of_inr htied hstep
        refine .inr ⟨{ a with
          object := object
          stage := Function.update a.stage thread (.effected op result) }, ?_, hguarded,
          h.stage_update (.unlocking op result), h.history, ?_⟩
        · simp only [Atomic.next, h.stage_eq hphase, Phase.stage, heffect]
        · simp only [hholder, Option.map_some, Function.update_self]
          rfl
    case h_4 op result hphase =>
      have hholder := (h.guarded thread).mp (by rw [hphase]; trivial)
      have htied := h.tied
      rw [hholder, Option.map_some, hphase] at htied
      cases hnext
      exact .inl ⟨hguarded, h.stage_same (by rw [hphase]; rfl), h.history, htied⟩
    case h_5 op result hphase =>
      cases hnext
      refine .inr ⟨_, by simp only [Atomic.next, h.stage_eq hphase, Phase.stage]; rfl, hguarded,
        h.stage_update .idle, by rw [h.history], ?_⟩
      exact h.tied_update (by rw [hphase]; exact id) _

omit [DecidableEq τ] in
theorem guarded_start (object : σ) : (start object : Locked τ σ ο ℓ ρ).Guarded :=
  fun _ ↦ iff_of_false id (by simp [start])

/-- Every history of the object with the lock is one of the atomic object, and when nobody holds the
lock the objects are the same. -/
theorem linearizable (himplements : m.Implements spec) {object : σ} {turns : List (Turn τ ο)}
    (hrun : System.run (next m) (start object) turns = some c) :
    ∃ turns' a, List.Sublist turns' turns ∧
      System.run (Atomic.next spec) (Atomic.start object) turns' = some a ∧
      a.history = c.history ∧ (c.holder = none → a.object = c.object) := by
  have hstart : Matches m spec (start object) (Atomic.start object : Atomic τ σ ο ρ) :=
    ⟨guarded_start object, rfl, rfl, rfl⟩
  have hstep : ∀ (c : Locked τ σ ο ℓ ρ) turn c' (a : Atomic τ σ ο ρ), Matches m spec c a →
      next m c turn = some c' → Matches m spec c' a ∨
        ∃ a', Atomic.next spec a turn = some a' ∧ Matches m spec c' a' :=
    fun _ _ _ _ h hnext ↦ h.next himplements hnext
  obtain ⟨turns', a, hsub, hrun', hmatches⟩ := System.run_simulates hstep hstart hrun
  refine ⟨turns', a, hsub, hrun', hmatches.history, fun hfree ↦ ?_⟩
  have htied := hmatches.tied
  rw [hfree] at htied
  exact htied

theorem guarded_run {object : σ} {turns : List (Turn τ ο)}
    (hrun : System.run (next m) (start object) turns = some c) : c.Guarded :=
  System.run_invariant (fun _ _ _ h hnext ↦ Guarded.next h hnext) (guarded_start object) hrun

end Locked

end Nebula.Library
