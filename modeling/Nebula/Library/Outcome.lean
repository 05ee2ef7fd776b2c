import Mathlib.Order.Basic

/-!
Runs of imperative code that may return, die, or still be going on. A loop is run for at most a
given number of iterations, and whatever the run came to it carries the state it had reached, so
that a statement about every number of iterations is a statement about every moment of the loop.

`whileLoop_state` and `whileLoop_state_of_running` are the invariant rules, `forall_running_iff` and
`forall_whileLoop_iff` the rules for an exact condition: when one iteration does what it should
exactly under a condition on its start, the whole loop does exactly when each of its iterations
starts under the condition. `whileLoop_ended` is the termination rule.
-/

set_option autoImplicit false
set_option relaxedAutoImplicit false

namespace Nebula.Library

/-- What a run has come to: it returned, the process died in it, or it is still going on. -/
inductive Outcome (σ : Type*) where
  | done (s : σ)
  | crashed (s : σ)
  | running (s : σ)

namespace Outcome

variable {σ τ : Type*}

/-- The state a run has reached. -/
def state : Outcome σ → σ
  | done s => s
  | crashed s => s
  | running s => s

/-- Continue a run that has returned. -/
def andThen (o : Outcome σ) (next : σ → Outcome σ) : Outcome σ :=
  match o with
  | done s => next s
  | crashed s => crashed s
  | running s => running s

/-- The run seen through a projection of its states. -/
def map (f : σ → τ) : Outcome σ → Outcome τ
  | done s => done (f s)
  | crashed s => crashed (f s)
  | running s => running (f s)

/-- A run that has come to an end. -/
def Ended : Outcome σ → Prop
  | running _ => False
  | _ => True

@[simp] theorem state_done (s : σ) : (done s).state = s := rfl

@[simp] theorem state_crashed (s : σ) : (crashed s).state = s := rfl

@[simp] theorem state_running (s : σ) : (running s).state = s := rfl

@[simp] theorem andThen_done (s : σ) (next : σ → Outcome σ) : (done s).andThen next = next s := rfl

@[simp] theorem andThen_crashed (s : σ) (next : σ → Outcome σ) :
    (crashed s).andThen next = crashed s := rfl

@[simp] theorem andThen_running (s : σ) (next : σ → Outcome σ) :
    (running s).andThen next = running s := rfl

@[simp] theorem ended_done (s : σ) : (done s).Ended := trivial

@[simp] theorem ended_crashed (s : σ) : (crashed s).Ended := trivial

@[simp] theorem not_ended_running (s : σ) : ¬ (running s).Ended := id

@[simp] theorem state_map (f : σ → τ) (o : Outcome σ) : (o.map f).state = f o.state := by
  cases o <;> rfl

@[simp] theorem ended_map (f : σ → τ) (o : Outcome σ) : (o.map f).Ended ↔ o.Ended := by
  cases o <;> rfl

/-- What holds of the state a run has reached, and is kept by what follows, holds of the state the
two have reached together. -/
theorem state_andThen {P : σ → Prop} {o : Outcome σ} {next : σ → Outcome σ} (ho : P o.state)
    (hnext : ∀ s, o = done s → P (next s).state) : P (o.andThen next).state := by
  cases o with
  | done s => exact hnext s rfl
  | crashed s => exact ho
  | running s => exact ho

/-- The same for a run seen through a projection. -/
theorem state_map_andThen {P : τ → Prop} {f : σ → τ} {o : Outcome σ} {next : τ → Outcome τ}
    (ho : P (f o.state)) (hnext : P (f o.state) → P (next (f o.state)).state) :
    P ((o.map f).andThen next).state := by
  cases o with
  | done s => exact hnext ho
  | crashed s => exact ho
  | running s => exact ho

end Outcome

open Outcome

variable {σ : Type*}

/-- `while (guard) body`, for at most `fuel` iterations. -/
def whileLoop (guard : σ → Bool) (body : σ → Outcome σ) : ℕ → σ → Outcome σ
  | 0, s => if guard s then running s else done s
  | fuel + 1, s => if guard s then (body s).andThen (whileLoop guard body fuel) else done s

section Rules

variable {guard : σ → Bool} {body : σ → Outcome σ}

theorem whileLoop_of_not_guard {s : σ} (h : guard s = false) (fuel : ℕ) :
    whileLoop guard body fuel s = done s := by
  cases fuel <;> simp [whileLoop, h]

theorem whileLoop_zero {s : σ} (h : guard s = true) : whileLoop guard body 0 s = running s := by
  simp [whileLoop, h]

theorem whileLoop_succ {s : σ} (h : guard s = true) (fuel : ℕ) :
    whileLoop guard body (fuel + 1) s = (body s).andThen (whileLoop guard body fuel) := by
  simp [whileLoop, h]

/-- The invariant rule: what one iteration keeps, every moment of the loop has. -/
theorem whileLoop_state {I : σ → Prop} (hbody : ∀ s, I s → guard s = true → I (body s).state) :
    ∀ (fuel : ℕ) (s : σ), I s → I (whileLoop guard body fuel s).state := by
  intro fuel
  induction fuel with
  | zero =>
    intro s hs
    cases h : guard s with
    | true => rwa [whileLoop_zero h]
    | false => rwa [whileLoop_of_not_guard h]
  | succ fuel ih =>
    intro s hs
    cases h : guard s with
    | true =>
      rw [whileLoop_succ h]
      refine state_andThen (hbody s hs h) fun t ht ↦ ih t ?_
      simpa [ht] using hbody s hs h
    | false => rwa [whileLoop_of_not_guard h]

/-- A loop whose iterations all end is still going on only in front of its guard. -/
theorem guard_of_whileLoop_running (hends : ∀ s, (body s).Ended) : ∀ {fuel : ℕ} {s t : σ},
    whileLoop guard body fuel s = running t → guard t = true := by
  intro fuel
  induction fuel with
  | zero =>
    intro s t ht
    cases h : guard s with
    | true =>
      rw [whileLoop_zero h] at ht
      cases ht
      exact h
    | false => simp [whileLoop_of_not_guard h] at ht
  | succ fuel ih =>
    intro s t ht
    cases h : guard s with
    | true =>
      rw [whileLoop_succ h] at ht
      cases hs : body s with
      | done u => exact ih (by simpa [hs] using ht)
      | crashed u => simp [hs] at ht
      | running u => exact absurd (hends s) (by simp [hs])
    | false => simp [whileLoop_of_not_guard h] at ht

/-- A loop returns in front of a guard that has failed. -/
theorem guard_of_whileLoop_done : ∀ {fuel : ℕ} {s t : σ},
    whileLoop guard body fuel s = done t → guard t = false := by
  intro fuel
  induction fuel with
  | zero =>
    intro s t ht
    cases h : guard s with
    | true => simp [whileLoop_zero h] at ht
    | false =>
      rw [whileLoop_of_not_guard h] at ht
      cases ht
      exact h
  | succ fuel ih =>
    intro s t ht
    cases h : guard s with
    | true =>
      rw [whileLoop_succ h] at ht
      cases hs : body s with
      | done u => exact ih (by simpa [hs] using ht)
      | crashed u => simp [hs] at ht
      | running u => simp [hs] at ht
    | false =>
      rw [whileLoop_of_not_guard h] at ht
      cases ht
      exact h

/-- One more iteration: a loop that is still going on takes it, an ended one does not change. -/
theorem whileLoop_succ_eq (hends : ∀ s, (body s).Ended) : ∀ (fuel : ℕ) (s : σ),
    whileLoop guard body (fuel + 1) s =
      match whileLoop guard body fuel s with
      | running t => (body t).andThen (whileLoop guard body 0)
      | ended => ended := by
  intro fuel
  induction fuel with
  | zero =>
    intro s
    cases h : guard s with
    | true => rw [whileLoop_succ h, whileLoop_zero h]
    | false => simp [whileLoop_of_not_guard h]
  | succ fuel ih =>
    intro s
    cases h : guard s with
    | true =>
      rw [whileLoop_succ h, whileLoop_succ h]
      cases hs : body s with
      | done u => exact ih u
      | crashed u => rfl
      | running u => exact absurd (hends s) (by simp [hs])
    | false => simp [whileLoop_of_not_guard h]

/-- One more iteration of a loop that is still going on. -/
theorem whileLoop_succ_of_running (hends : ∀ s, (body s).Ended) {s t : σ} {n : ℕ}
    (ht : whileLoop guard body n s = running t) :
    whileLoop guard body (n + 1) s = (body t).andThen (whileLoop guard body 0) := by
  rw [whileLoop_succ_eq hends, ht]

/-- A loop that has come to an end stays as it is. -/
theorem whileLoop_of_le (hends : ∀ s, (body s).Ended) {s : σ} {n m : ℕ} (hle : n ≤ m)
    (hended : (whileLoop guard body n s).Ended) :
    whileLoop guard body m s = whileLoop guard body n s := by
  induction hle with
  | refl => rfl
  | step _ ih =>
    rw [whileLoop_succ_eq hends, ih]
    cases hs : whileLoop guard body n s with
    | running t => exact absurd hended (by simp [hs])
    | done t => rfl
    | crashed t => rfl

/-- The process dies in an iteration that the loop has come to. -/
theorem exists_running_of_whileLoop_crashed (hends : ∀ s, (body s).Ended) {s t : σ} :
    ∀ {fuel : ℕ}, whileLoop guard body fuel s = crashed t →
      ∃ n u, whileLoop guard body n s = running u ∧ body u = crashed t := by
  intro fuel
  induction fuel with
  | zero =>
    intro ht
    cases h : guard s with
    | true => simp [whileLoop_zero h] at ht
    | false => simp [whileLoop_of_not_guard h] at ht
  | succ fuel ih =>
    intro ht
    rw [whileLoop_succ_eq hends] at ht
    cases hu : whileLoop guard body fuel s with
    | done u => simp [hu] at ht
    | crashed u => exact ih (by simpa [hu] using ht)
    | running u =>
      refine ⟨fuel, u, hu, ?_⟩
      cases hb : body u with
      | crashed v => simpa [hu, hb] using ht
      | running v => exact absurd (hends u) (by simp [hb])
      | done v =>
        simp only [hu, hb, andThen_done] at ht
        cases hv : guard v with
        | true => simp [whileLoop_zero hv] at ht
        | false => simp [whileLoop_of_not_guard hv] at ht

/-- Every iteration of a loop that returns has returned. -/
theorem exists_body_eq_done (hends : ∀ s, (body s).Ended) {s t u : σ} {n m : ℕ}
    (ht : whileLoop guard body m s = done t) (hu : whileLoop guard body n s = running u) :
    ∃ v, body u = done v := by
  cases hb : body u with
  | done v => exact ⟨v, rfl⟩
  | running v => exact absurd (hends u) (by simp [hb])
  | crashed v =>
    have hcrashed : whileLoop guard body (n + 1) s = crashed v := by
      rw [whileLoop_succ_of_running hends hu, hb, andThen_crashed]
    rcases Nat.le_total m (n + 1) with hle | hle
    · have := whileLoop_of_le hends hle (by rw [ht]; trivial)
      rw [hcrashed, ht] at this
      cases this
    · have := whileLoop_of_le hends hle (by rw [hcrashed]; trivial)
      rw [hcrashed, ht] at this
      cases this

/-- The state after one more iteration. -/
theorem whileLoop_succ_state (hends : ∀ s, (body s).Ended) {fuel : ℕ} {s t : σ}
    (ht : whileLoop guard body fuel s = running t) :
    (whileLoop guard body (fuel + 1) s).state = (body t).state := by
  rw [whileLoop_succ_of_running hends ht]
  cases hb : body t with
  | done u => cases hu : guard u <;> simp [whileLoop, hu]
  | crashed u => rfl
  | running u => rfl

/-- The invariant rule under a condition: while every iteration starts under `C`, the loop keeps
what an iteration that starts under `C` keeps. -/
theorem whileLoop_state_of_running {I C : σ → Prop} (hends : ∀ s, (body s).Ended)
    (hkeep : ∀ s, I s → guard s = true → C s → I (body s).state) {s : σ} (hs : I s) :
    ∀ fuel, (∀ n < fuel, ∀ t, whileLoop guard body n s = running t → C t) →
      I (whileLoop guard body fuel s).state := by
  intro fuel
  induction fuel with
  | zero =>
    intro _
    cases h : guard s with
    | true => rwa [whileLoop_zero h]
    | false => rwa [whileLoop_of_not_guard h]
  | succ fuel ih =>
    intro hC
    have hprev := ih fun n hn ↦ hC n (Nat.lt_succ_of_lt hn)
    cases ht : whileLoop guard body fuel s with
    | running t =>
      rw [whileLoop_succ_state hends ht]
      exact hkeep t (by simpa [ht] using hprev) (guard_of_whileLoop_running hends ht)
        (hC fuel (Nat.lt_succ_self fuel) t ht)
    | done t => simpa [whileLoop_succ_eq hends, ht] using hprev
    | crashed t => simpa [whileLoop_succ_eq hends, ht] using hprev

/-- The rule for an exact condition on the iterations. From a state of the invariant `I` an
iteration that starts under `C` ends in `I`, and `P` and `C` agree on the states of `I`. Then every
iteration starts under `P` exactly when every iteration starts under `C`. -/
theorem forall_running_iff {I P C : σ → Prop} (hends : ∀ s, (body s).Ended)
    (hkeep : ∀ s, I s → guard s = true → C s → I (body s).state)
    (hiff : ∀ s, I s → guard s = true → (P s ↔ C s)) {s : σ} (hs : I s) :
    (∀ fuel t, whileLoop guard body fuel s = running t → P t) ↔
      ∀ fuel t, whileLoop guard body fuel s = running t → C t := by
  have hinv : ∀ fuel t, (∀ n < fuel, ∀ t, whileLoop guard body n s = running t → C t) →
      whileLoop guard body fuel s = running t → I t ∧ guard t = true := by
    intro fuel t hC ht
    refine ⟨?_, guard_of_whileLoop_running hends ht⟩
    simpa [ht] using whileLoop_state_of_running hends hkeep hs fuel hC
  constructor
  · intro hP fuel
    induction fuel using Nat.strongRecOn with
    | _ fuel ih =>
      intro t ht
      obtain ⟨hI, hguard⟩ := hinv fuel t ih ht
      exact (hiff t hI hguard).mp (hP fuel t ht)
  · intro hC fuel t ht
    obtain ⟨hI, hguard⟩ := hinv fuel t (fun n _ ↦ hC n) ht
    exact (hiff t hI hguard).mpr (hC fuel t ht)

/-- A property of every moment of the loop is one of its start and of the end of every iteration. -/
theorem forall_whileLoop_state_iff {P : σ → Prop} (hends : ∀ s, (body s).Ended) {s : σ} :
    (∀ fuel, P (whileLoop guard body fuel s).state) ↔
      P s ∧ ∀ fuel t, whileLoop guard body fuel s = running t → P (body t).state := by
  constructor
  · intro hP
    refine ⟨?_, fun fuel t ht ↦ ?_⟩
    · have hstart := hP 0
      cases h : guard s with
      | true => simpa [whileLoop_zero h] using hstart
      | false => simpa [whileLoop_of_not_guard h] using hstart
    · simpa [whileLoop_succ_state hends ht] using hP (fuel + 1)
  · rintro ⟨hs, hP⟩ fuel
    induction fuel with
    | zero =>
      cases h : guard s with
      | true => rwa [whileLoop_zero h]
      | false => rwa [whileLoop_of_not_guard h]
    | succ fuel ih =>
      cases ht : whileLoop guard body fuel s with
      | running t => rw [whileLoop_succ_state hends ht]; exact hP fuel t ht
      | done t => simpa [whileLoop_succ_eq hends, ht] using ih
      | crashed t => simpa [whileLoop_succ_eq hends, ht] using ih

/-- The rule for an exact condition on the states. From a state of the invariant `I` an iteration
that starts under `C` ends in `I`, an iteration that starts outside `C` ends outside `P`, and `I`
implies `P`. Then every moment of the loop satisfies `P` exactly when every iteration starts under
`C`. -/
theorem forall_whileLoop_iff {I P C : σ → Prop} (hends : ∀ s, (body s).Ended)
    (hkeep : ∀ s, I s → guard s = true → C s → I (body s).state)
    (hbreak : ∀ s, I s → guard s = true → ¬ C s → ¬ P (body s).state) (himp : ∀ s, I s → P s)
    {s : σ} (hs : I s) :
    (∀ fuel, P (whileLoop guard body fuel s).state) ↔
      ∀ fuel t, whileLoop guard body fuel s = running t → C t := by
  have hiff : ∀ s, I s → guard s = true → (P (body s).state ↔ C s) := fun s hI hguard ↦
    ⟨fun hP ↦ by_contra fun hC ↦ hbreak s hI hguard hC hP, fun hC ↦ himp _ (hkeep s hI hguard hC)⟩
  rw [forall_whileLoop_state_iff hends, ← forall_running_iff hends hkeep hiff hs]
  exact and_iff_right (himp s hs)

/-- The termination rule: a measure that is positive in front of every iteration and decreased by
it bounds the number of iterations. -/
theorem whileLoop_ended {I : σ → Prop} (measure : σ → ℕ) (hends : ∀ s, (body s).Ended)
    (hpos : ∀ s, I s → guard s = true → 0 < measure s)
    (hkeep : ∀ s t, I s → guard s = true → body s = done t → I t ∧ measure t < measure s) :
    ∀ (fuel : ℕ) (s : σ), I s → measure s ≤ fuel → (whileLoop guard body fuel s).Ended := by
  intro fuel
  induction fuel with
  | zero =>
    intro s hs hm
    cases h : guard s with
    | true => exact absurd (hpos s hs h) (by omega)
    | false => simp [whileLoop_of_not_guard h]
  | succ fuel ih =>
    intro s hs hm
    cases h : guard s with
    | true =>
      rw [whileLoop_succ h]
      cases hb : body s with
      | done t =>
        obtain ⟨ht, hlt⟩ := hkeep s t hs h hb
        exact ih t ht (by omega)
      | crashed t => trivial
      | running t => exact absurd (hends s) (by simp [hb])
    | false => simp [whileLoop_of_not_guard h]

end Rules

end Nebula.Library
