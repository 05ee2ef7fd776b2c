import Nebula.Logging.Startup

/-!
What callers of `getInstance` and `destroyInstance` can rely on, whatever fails and however the
threads take turns, as long as one thread destroys: the lock is held by one thread at a time, there
is at most one server thread that has not returned, a server that is published has started up, and
a server is deleted when its thread has returned.

`uniq_instance_` is set behind the wait for `ready_to_serve_client_`, and the flag says nothing
about which server has set it. It is the right one, because no other server has been left over
(`Sound.serving_of_ready`).
-/

set_option autoImplicit false
set_option relaxedAutoImplicit false

namespace Nebula.Logging

open Nebula.Library

/-- The server has started up, and has set `ready_to_serve_client_`. -/
def Routine.Served : Routine → Prop
  | .serving | .stopping | .returned true => True
  | _ => False

namespace Instances

variable {τ : Type*} {destroyer : τ} {s s' : Instances τ} {t : τ} {n : ℕ}

/-- What the threads rely on. -/
structure Safe (s : Instances τ) : Prop where
  exclusive : ∀ t u, (s.caller t).Holds → (s.caller u).Holds → t = u
  single : ∀ n m, (s.routine n).Live → (s.routine m).Live → n = m
  published : ∀ n, s.uniqInstance = some n → (s.routine n).Served
  deleted : ∀ t, s.caller t = .deleting →
    ∃ n, s.uniqInstance = some n ∧ s.routine n = .returned true

/-- The servers that are published, or about to be, have started up. -/
structure Introduced (s : Instances τ) : Prop where
  published : ∀ n, s.uniqInstance = some n → (s.routine n).Served
  publishing : ∀ t purpose n, s.caller t = .publishing purpose (some n) → (s.routine n).Served

theorem Sound.safe (h : s.Sound destroyer) (hintroduced : s.Introduced) : s.Safe where
  exclusive _ _ ht hu := h.eq_of_holds ht hu
  single _ _ hn hm := h.live_unique hn hm
  published := hintroduced.published
  deleted t ht := by
    obtain ⟨n, served, huniq, hreturned⟩ := (h.fits t).joined (by rw [ht]; trivial)
    have hserved := hintroduced.published n huniq
    cases served with
    | true => exact ⟨n, huniq, hreturned⟩
    | false =>
      rw [hreturned] at hserved
      cases hserved

/-- The flag that ends the wait for a server has been set by that server. -/
theorem Sound.serving_of_ready (h : s.Sound destroyer) {purpose : Purpose}
    (ht : s.caller t = .waiting purpose n) (hready : s.readyToServeClient = true) :
    s.routine n = .serving := by
  obtain ⟨m, hm⟩ := h.ready hready
  have hholds : (s.caller t).Holds := by rw [ht]; trivial
  have hnone : s.uniqInstance = none := (h.fits t).builds (by rw [ht]; trivial)
  have hserver := h.server_of_live hholds hnone (n := m) (by rw [hm]; trivial)
  rw [ht] at hserver
  rw [Option.some.inj hserver]
  exact hm

variable [DecidableEq τ]

/-- A step that changes no server, and publishes none. -/
theorem Introduced.move (h : s.Introduced) {c : Caller} (hroutine : s'.routine = s.routine)
    (hcaller : s'.caller = Function.update s.caller t c)
    (huniq : s'.uniqInstance = s.uniqInstance ∨ s'.uniqInstance = none)
    (hc : ∀ purpose n, c = .publishing purpose (some n) → (s.routine n).Served) :
    s'.Introduced where
  published n hn := by
    rw [hroutine]
    rcases huniq with heq | hnone
    · exact h.published n (heq ▸ hn)
    · rw [hnone] at hn
      cases hn
  publishing u purpose n hu := by
    rw [hroutine]
    rw [hcaller, Function.update_apply] at hu
    split_ifs at hu
    · exact hc purpose n hu
    · exact h.publishing u purpose n hu

omit [DecidableEq τ] in
/-- A server that has started up goes on having done so. -/
theorem Introduced.setRoutine (h : s.Introduced) {r : Routine}
    (hr : (s.routine n).Served → r.Served) (hroutine : s'.routine = Function.update s.routine n r)
    (hcaller : s'.caller = s.caller) (huniq : s'.uniqInstance = s.uniqInstance) :
    s'.Introduced := by
  have hserved : ∀ m, (s.routine m).Served → (s'.routine m).Served := by
    intro m hm
    rw [hroutine, Function.update_apply]
    split_ifs with heq
    · exact hr (heq ▸ hm)
    · exact hm
  constructor
  · intro m hm
    exact hserved m (h.published m (huniq ▸ hm))
  · intro u purpose m hu
    exact hserved m (h.publishing u purpose m (hcaller ▸ hu))

theorem Introduced.callerStep (h : s.Introduced) (hsound : s.Sound destroyer) {ok : Bool}
    (hstep : s.callerStep t ok = some s') : s'.Introduced := by
  unfold Instances.callerStep at hstep
  cases hc : s.caller t with
  | outside =>
    rw [hc] at hstep
    cases hstep
  | testing purpose =>
    rw [hc] at hstep
    cases hstep
    refine h.move rfl rfl (Or.inl rfl) fun _ _ heq ↦ ?_
    split_ifs at heq
  | locking purpose =>
    simp only [hc] at hstep
    split_ifs at hstep
    cases hstep
    exact h.move (c := .retesting purpose) rfl rfl (Or.inl rfl) (by simp)
  | retesting purpose =>
    rw [hc] at hstep
    cases hstep
    refine h.move rfl rfl (Or.inl rfl) fun _ _ heq ↦ ?_
    split_ifs at heq
  | creating purpose =>
    simp only [hc] at hstep
    split_ifs at hstep
    · cases hstep
      have hcreate : s.create.Introduced := by
        refine h.setRoutine (n := s.created) (r := .starting .socket) ?_ rfl rfl rfl
        rw [hsound.absent s.created (Nat.le_refl _)]
        exact False.elim
      exact hcreate.move (c := .waiting purpose s.created) rfl rfl (Or.inl rfl) (by simp)
    · cases hstep
      exact h.move (c := .publishing purpose none) rfl rfl (Or.inl rfl) (by simp)
  | waiting purpose n =>
    rw [hc] at hstep
    cases hstep
    split_ifs with hready
    · refine h.move (c := .publishing purpose (some n)) rfl rfl (Or.inl rfl) fun _ m heq ↦ ?_
      cases heq
      rw [hsound.serving_of_ready hc hready]
      trivial
    · exact h
  | publishing purpose temp =>
    rw [hc] at hstep
    cases hstep
    refine ⟨fun n hn ↦ h.publishing t purpose n (hn ▸ hc), fun u purpose' n hu ↦ ?_⟩
    have hmove : (s.move t (.unlocking purpose)).Introduced :=
      h.move (c := .unlocking purpose) rfl rfl (Or.inl rfl) (by simp)
    exact hmove.publishing u purpose' n hu
  | unlocking purpose =>
    rw [hc] at hstep
    cases hstep
    exact h.move (c := .returning purpose) rfl rfl (Or.inl rfl) (by simp)
  | returning purpose =>
    rw [hc] at hstep
    cases hstep
    refine h.move rfl rfl (Or.inl rfl) fun purpose' n heq ↦ ?_
    cases purpose <;> cases huniq : s.uniqInstance <;> rw [huniq] at heq <;> cases heq
  | settingStopFlag n =>
    rw [hc] at hstep
    cases hstep
    exact h.move (c := .testing .join) rfl rfl (Or.inl rfl) (by simp)
  | joining n =>
    simp only [hc] at hstep
    split at hstep
    · cases hstep
      exact h.move (c := .lockingToDelete) rfl rfl (Or.inl rfl) (by simp)
    · cases hstep
  | lockingToDelete =>
    simp only [hc] at hstep
    split_ifs at hstep
    cases hstep
    exact h.move (c := .deleting) rfl rfl (Or.inl rfl) (by simp)
  | deleting =>
    rw [hc] at hstep
    cases hstep
    exact h.move (c := .unlockingDeleted) rfl rfl (Or.inr rfl) (by simp)
  | unlockingDeleted =>
    rw [hc] at hstep
    cases hstep
    exact h.move (c := .outside) rfl rfl (Or.inl rfl) (by simp)
  | crashed =>
    rw [hc] at hstep
    cases hstep

omit [DecidableEq τ] in
theorem Introduced.serverStep (h : s.Introduced) {ok : Bool}
    (hstep : s.serverStep n ok = some s') : s'.Introduced := by
  unfold Instances.serverStep at hstep
  cases hr : s.routine n with
  | absent =>
    rw [hr] at hstep
    cases hstep
  | starting call =>
    rw [hr] at hstep
    cases hstep
    exact h.setRoutine (by rw [hr]; exact False.elim) rfl rfl rfl
  | settingReady =>
    rw [hr] at hstep
    cases hstep
    exact h.setRoutine (r := .serving) (fun _ ↦ trivial) rfl rfl rfl
  | serving =>
    rw [hr] at hstep
    cases hstep
    split_ifs
    · exact h.setRoutine (r := .stopping) (fun _ ↦ trivial) rfl rfl rfl
    · exact h
  | stopping =>
    rw [hr] at hstep
    cases hstep
    exact h.setRoutine (r := .returned true) (fun _ ↦ trivial) rfl rfl rfl
  | returned served =>
    rw [hr] at hstep
    cases hstep

theorem Introduced.next (h : s.Introduced) (hsound : s.Sound destroyer)
    {action : InstanceAction τ} (hnext : Instances.next destroyer s action = some s') :
    s'.Introduced := by
  cases action with
  | getInstance t =>
    simp only [Instances.next] at hnext
    split_ifs at hnext
    cases hnext
    exact h.move (c := .testing .get) rfl rfl (Or.inl rfl) (by simp)
  | destroyInstance =>
    simp only [Instances.next] at hnext
    split_ifs at hnext
    cases hnext
    exact h.move (c := .testing .setStopFlag) rfl rfl (Or.inl rfl) (by simp)
  | caller t ok => exact h.callerStep hsound hnext
  | server n ok => exact h.serverStep hnext

omit [DecidableEq τ] in
theorem introduced_fresh : (fresh : Instances τ).Introduced := ⟨nofun, nofun⟩

/-- In every interleaving of any number of callers of `getInstance`, of a thread that calls
`destroyInstance`, and of the server threads, and whatever fails in it: one thread at a time has the
lock, at most one server thread has not returned, `uniq_instance_` points to a server that has
started up, and when a server is deleted its thread has returned. -/
theorem instances_safe (destroyer : τ) (actions : List (InstanceAction τ)) (s : Instances τ)
    (hrun : System.run (next destroyer) fresh actions = some s) : s.Safe := by
  obtain ⟨hsound, hintroduced⟩ := System.run_invariant
    (I := fun s ↦ s.Sound destroyer ∧ s.Introduced)
    (fun _ _ _ h hnext ↦ ⟨sound_next h.1 hnext, h.2.next h.1 hnext⟩)
    ⟨sound_fresh destroyer, introduced_fresh⟩ hrun
  exact hsound.safe hintroduced

/-- Two threads ask for the instance at once; the first creates the server, which starts up. -/
def twoCallers : List (InstanceAction ℕ) :=
  [.getInstance 0, .getInstance 2] ++ List.replicate 4 (.caller 0 true) ++ [.caller 2 true] ++
    List.replicate 7 (.server 0 true) ++ List.replicate 3 (.caller 0 true)

def afterTwoCallers : Instances ℕ := (System.run (next 1) fresh twoCallers).get (by decide)

theorem instances_safe_twoCallers :
    afterTwoCallers.uniqInstance = some 0 ∧ afterTwoCallers.Safe :=
  ⟨by decide, instances_safe 1 twoCallers afterTwoCallers (Option.some_get _).symm⟩

end Instances

end Nebula.Logging
