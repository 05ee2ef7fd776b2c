import Nebula.Logging.Instance
import Mathlib.Tactic.ByContra
import Mathlib.Tactic.SplitIfs

/-!
What happens when a server does not start up. `routine` returns from each of its failing start-up
calls without telling anybody, while the thread that has created the server waits for
`ready_to_serve_client_` under the lock; from then on every caller of `getInstance` that finds no
instance waits as well.

`neverWedged_iff` says that a run avoids this state exactly if no start-up call of a server fails in
it. The invariant behind it is `Sound`: there is at most one server that has not returned, as long
as it starts up its creator waits for it with the lock in hand, and the flag is only set while it
serves.
-/

set_option autoImplicit false
set_option relaxedAutoImplicit false

namespace Nebula.Logging

open Nebula.Library

/-- The thread has the lock. -/
def Caller.Holds : Caller → Prop
  | .retesting _ | .creating _ | .waiting _ _ | .publishing _ _ | .unlocking _ | .deleting
  | .unlockingDeleted => True
  | _ => False

/-- The thread has found no instance, and has not published a new one yet. -/
def Caller.Builds : Caller → Prop
  | .creating _ | .waiting _ _ | .publishing _ _ => True
  | _ => False

/-- The server that the thread has created and not published yet. -/
def Caller.server : Caller → Option ℕ
  | .waiting _ n => some n
  | .publishing _ temp => temp
  | _ => none

/-- The thread is in `destroyInstance`. -/
def Caller.Destroys : Caller → Prop
  | .testing purpose | .locking purpose | .retesting purpose | .creating purpose
  | .waiting purpose _ | .publishing purpose _ | .unlocking purpose | .returning purpose =>
      purpose ≠ .get
  | .settingStopFlag _ | .joining _ | .lockingToDelete | .deleting | .unlockingDeleted => True
  | .outside | .crashed => False

/-- The thread has joined the server thread, and is going to delete the server. -/
def Caller.Joined : Caller → Prop
  | .lockingToDelete | .deleting => True
  | _ => False

theorem Caller.Joined.destroys {c : Caller} (h : c.Joined) : c.Destroys := by
  cases c <;> trivial

theorem Caller.Builds.holds {c : Caller} (h : c.Builds) : c.Holds := by
  cases c <;> trivial

theorem Caller.builds_of_server {c : Caller} {n : ℕ} (h : c.server = some n) : c.Builds := by
  cases c <;> trivial

theorem Caller.ne_waiting {c : Caller} (h : c.server = none) (purpose : Purpose) (n : ℕ) :
    c ≠ .waiting purpose n := by
  rintro rfl
  cases h

/-- The thread has been created, and `routine` has not returned. -/
def Routine.Live : Routine → Prop
  | .starting _ | .settingReady | .serving | .stopping => True
  | _ => False

/-- The thread starts up. -/
def Routine.Early : Routine → Prop
  | .starting _ | .settingReady => True
  | _ => False

theorem Routine.Early.live {r : Routine} (h : r.Early) : r.Live := by
  cases r <;> trivial

namespace Instances

variable {τ : Type*}

/-- A thread waits in `getInstance`, with the lock in hand, for a server whose `routine` has
returned without setting `ready_to_serve_client_`. -/
def Wedged (s : Instances τ) : Prop :=
  ∃ t purpose n, s.uniqInstanceLock = some t ∧ s.caller t = .waiting purpose n ∧
    s.routine n = .returned false

/-- If the action is a start-up call of a server, then it is successful. -/
def StartsUp (s : Instances τ) : InstanceAction τ → Prop
  | .server n ok => ∀ call, s.routine n = .starting call → ok = true
  | _ => True

/-! ### The invariant -/

/-- Where a thread can be, when only `destroyer` calls `destroyInstance`. -/
structure Fits (destroyer : τ) (s : Instances τ) (t : τ) (c : Caller) : Prop where
  holds : c.Holds → s.uniqInstanceLock = some t
  builds : c.Builds → s.uniqInstance = none
  destroys : c.Destroys → t = destroyer
  joining : ∀ n, c = .joining n → s.uniqInstance = some n
  joined : c.Joined → ∃ n served, s.uniqInstance = some n ∧ s.routine n = .returned served

/-- What holds whatever fails: a server that has not returned is published or about to be, as long
as it starts up its creator waits for it, and the flag is only set while it serves. -/
structure Sound (destroyer : τ) (s : Instances τ) : Prop where
  fits : ∀ t, s.Fits destroyer t (s.caller t)
  owned : ∀ n, (s.routine n).Live →
    s.uniqInstance = some n ∨ ∃ t, (s.caller t).server = some n
  awaited : ∀ n, (s.routine n).Early → ∃ t purpose, s.caller t = .waiting purpose n
  ready : s.readyToServeClient = true → ∃ n, s.routine n = .serving
  absent : ∀ n, s.created ≤ n → s.routine n = .absent

variable {destroyer : τ} {s : Instances τ} {t u : τ} {n m : ℕ}

namespace Sound

theorem eq_of_holds (h : s.Sound destroyer) (ht : (s.caller t).Holds) (hu : (s.caller u).Holds) :
    t = u :=
  Option.some.inj (((h.fits t).holds ht).symm.trans ((h.fits u).holds hu))

/-- As long as there is no instance, a server that has not returned belongs to the thread that has
the lock. -/
theorem server_of_live (h : s.Sound destroyer) (ht : (s.caller t).Holds)
    (hnone : s.uniqInstance = none) (hn : (s.routine n).Live) : (s.caller t).server = some n := by
  rcases h.owned n hn with huniq | ⟨u, hu⟩
  · exact absurd (huniq.symm.trans hnone) nofun
  · exact h.eq_of_holds (Caller.builds_of_server hu).holds ht ▸ hu

/-- There is at most one server that has not returned. -/
theorem live_unique (h : s.Sound destroyer) (hn : (s.routine n).Live) (hm : (s.routine m).Live) :
    n = m := by
  rcases h.owned n hn with huniq | ⟨t, ht⟩
  · rcases h.owned m hm with huniq' | ⟨u, hu⟩
    · exact Option.some.inj (huniq.symm.trans huniq')
    · have hnone := (h.fits u).builds (Caller.builds_of_server hu)
      exact absurd (huniq.symm.trans hnone) nofun
  · have hbuilds := Caller.builds_of_server ht
    have hm' := h.server_of_live hbuilds.holds ((h.fits t).builds hbuilds) hm
    exact Option.some.inj (ht.symm.trans hm')

/-- While the flag is set, no server starts up. -/
theorem not_early_of_ready (h : s.Sound destroyer) (hready : s.readyToServeClient = true) :
    ¬ (s.routine n).Early := by
  intro hearly
  obtain ⟨m, hm⟩ := h.ready hready
  have hlive : (s.routine m).Live := by rw [hm]; trivial
  rw [h.live_unique hearly.live hlive, hm] at hearly
  cases hearly

end Sound

theorem sound_fresh (destroyer : τ) : (fresh : Instances τ).Sound destroyer :=
  ⟨fun _ ↦ ⟨nofun, nofun, nofun, nofun, nofun⟩, nofun, nofun, nofun, fun _ _ ↦ rfl⟩

variable [DecidableEq τ]

/-! ### Steps of callers -/

namespace Sound

/-- A step in which a caller goes on, and may change the lock and the pointer. -/
theorem move (h : s.Sound destroyer) {c : Caller} {lock : Option τ} {uniqInstance : Option ℕ}
    {s' : Instances τ}
    (hs' : s' = { s.move t c with uniqInstanceLock := lock, uniqInstance := uniqInstance })
    (hfits : s'.Fits destroyer t c) (hothers : ∀ u, u ≠ t → s'.Fits destroyer u (s.caller u))
    (howned : ∀ n, (s.routine n).Live → s.uniqInstance = some n ∨ (s.caller t).server = some n →
      uniqInstance = some n ∨ c.server = some n)
    (hawaited : ∀ purpose n, s.caller t = .waiting purpose n → ¬ (s.routine n).Early) :
    s'.Sound destroyer := by
  have hself : s'.caller t = c := by
    rw [hs']
    exact Function.update_self ..
  have hother : ∀ u, u ≠ t → s'.caller u = s.caller u := by
    intro u hut
    rw [hs']
    exact Function.update_of_ne hut ..
  have hroutine : s'.routine = s.routine := by rw [hs']; rfl
  have huniq : s'.uniqInstance = uniqInstance := by rw [hs']
  refine ⟨fun u ↦ ?_, fun n hlive ↦ ?_, fun n hearly ↦ ?_, ?_, ?_⟩
  · by_cases hut : u = t
    · rw [hut, hself]
      exact hfits
    · rw [hother u hut]
      exact hothers u hut
  · rw [hroutine] at hlive
    have hown : s.uniqInstance = some n ∨ (s.caller t).server = some n ∨
        ∃ u, u ≠ t ∧ (s.caller u).server = some n := by
      refine (h.owned n hlive).imp_right fun ⟨u, hu⟩ ↦ ?_
      by_cases hut : u = t
      · exact Or.inl (hut ▸ hu)
      · exact Or.inr ⟨u, hut, hu⟩
    rcases or_assoc.mpr hown with hmine | ⟨u, hut, hu⟩
    · rw [huniq]
      exact (howned n hlive hmine).imp_right fun hc ↦ ⟨t, by rw [hself]; exact hc⟩
    · exact Or.inr ⟨u, by rw [hother u hut]; exact hu⟩
  · rw [hroutine] at hearly
    obtain ⟨u, purpose, hu⟩ := h.awaited n hearly
    refine ⟨u, purpose, ?_⟩
    rw [hother u fun hut ↦ hawaited purpose n (hut ▸ hu) hearly]
    exact hu
  · rw [hs']
    exact h.ready
  · rw [hs']
    exact h.absent

/-- A step that leaves the lock and the pointer as they are. -/
theorem go (h : s.Sound destroyer) {c : Caller} (hfits : s.Fits destroyer t c)
    (hserver : ∀ n, (s.caller t).server = some n → c.server = some n)
    (hawaited : ∀ purpose n, s.caller t = .waiting purpose n → ¬ (s.routine n).Early) :
    (s.move t c).Sound destroyer :=
  h.move (c := c) rfl { hfits with } (fun u _ ↦ { h.fits u with })
    (fun n _ hn ↦ hn.imp_right (hserver n)) hawaited

/-- A thread that has no server to publish goes on. -/
theorem go_of_server_eq_none (h : s.Sound destroyer) {c : Caller}
    (hserver : (s.caller t).server = none) (hfits : s.Fits destroyer t c) :
    (s.move t c).Sound destroyer := by
  refine h.go hfits (fun n hn ↦ ?_) fun purpose n hc ↦
    absurd hc (Caller.ne_waiting hserver purpose n)
  rw [hserver] at hn
  cases hn

/-- A thread takes the lock. -/
theorem lock (h : s.Sound destroyer) {c : Caller} (hfree : s.uniqInstanceLock = none)
    (hfits : ({ s.move t c with uniqInstanceLock := some t } : Instances τ).Fits destroyer t c)
    (hserver : (s.caller t).server = none) :
    ({ s.move t c with uniqInstanceLock := some t } : Instances τ).Sound destroyer := by
  refine h.move (c := c) rfl hfits (fun u _ ↦ ?_) (fun n _ hn ↦ ?_)
    fun purpose n hc ↦ absurd hc (Caller.ne_waiting hserver purpose n)
  · have hu := h.fits u
    refine { hu with holds := fun hholds ↦ ?_ }
    exact absurd (hfree.symm.trans (hu.holds hholds)) nofun
  · rw [hserver] at hn
    exact hn.imp_right nofun

/-- The thread that has the lock gives it back. -/
theorem unlock (h : s.Sound destroyer) {c : Caller} (hholds : (s.caller t).Holds)
    (hfits : ({ s.move t c with uniqInstanceLock := none } : Instances τ).Fits destroyer t c)
    (hserver : (s.caller t).server = none) :
    ({ s.move t c with uniqInstanceLock := none } : Instances τ).Sound destroyer := by
  refine h.move (c := c) rfl hfits (fun u hut ↦ ?_) (fun n _ hn ↦ ?_)
    fun purpose n hc ↦ absurd hc (Caller.ne_waiting hserver purpose n)
  · exact { h.fits u with holds := fun hu ↦ absurd (h.eq_of_holds hu hholds) hut }
  · rw [hserver] at hn
    exact hn.imp_right nofun

/-- The thread that has created a server, or has failed to, publishes the pointer. -/
theorem publish (h : s.Sound destroyer) {purpose : Purpose} {temp : Option ℕ}
    (ht : s.caller t = .publishing purpose temp) :
    ({ s.move t (.unlocking purpose) with uniqInstance := temp } : Instances τ).Sound
      destroyer := by
  have hfits := h.fits t
  rw [ht] at hfits
  have hnone : s.uniqInstance = none := hfits.builds trivial
  refine h.move (c := .unlocking purpose) rfl
    ⟨fun _ ↦ hfits.holds trivial, nofun, hfits.destroys, nofun, nofun⟩ (fun u hut ↦ ?_)
    (fun n _ hn ↦ ?_) fun purpose' n hc ↦ absurd (ht.symm.trans hc) nofun
  · have hu := h.fits u
    refine ⟨hu.holds, fun hbuilds ↦ ?_, hu.destroys, fun n hjoining ↦ ?_, fun hjoined ↦ ?_⟩
    · exact absurd (h.eq_of_holds hbuilds.holds (by rw [ht]; trivial)) hut
    · exact absurd ((hu.joining n hjoining).symm.trans hnone) nofun
    · obtain ⟨n, -, huniq, -⟩ := hu.joined hjoined
      exact absurd (huniq.symm.trans hnone) nofun
  · rw [ht, hnone] at hn
    exact Or.inl (hn.resolve_left nofun)

/-- `destroyInstance` deletes a server whose thread it has joined. -/
theorem delete (h : s.Sound destroyer) (ht : s.caller t = .deleting) :
    ({ s.move t .unlockingDeleted with uniqInstance := none } : Instances τ).Sound destroyer := by
  have hfits := h.fits t
  rw [ht] at hfits
  obtain ⟨n, served, huniq, hreturned⟩ := hfits.joined trivial
  refine h.move (c := .unlockingDeleted) rfl
    ⟨fun _ ↦ hfits.holds trivial, nofun, hfits.destroys, nofun, nofun⟩ (fun u hut ↦ ?_)
    (fun m hlive hm ↦ ?_) fun purpose n hc ↦ absurd (ht.symm.trans hc) nofun
  · have hu := h.fits u
    have hnot : ¬ (s.caller u).Destroys := fun hdestroys ↦
      hut ((hu.destroys hdestroys).trans (hfits.destroys trivial).symm)
    refine ⟨hu.holds, fun _ ↦ rfl, hu.destroys, fun m hjoining ↦ absurd ?_ hnot, fun hjoined ↦
      absurd ?_ hnot⟩
    · rw [hjoining]
      trivial
    · exact hjoined.destroys
  · rw [ht, huniq] at hm
    obtain rfl := Option.some.inj (hm.resolve_right nofun)
    rw [hreturned] at hlive
    cases hlive

/-- The thread that has found no instance creates a server. -/
theorem create (h : s.Sound destroyer) {purpose : Purpose} (ht : s.caller t = .creating purpose) :
    (s.create.move t (.waiting purpose s.created)).Sound destroyer := by
  have hfits := h.fits t
  rw [ht] at hfits
  have hnone : s.uniqInstance = none := hfits.builds trivial
  -- no server is left from before
  have hdead : ∀ n, ¬ (s.routine n).Live := by
    intro n hlive
    have hserver := h.server_of_live (t := t) (by rw [ht]; trivial) hnone hlive
    rw [ht] at hserver
    cases hserver
  have hroutine : ∀ n, n ≠ s.created → s.create.routine n = s.routine n := fun n hn ↦
    Function.update_of_ne hn ..
  have hself : (s.create.move t (.waiting purpose s.created)).caller t =
      .waiting purpose s.created := Function.update_self ..
  have hold : ∀ n, (s.create.routine n).Live → n = s.created := by
    intro n hlive
    by_contra hn
    rw [hroutine n hn] at hlive
    exact hdead n hlive
  refine ⟨fun u ↦ ?_, fun n hlive ↦ Or.inr ⟨t, ?_⟩, fun n hearly ↦ ⟨t, purpose, ?_⟩,
    fun hready ↦ ?_,
    fun n hn ↦ ?_⟩
  · by_cases hut : u = t
    · rw [hut, hself]
      exact ⟨fun _ ↦ hfits.holds trivial, fun _ ↦ hnone, hfits.destroys, nofun, nofun⟩
    · have hu := h.fits u
      have hcaller : (s.create.move t (.waiting purpose s.created)).caller u = s.caller u :=
        Function.update_of_ne hut ..
      rw [hcaller]
      refine ⟨hu.holds, hu.builds, hu.destroys, hu.joining, fun hjoined ↦ ?_⟩
      obtain ⟨n, -, huniq, -⟩ := hu.joined hjoined
      exact absurd (huniq.symm.trans hnone) nofun
  · rw [hself, hold n hlive]
    rfl
  · rw [hself, hold n hearly.live]
  · obtain ⟨n, hn⟩ := h.ready hready
    exact absurd (by rw [hn]; trivial) (hdead n)
  · have hlt : s.created + 1 ≤ n := hn
    change s.create.routine n = .absent
    rw [hroutine n (by omega)]
    exact h.absent n (by omega)

end Sound

omit [DecidableEq τ] in
/-- A thread that has got the pointer. -/
theorem fits_received {purpose : Purpose} (hdestroys : purpose ≠ .get → t = destroyer) :
    s.Fits destroyer t (received s.uniqInstance purpose) := by
  cases purpose with
  | get => exact ⟨nofun, nofun, nofun, nofun, nofun⟩
  | setStopFlag =>
    cases s.uniqInstance with
    | none => exact ⟨nofun, nofun, nofun, nofun, nofun⟩
    | some n => exact ⟨nofun, nofun, fun _ ↦ hdestroys nofun, nofun, nofun⟩
  | join =>
    cases huniq : s.uniqInstance with
    | none => exact ⟨nofun, nofun, nofun, nofun, nofun⟩
    | some n =>
      refine ⟨nofun, nofun, fun _ ↦ hdestroys nofun, fun m hm ↦ ?_, nofun⟩
      cases hm
      exact huniq

/-- Every step of a caller. -/
theorem sound_callerStep (h : s.Sound destroyer) {ok : Bool} {s' : Instances τ}
    (hstep : s.callerStep t ok = some s') : s'.Sound destroyer := by
  have hfits := h.fits t
  unfold callerStep at hstep
  cases hc : s.caller t with
  | outside =>
    rw [hc] at hstep
    cases hstep
  | testing purpose =>
    rw [hc] at hstep hfits
    cases hstep
    refine h.go_of_server_eq_none (by rw [hc]; rfl) ?_
    split_ifs <;> exact ⟨nofun, nofun, hfits.destroys, nofun, nofun⟩
  | locking purpose =>
    simp only [hc] at hstep hfits
    split_ifs at hstep with hfree
    cases hstep
    refine h.lock hfree ?_ (by rw [hc]; rfl)
    exact ⟨fun _ ↦ rfl, nofun, hfits.destroys, nofun, nofun⟩
  | retesting purpose =>
    rw [hc] at hstep hfits
    cases hstep
    refine h.go_of_server_eq_none (by rw [hc]; rfl) ?_
    split_ifs with hnone
    · exact ⟨fun _ ↦ hfits.holds trivial, fun _ ↦ hnone, hfits.destroys, nofun, nofun⟩
    · exact ⟨fun _ ↦ hfits.holds trivial, nofun, hfits.destroys, nofun, nofun⟩
  | creating purpose =>
    simp only [hc] at hstep hfits
    split_ifs at hstep
    · cases hstep
      exact h.create hc
    · cases hstep
      refine h.go_of_server_eq_none (by rw [hc]; rfl) ?_
      exact ⟨fun _ ↦ hfits.holds trivial, fun _ ↦ hfits.builds trivial, hfits.destroys,
        nofun, nofun⟩
  | waiting purpose n =>
    rw [hc] at hstep hfits
    cases hstep
    split_ifs with hready
    · refine h.go ?_ (by rw [hc]; exact fun _ hn ↦ hn) fun _ _ _ ↦ h.not_early_of_ready hready
      exact ⟨fun _ ↦ hfits.holds trivial, fun _ ↦ hfits.builds trivial, hfits.destroys,
        nofun, nofun⟩
    · exact h
  | publishing purpose temp =>
    rw [hc] at hstep
    cases hstep
    exact h.publish hc
  | unlocking purpose =>
    rw [hc] at hstep hfits
    cases hstep
    refine h.unlock (by rw [hc]; trivial) ?_ (by rw [hc]; rfl)
    exact ⟨nofun, nofun, hfits.destroys, nofun, nofun⟩
  | returning purpose =>
    rw [hc] at hstep hfits
    cases hstep
    refine h.go_of_server_eq_none (by rw [hc]; rfl) ?_
    exact fits_received hfits.destroys
  | settingStopFlag n =>
    rw [hc] at hstep hfits
    cases hstep
    have hgo : (s.move t (.testing .join)).Sound destroyer := by
      refine h.go_of_server_eq_none (by rw [hc]; rfl) ?_
      exact ⟨nofun, nofun, fun _ ↦ hfits.destroys trivial, nofun, nofun⟩
    exact ⟨fun u ↦ { hgo.fits u with }, hgo.owned, hgo.awaited, hgo.ready, hgo.absent⟩
  | joining n =>
    simp only [hc] at hstep hfits
    split at hstep
    · rename_i served hreturned
      cases hstep
      refine h.go_of_server_eq_none (by rw [hc]; rfl) ?_
      exact ⟨nofun, nofun, fun _ ↦ hfits.destroys trivial, nofun,
        fun _ ↦ ⟨n, served, hfits.joining n rfl, hreturned⟩⟩
    · cases hstep
  | lockingToDelete =>
    simp only [hc] at hstep hfits
    split_ifs at hstep with hfree
    cases hstep
    refine h.lock hfree ?_ (by rw [hc]; rfl)
    exact ⟨fun _ ↦ rfl, nofun, fun _ ↦ hfits.destroys trivial, nofun, fun _ ↦ hfits.joined trivial⟩
  | deleting =>
    rw [hc] at hstep
    cases hstep
    exact h.delete hc
  | unlockingDeleted =>
    rw [hc] at hstep
    cases hstep
    refine h.unlock (by rw [hc]; trivial) ?_ (by rw [hc]; rfl)
    exact ⟨nofun, nofun, nofun, nofun, nofun⟩
  | crashed =>
    rw [hc] at hstep
    cases hstep

/-! ### Steps of servers -/

omit [DecidableEq τ] in
/-- A server thread goes on. -/
theorem Sound.setRoutine (h : s.Sound destroyer) {r : Routine} {ready : Bool}
    (hrunning : (s.routine n).Live) (hlive : r.Live → (s.routine n).Live)
    (hearly : r.Early → (s.routine n).Early)
    (hready : ready = true → r = .serving ∨ s.readyToServeClient = true ∧ s.routine n ≠ .serving) :
    ({ s.setRoutine n r with readyToServeClient := ready } : Instances τ).Sound destroyer := by
  have hself : (s.setRoutine n r).routine n = r := Function.update_self ..
  have hother : ∀ m, m ≠ n → (s.setRoutine n r).routine m = s.routine m := fun m hm ↦
    Function.update_of_ne hm ..
  refine ⟨fun u ↦ ?_, fun m hm ↦ ?_, fun m hm ↦ ?_, fun hset ↦ ?_, fun m hm ↦ ?_⟩
  · have hu := h.fits u
    refine ⟨hu.holds, hu.builds, hu.destroys, hu.joining, fun hjoined ↦ ?_⟩
    obtain ⟨m, served, huniq, hreturned⟩ := hu.joined hjoined
    refine ⟨m, served, huniq, (hother m ?_).trans hreturned⟩
    rintro rfl
    rw [hreturned] at hrunning
    cases hrunning
  · change ((s.setRoutine n r).routine m).Live at hm
    by_cases hmn : m = n
    · rw [hmn, hself] at hm
      exact hmn ▸ h.owned n (hlive hm)
    · rw [hother m hmn] at hm
      exact h.owned m hm
  · change ((s.setRoutine n r).routine m).Early at hm
    by_cases hmn : m = n
    · rw [hmn, hself] at hm
      exact hmn ▸ h.awaited n (hearly hm)
    · rw [hother m hmn] at hm
      exact h.awaited m hm
  · rcases hready hset with hserving | ⟨hset', hnot⟩
    · exact ⟨n, hself.trans hserving⟩
    · obtain ⟨m, hm⟩ := h.ready hset'
      exact ⟨m, (hother m fun hmn ↦ hnot (hmn ▸ hm)).trans hm⟩
  · have habsent := h.absent m hm
    refine (hother m ?_).trans habsent
    rintro rfl
    rw [habsent] at hrunning
    cases hrunning

omit [DecidableEq τ] in
theorem sound_serverStep (h : s.Sound destroyer) {ok : Bool} {s' : Instances τ}
    (hstep : s.serverStep n ok = some s') : s'.Sound destroyer := by
  unfold serverStep at hstep
  cases hr : s.routine n with
  | absent =>
    rw [hr] at hstep
    cases hstep
  | starting call =>
    rw [hr] at hstep
    cases hstep
    refine h.setRoutine (by rw [hr]; trivial) (by rw [hr]; exact fun _ ↦ trivial)
      (by rw [hr]; exact fun _ ↦ trivial) fun hset ↦ Or.inr ⟨hset, by rw [hr]; nofun⟩
  | settingReady =>
    rw [hr] at hstep
    cases hstep
    exact h.setRoutine (by rw [hr]; trivial) (by rw [hr]; exact fun _ ↦ trivial) nofun
      fun _ ↦ Or.inl rfl
  | serving =>
    rw [hr] at hstep
    cases hstep
    split_ifs
    · exact h.setRoutine (by rw [hr]; trivial) (by rw [hr]; exact fun _ ↦ trivial) nofun nofun
    · exact h
  | stopping =>
    rw [hr] at hstep
    cases hstep
    exact h.setRoutine (by rw [hr]; trivial) nofun nofun
      fun hset ↦ Or.inr ⟨hset, by rw [hr]; nofun⟩
  | returned served =>
    rw [hr] at hstep
    cases hstep

/-! ### Runs -/

theorem sound_next (h : s.Sound destroyer) {action : InstanceAction τ} {s' : Instances τ}
    (hnext : next destroyer s action = some s') : s'.Sound destroyer := by
  cases action with
  | getInstance t =>
    simp only [next] at hnext
    split_ifs at hnext with hc
    cases hnext
    refine h.go_of_server_eq_none (by rw [hc]; rfl) ?_
    exact ⟨nofun, nofun, fun hget ↦ absurd rfl hget, nofun, nofun⟩
  | destroyInstance =>
    simp only [next] at hnext
    split_ifs at hnext with hc
    cases hnext
    refine h.go_of_server_eq_none (by rw [hc]; rfl) ?_
    exact ⟨nofun, nofun, fun _ ↦ rfl, nofun, nofun⟩
  | caller t ok => exact sound_callerStep h hnext
  | server n ok => exact sound_serverStep h hnext

/-- No server has returned without setting the flag. -/
def AllServed (s : Instances τ) : Prop := ∀ n, s.routine n ≠ .returned false

omit [DecidableEq τ] in
theorem AllServed.setRoutine (h : s.AllServed) (n : ℕ) {r : Routine} (hr : r ≠ .returned false) :
    (s.setRoutine n r).AllServed := by
  intro m
  change Function.update s.routine n r m ≠ _
  rw [Function.update_apply]
  split_ifs
  · exact hr
  · exact h m

/-- A caller creates servers, and does nothing else to them. -/
theorem AllServed.callerStep (h : s.AllServed) {ok : Bool} {s' : Instances τ}
    (hstep : s.callerStep t ok = some s') : s'.AllServed := by
  unfold Instances.callerStep at hstep
  split at hstep
  case h_5 =>
    split_ifs at hstep <;> cases hstep
    · exact h.setRoutine s.created (r := .starting .socket) nofun
    · exact h
  case h_6 =>
    cases hstep
    split_ifs <;> exact h
  case h_11 =>
    split at hstep <;> cases hstep
    exact h
  all_goals first | cases hstep | (split_ifs at hstep; cases hstep)
  all_goals exact h

theorem AllServed.next (h : s.AllServed) {action : InstanceAction τ} {s' : Instances τ}
    (hstarts : s.StartsUp action) (hnext : Instances.next destroyer s action = some s') :
    s'.AllServed := by
  cases action with
  | getInstance t =>
    simp only [Instances.next] at hnext
    split_ifs at hnext
    cases hnext
    exact h
  | destroyInstance =>
    simp only [Instances.next] at hnext
    split_ifs at hnext
    cases hnext
    exact h
  | caller t ok => exact h.callerStep hnext
  | server n ok =>
    change s.serverStep n ok = some s' at hnext
    unfold serverStep at hnext
    split at hnext <;> cases hnext
    · rename_i call hcall
      rw [if_pos (hstarts call hcall)]
      refine h.setRoutine n ?_
      cases call <;> nofun
    · exact h.setRoutine n (r := .serving) nofun
    · split_ifs
      · exact h.setRoutine n (r := .stopping) nofun
      · exact h
    · exact h.setRoutine n (r := .returned true) nofun

/-- A start-up call that fails leaves the creator of its server waiting. -/
theorem wedged_of_not_startsUp (h : s.Sound destroyer) {action : InstanceAction τ}
    (hfails : ¬ s.StartsUp action) :
    ∃ s', Instances.next destroyer s action = some s' ∧ s'.Wedged := by
  cases action with
  | server n ok =>
    obtain ⟨call, hcall⟩ := Classical.not_forall.mp hfails
    obtain ⟨hcall, hok⟩ := Classical.not_imp.mp hcall
    obtain ⟨t, purpose, ht⟩ := h.awaited n (by rw [hcall]; trivial)
    have hlock := (h.fits t).holds (by rw [ht]; trivial)
    refine ⟨s.setRoutine n (.returned false), ?_, t, purpose, n, hlock, ht, Function.update_self ..⟩
    change s.serverStep n ok = _
    rw [serverStep, hcall]
    simp only [if_neg hok]
  | _ => exact absurd trivial hfails

/-- For every interleaving of any number of callers of `getInstance`, of a thread that calls
`destroyInstance`, and of the server threads: no state on the way is wedged exactly if no start-up
call of a server fails. -/
theorem neverWedged_iff (destroyer : τ) (actions : List (InstanceAction τ)) :
    System.Always (next destroyer) (fun s ↦ ¬ s.Wedged) fresh actions ↔
      System.Meets (next destroyer) StartsUp fresh actions := by
  refine System.always_iff_meets (I := Sound destroyer) (J := AllServed)
    (fun _ _ _ h hnext ↦ sound_next h hnext) (fun _ _ _ h hstarts hnext ↦ h.next hstarts hnext)
    (fun s h ↦ ?_) (fun s a h hfails ↦ ?_) (sound_fresh destroyer) (fun _ ↦ nofun)
  · rintro ⟨t, purpose, n, -, -, hreturned⟩
    exact h n hreturned
  · obtain ⟨s', hnext, hwedged⟩ := wedged_of_not_startsUp h hfails
    exact ⟨s', hnext, not_not.mpr hwedged⟩

/-- The first thread creates the server, and `socket` fails. -/
def socketFails : List (InstanceAction ℕ) :=
  [.getInstance 0, .caller 0 true, .caller 0 true, .caller 0 true, .caller 0 true, .server 0 false]

theorem not_neverWedged_socketFails :
    ¬ System.Always (next 1) (fun s ↦ ¬ s.Wedged) (fresh : Instances ℕ) socketFails := by
  intro halways
  exact halways 6 _ rfl ⟨0, .get, 0, rfl, rfl, rfl⟩

end Instances

end Nebula.Logging
