import Nebula.Library.Transition
import Mathlib.Data.Int.Notation
import Mathlib.Data.List.Nodup
import Mathlib.Logic.Function.Basic

/-!
A service that is told to ring at given times. An alarm is set for a time and with some data, under
an identity that is used for no other alarm, or the service refuses to set it. It may ring in a
round whose clock reading is not before the time; while it rings it may be cancelled like any other,
and when it has rung it is settled: it is forgotten, or pending again some time after the clock
reading of the round.

What this means is a matter of the trace alone, of what the service has been told and when it has
rung (`Punctual`): the first time an alarm rings is for the time and with the data it was set for,
every further time is for the time it was last settled for, never earlier, and an alarm that has
been cancelled, or settled for good, does not ring again. Every trace of the service is punctual
(`punctual_of_run`).
-/

set_option autoImplicit false
set_option relaxedAutoImplicit false

namespace Nebula.Library

/-- The state of the service: the alarms that are pending, with their times, the identities that
have been used, the clock reading of the round, and the alarm that is ringing. -/
structure Alarms (ι δ : Type*) where
  pending : ι → Option (ℤ × δ)
  used : ι → Bool
  now : ℤ
  ringing : Option ι

namespace Alarms

variable {ι δ : Type*}

/-- What the service is told and does. A cancellation shows whether the alarm was pending. -/
inductive Action (ι δ : Type*) where
  | set (id : ι) (now : ℤ) (delay : ℕ) (data : δ)
  | refuse (delay : ℕ) (data : δ)
  | cancel (id : ι) (found : Bool)
  | look (now : ℤ)
  | round (now : ℤ)
  | ring (id : ι) (now : ℤ) (alarm : ℤ × δ)
  | settle (id : ι) (again : ℕ)

/-- Nothing has been set yet. -/
def empty : Alarms ι δ := ⟨fun _ ↦ none, fun _ ↦ false, 0, none⟩

/-- The alarm is the one that is pending under the identity, and is due in this round. -/
def MayRing (s : Alarms ι δ) (id : ι) (now : ℤ) (alarm : ℤ × δ) : Prop :=
  s.ringing = none ∧ s.now = now ∧ s.pending id = some alarm ∧ alarm.1 ≤ now

variable [DecidableEq ι]

/-- The pending alarms after one has been settled. -/
def settled (s : Alarms ι δ) (id : ι) (again : ℕ) : ι → Option (ℤ × δ) :=
  Function.update s.pending id
    (if again = 0 then none else (s.pending id).map fun alarm ↦ (s.now + again, alarm.2))

open scoped Classical in
/-- The service. -/
noncomputable def service : System (Alarms ι δ) (Action ι δ) := fun s a ↦
  match a with
  | .set id now delay data =>
      if s.used id = true then none
      else some { s with
        pending := Function.update s.pending id (some (now + delay, data))
        used := Function.update s.used id true }
  | .refuse _ _ => some s
  | .cancel id found =>
      if (s.pending id).isSome = found then
        some { s with pending := Function.update s.pending id none }
      else none
  | .look _ => some s
  | .round now => if s.ringing = none then some { s with now := now } else none
  | .ring id now alarm =>
      if s.MayRing id now alarm then some { s with ringing := some id } else none
  | .settle id again =>
      if s.ringing = some id then
        some { s with pending := s.settled id again, ringing := none }
      else none

/-! ### What a trace shows -/

/-- The alarm does not ring in the trace. -/
def Silent (id : ι) (trace : List (Action ι δ)) : Prop := ∀ now alarm, .ring id now alarm ∉ trace

/-- The identity that an alarm is set under. -/
def Action.setId : Action ι δ → Option ι
  | .set id _ _ _ => some id
  | _ => none

/-- After the action the alarm is not pending. -/
def Action.Ends (id : ι) : Action ι δ → Prop
  | .cancel id' _ => id' = id
  | .settle id' again => id' = id ∧ again = 0
  | _ => False

/-- Alarms ring for the times they are set and settled for, not before them, and not otherwise. -/
structure Punctual (trace : List (Action ι δ)) : Prop where
  once : (trace.filterMap Action.setId).Nodup
  first : ∀ (before after : List (Action ι δ)) (id : ι) (now : ℤ) (alarm : ℤ × δ),
    trace = before ++ .ring id now alarm :: after → Silent id before →
      ∃ (start : ℤ) (delay : ℕ), .set id start delay alarm.2 ∈ before ∧
        alarm.1 = start + delay ∧ alarm.1 ≤ now
  again : ∀ (before mid after : List (Action ι δ)) (id : ι) (now now' : ℤ) (alarm alarm' : ℤ × δ),
    trace = before ++ .ring id now alarm :: (mid ++ .ring id now' alarm' :: after) →
      Silent id mid → ∃ again : ℕ, again ≠ 0 ∧ .settle id again ∈ mid ∧
        alarm' = (now + again, alarm.2) ∧ alarm'.1 ≤ now'
  gone : ∀ (before mid after : List (Action ι δ)) (id : ι) (now : ℤ) (delay : ℕ) (data : δ)
    (a : Action ι δ), trace = before ++ .set id now delay data :: (mid ++ a :: after) →
      a.Ends id → Silent id after

/-! ### One action -/

section Step

variable {s t : Alarms ι δ} {a : Action ι δ} {id : ι}

theorem service_ring {now : ℤ} {alarm : ℤ × δ} :
    service s (.ring id now alarm) = some t ↔
      s.MayRing id now alarm ∧ t = { s with ringing := some id } := by
  simp only [service]
  split_ifs with hmay
  · simp [hmay, eq_comm]
  · simp [hmay]

theorem service_settle {again : ℕ} :
    service s (.settle id again) = some t ↔
      s.ringing = some id ∧ t = { s with pending := s.settled id again, ringing := none } := by
  simp only [service]
  split_ifs with hringing
  · simp [hringing, eq_comm]
  · simp [hringing]

theorem service_set {now : ℤ} {delay : ℕ} {data : δ} :
    service s (.set id now delay data) = some t ↔
      s.used id = false ∧ t = { s with
        pending := Function.update s.pending id (some (now + delay, data))
        used := Function.update s.used id true } := by
  simp only [service]
  split_ifs with hused
  · simp [hused]
  · simp [hused, eq_comm]

theorem service_round {now : ℤ} :
    service s (.round now) = some t ↔ s.ringing = none ∧ t = { s with now := now } := by
  simp only [service]
  split_ifs with hringing
  · simp [hringing, eq_comm]
  · simp [hringing]

theorem service_cancel {found : Bool} :
    service s (.cancel id found) = some t ↔
      (s.pending id).isSome = found ∧
        t = { s with pending := Function.update s.pending id none } := by
  simp only [service]
  split_ifs with hfound
  · simp [hfound, eq_comm]
  · simp [hfound]

theorem service_refuse {delay : ℕ} {data : δ} (h : service s (.refuse delay data) = some t) :
    t = s :=
  (Option.some.inj h).symm

theorem service_look {now : ℤ} (h : service s (.look now) = some t) : t = s :=
  (Option.some.inj h).symm

/-- What an action can do to the time of an alarm. -/
theorem pending_cases (h : service s a = some t) (id : ι) :
    t.pending id = s.pending id ∨ t.pending id = none ∨
      (∃ now delay data, a = .set id now delay data ∧
          t.pending id = some (now + (delay : ℕ), data)) ∨
        ∃ again : ℕ, again ≠ 0 ∧ a = .settle id again ∧ s.ringing = some id ∧
          t.pending id = (s.pending id).map fun alarm ↦ (s.now + again, alarm.2) := by
  cases a with
  | set id' now delay data =>
    obtain ⟨-, rfl⟩ := service_set.mp h
    by_cases heq : id = id'
    · subst heq
      exact Or.inr (Or.inr (Or.inl ⟨now, delay, data, rfl, Function.update_self ..⟩))
    · exact Or.inl (Function.update_of_ne heq ..)
  | refuse delay data =>
    rw [service_refuse h]
    exact Or.inl rfl
  | cancel id' found =>
    obtain ⟨-, rfl⟩ := service_cancel.mp h
    by_cases heq : id = id'
    · subst heq
      exact Or.inr (Or.inl (Function.update_self ..))
    · exact Or.inl (Function.update_of_ne heq ..)
  | look now =>
    rw [service_look h]
    exact Or.inl rfl
  | round now =>
    obtain ⟨-, rfl⟩ := service_round.mp h
    exact Or.inl rfl
  | ring id' now alarm =>
    obtain ⟨-, rfl⟩ := service_ring.mp h
    exact Or.inl rfl
  | settle id' again =>
    obtain ⟨hringing, rfl⟩ := service_settle.mp h
    by_cases heq : id = id'
    · subst heq
      have hsettled : s.settled id again id = _ := Function.update_self ..
      by_cases hzero : again = 0
      · rw [if_pos hzero] at hsettled
        exact Or.inr (Or.inl hsettled)
      · rw [if_neg hzero] at hsettled
        exact Or.inr (Or.inr (Or.inr ⟨again, hzero, rfl, hringing, hsettled⟩))
    · exact Or.inl (Function.update_of_ne heq ..)

/-- An alarm begins to ring, goes on ringing in the same round, is settled, or does not ring. -/
theorem ringing_cases (h : service s a = some t) (id : ι) :
    (∃ now alarm, a = .ring id now alarm) ∨
      (t.ringing = some id ∧ s.ringing = some id ∧ t.now = s.now ∧ ∀ again, a ≠ .settle id again) ∨
        (∃ again, a = .settle id again) ∨ (t.ringing ≠ some id ∧ s.ringing ≠ some id) := by
  have hsame : t.ringing = s.ringing → t.now = s.now → (∀ again, a ≠ .settle id again) →
      (t.ringing = some id ∧ s.ringing = some id ∧ t.now = s.now ∧ ∀ again, a ≠ .settle id again) ∨
        (∃ again, a = .settle id again) ∨ (t.ringing ≠ some id ∧ s.ringing ≠ some id) := by
    intro hringing hnow hnot
    rw [hringing]
    by_cases hid : s.ringing = some id
    · exact Or.inl ⟨hid, hid, hnow, hnot⟩
    · exact Or.inr (Or.inr ⟨hid, hid⟩)
  cases a with
  | set id' now delay data =>
    obtain ⟨-, rfl⟩ := service_set.mp h
    exact Or.inr (hsame rfl rfl (by simp))
  | refuse delay data =>
    rw [service_refuse h] at hsame ⊢
    exact Or.inr (hsame rfl rfl (by simp))
  | cancel id' found =>
    obtain ⟨-, rfl⟩ := service_cancel.mp h
    exact Or.inr (hsame rfl rfl (by simp))
  | look now =>
    rw [service_look h] at hsame ⊢
    exact Or.inr (hsame rfl rfl (by simp))
  | round now =>
    obtain ⟨hnone, rfl⟩ := service_round.mp h
    exact Or.inr (Or.inr (Or.inr (by simp [hnone])))
  | ring id' now alarm =>
    obtain ⟨⟨hnone, -⟩, rfl⟩ := service_ring.mp h
    by_cases heq : id' = id
    · exact Or.inl ⟨now, alarm, by rw [heq]⟩
    · exact Or.inr (Or.inr (Or.inr ⟨fun hid ↦ heq (Option.some.inj hid), by simp [hnone]⟩))
  | settle id' again =>
    obtain ⟨hringing, rfl⟩ := service_settle.mp h
    by_cases heq : id' = id
    · exact Or.inr (Or.inr (Or.inl ⟨again, by rw [heq]⟩))
    · refine Or.inr (Or.inr (Or.inr ⟨by simp, fun hid ↦ heq ?_⟩))
      exact Option.some.inj (hringing.symm.trans hid)

/-- An identity stays used, and is not used again. -/
theorem used_step (h : service s a = some t) (hused : s.used id = true) :
    t.used id = true ∧ a.setId ≠ some id := by
  cases a with
  | set id' now delay data =>
    obtain ⟨hfree, rfl⟩ := service_set.mp h
    have hne : id ≠ id' := by
      rintro rfl
      rw [hused] at hfree
      cases hfree
    exact ⟨(Function.update_of_ne hne ..).trans hused, fun heq ↦ hne (Option.some.inj heq).symm⟩
  | refuse delay data =>
    rw [service_refuse h]
    exact ⟨hused, Option.some_ne_none _ ∘ Eq.symm⟩
  | cancel id' found =>
    obtain ⟨-, rfl⟩ := service_cancel.mp h
    exact ⟨hused, Option.some_ne_none _ ∘ Eq.symm⟩
  | look now =>
    rw [service_look h]
    exact ⟨hused, Option.some_ne_none _ ∘ Eq.symm⟩
  | round now =>
    obtain ⟨-, rfl⟩ := service_round.mp h
    exact ⟨hused, Option.some_ne_none _ ∘ Eq.symm⟩
  | ring id' now alarm =>
    obtain ⟨-, rfl⟩ := service_ring.mp h
    exact ⟨hused, Option.some_ne_none _ ∘ Eq.symm⟩
  | settle id' again =>
    obtain ⟨-, rfl⟩ := service_settle.mp h
    exact ⟨hused, Option.some_ne_none _ ∘ Eq.symm⟩

end Step

/-! ### Every run -/

section Run

variable {s t : Alarms ι δ} {actions trace : List (Action ι δ)} {id : ι}

/-- An alarm that is pending has been set. -/
theorem used_of_pending (h : service.run empty trace = some s) (hpending : s.pending id ≠ none) :
    s.used id = true := by
  refine System.run_invariant (I := fun s : Alarms ι δ ↦ s.pending id ≠ none → s.used id = true)
    ?_ (fun hnone ↦ absurd rfl hnone) h hpending
  intro s a s' hs hstep hpending'
  by_cases hused : s.used id = true
  · exact (used_step hstep hused).1
  · have hnone : s.pending id = none := by_contra fun hne ↦ hused (hs hne)
    rcases pending_cases hstep id with heq | heq | ⟨now, delay, data, rfl, -⟩ |
        ⟨again, -, -, -, heq⟩
    · exact absurd (heq.trans hnone) hpending'
    · exact absurd heq hpending'
    · obtain ⟨-, rfl⟩ := service_set.mp hstep
      exact Function.update_self ..
    · exact absurd (heq.trans (by rw [hnone]; rfl)) hpending'

theorem used_of_run (h : service.run s actions = some t) (hused : s.used id = true) :
    t.used id = true :=
  System.run_invariant (I := fun s : Alarms ι δ ↦ s.used id = true)
    (fun _ _ _ hs hstep ↦ (used_step hstep hs).1) hused h

/-- No identity is used twice. -/
theorem nodup_setIds (h : service.run s actions = some t) :
    (actions.filterMap Action.setId).Nodup ∧
      ∀ id ∈ actions.filterMap Action.setId, s.used id = false := by
  induction actions generalizing s with
  | nil => exact ⟨List.nodup_nil, by simp⟩
  | cons a rest ih =>
    obtain ⟨s', hstep, hrest⟩ := System.run_cons h
    obtain ⟨hnodup, hfree⟩ := ih hrest
    have hfree' : ∀ id ∈ rest.filterMap Action.setId, s.used id = false := by
      intro id hid
      by_contra hused
      have hused' := (used_step hstep (Bool.not_eq_false _ ▸ hused)).1
      rw [hfree id hid] at hused'
      cases hused'
    cases hset : a.setId with
    | none =>
      rw [List.filterMap_cons_none hset]
      exact ⟨hnodup, hfree'⟩
    | some id =>
      rw [List.filterMap_cons_some hset]
      cases a with
      | set id' now delay data =>
        cases hset
        obtain ⟨hunused, rfl⟩ := service_set.mp hstep
        refine ⟨List.nodup_cons.mpr ⟨fun hmem ↦ ?_, hnodup⟩, ?_⟩
        · have hused := (Function.update_self ..).symm.trans (hfree _ hmem)
          cases hused
        · exact List.forall_mem_cons.mpr ⟨hunused, hfree'⟩
      | _ => cases hset

/-- An alarm that is used and not pending never rings again. -/
theorem silent_of_gone (h : service.run s actions = some t) (hused : s.used id = true)
    (hgone : s.pending id = none) : Silent id actions := by
  induction actions generalizing s with
  | nil => exact fun _ _ ↦ List.not_mem_nil
  | cons a rest ih =>
    obtain ⟨s', hstep, hrest⟩ := System.run_cons h
    obtain ⟨hused', hnot⟩ := used_step hstep hused
    have hgone' : s'.pending id = none := by
      rcases pending_cases hstep id with heq | heq | ⟨now, delay, data, rfl, -⟩ |
          ⟨again, -, -, -, heq⟩
      · exact heq.trans hgone
      · exact heq
      · exact absurd rfl hnot
      · rw [heq, hgone]
        rfl
    intro now alarm hmem
    rcases List.mem_cons.mp hmem with rfl | hlater
    · obtain ⟨⟨-, -, hpending, -⟩, -⟩ := service_ring.mp hstep
      rw [hgone] at hpending
      cases hpending
    · exact ih hrest hused' hgone' now alarm hlater

/-- None of the actions of a silent trace is the alarm ringing. -/
theorem Silent.meets (h : Silent id actions) (s : Alarms ι δ) :
    service.Meets (fun _ a ↦ a ∈ actions ∧ ∀ now alarm, a ≠ .ring id now alarm) s actions := by
  refine System.meets_of_forall_mem (P := fun a ↦ a ∈ actions ∧ ∀ now alarm, a ≠ .ring id now alarm)
    (fun a ha ↦ ⟨ha, ?_⟩) s
  rintro now alarm rfl
  exact h now alarm ha

/-- An alarm that has not rung yet is pending as it was set. -/
theorem pending_of_silent (h : service.run empty trace = some s) (hsilent : Silent id trace)
    {alarm : ℤ × δ} (halarm : s.pending id = some alarm) :
    ∃ (start : ℤ) (delay : ℕ), .set id start delay alarm.2 ∈ trace ∧ alarm.1 = start + delay := by
  have hmeets := hsilent.meets empty
  refine (System.run_meets (I := fun s : Alarms ι δ ↦ s.ringing ≠ some id ∧ ∀ alarm,
    s.pending id = some alarm → ∃ (start : ℤ) (delay : ℕ),
      .set id start delay alarm.2 ∈ trace ∧ alarm.1 = start + delay) ?_ ?_ hmeets h).2 alarm halarm
  · rintro s a s' ⟨hringing, hpending⟩ ⟨hmem, hnot⟩ hstep
    constructor
    · rcases ringing_cases hstep id with ⟨now, alarm, rfl⟩ | ⟨-, hringing', -⟩ | ⟨again, rfl⟩ |
          ⟨hringing', -⟩
      · exact absurd rfl (hnot now alarm)
      · exact absurd hringing' hringing
      · exact absurd (service_settle.mp hstep).1 hringing
      · exact hringing'
    · intro alarm halarm
      rcases pending_cases hstep id with heq | heq | ⟨now, delay, data, rfl, heq⟩ |
          ⟨again, -, -, hringing', -⟩
      · exact hpending alarm (heq ▸ halarm)
      · rw [heq] at halarm
        cases halarm
      · rw [heq] at halarm
        cases halarm
        exact ⟨now, delay, hmem, rfl⟩
      · exact absurd hringing' hringing
  · refine ⟨Option.some_ne_none id ∘ Eq.symm, fun alarm halarm ↦ ?_⟩
    cases halarm

/-- An alarm that has rung and is pending again is so as it was settled. -/
theorem pending_of_settled (h : service.run s actions = some t) (hused : s.used id = true)
    (hringing : s.ringing = some id) {alarm : ℤ × δ} (hrung : s.pending id = some alarm)
    (hsilent : Silent id actions) (hover : t.ringing = none) {alarm' : ℤ × δ}
    (halarm : t.pending id = some alarm') :
    ∃ again : ℕ, again ≠ 0 ∧ .settle id again ∈ actions ∧ alarm' = (s.now + again, alarm.2) := by
  have hmeets := hsilent.meets s
  -- it rings until it is settled, and nothing but its being settled makes it pending again
  have hinv := System.run_meets (I := fun u : Alarms ι δ ↦ u.used id = true ∧
    ((u.ringing = some id ∧ u.now = s.now ∧ ∀ a, u.pending id = some a → a = alarm) ∨
      (u.ringing ≠ some id ∧ ∀ a, u.pending id = some a → ∃ again : ℕ, again ≠ 0 ∧
        .settle id again ∈ actions ∧ a = (s.now + again, alarm.2)))) ?_ ?_ hmeets h
  · obtain ⟨-, ⟨hstill, -⟩ | ⟨-, hpending⟩⟩ := hinv
    · rw [hover] at hstill
      cases hstill
    · exact hpending alarm' halarm
  · rintro u a u' ⟨hu, hcases⟩ ⟨hmem, hnot⟩ hstep
    obtain ⟨hu', hset⟩ := used_step hstep hu
    refine ⟨hu', ?_⟩
    rcases ringing_cases hstep id with ⟨now, a', rfl⟩ | ⟨hringing', hbefore, hnow, hunsettled⟩ |
        ⟨again, rfl⟩ | ⟨hringing', hbefore⟩
    · exact absurd rfl (hnot now a')
    · obtain ⟨-, hnow', hpending⟩ := hcases.resolve_right fun h ↦ h.1 hbefore
      refine Or.inl ⟨hringing', hnow.trans hnow', fun a' ha' ↦ ?_⟩
      rcases pending_cases hstep id with heq | heq | ⟨now, delay, data, rfl, -⟩ |
          ⟨again, -, rfl, -⟩
      · exact hpending a' (heq ▸ ha')
      · rw [heq] at ha'
        cases ha'
      · exact absurd rfl hset
      · exact absurd rfl (hunsettled again)
    · obtain ⟨hbefore, rfl⟩ := service_settle.mp hstep
      obtain ⟨-, hnow, hpending⟩ := hcases.resolve_right fun h ↦ h.1 hbefore
      refine Or.inr ⟨by simp, fun a' ha' ↦ ?_⟩
      change u.settled id again id = some a' at ha'
      rw [settled, Function.update_self] at ha'
      split_ifs at ha' with hzero
      rw [Option.map_eq_some_iff] at ha'
      obtain ⟨a, ha, rfl⟩ := ha'
      rw [hpending a ha, hnow]
      exact ⟨again, hzero, hmem, rfl⟩
    · obtain ⟨-, hpending⟩ := hcases.resolve_left fun h ↦ hbefore h.1
      refine Or.inr ⟨hringing', fun a' ha' ↦ ?_⟩
      rcases pending_cases hstep id with heq | heq | ⟨now, delay, data, rfl, -⟩ |
          ⟨again, -, -, hbefore', -⟩
      · exact hpending a' (heq ▸ ha')
      · rw [heq] at ha'
        cases ha'
      · exact absurd rfl hset
      · exact absurd hbefore' hbefore
  · refine ⟨hused, Or.inl ⟨hringing, rfl, fun a ha ↦ ?_⟩⟩
    rw [hrung] at ha
    exact (Option.some.inj ha).symm

/-- Every trace of the service is punctual. -/
theorem punctual_of_run (h : service.run empty trace = some t) : Punctual trace where
  once := (nodup_setIds h).1
  first := by
    rintro before after id now alarm rfl hsilent
    obtain ⟨s, hbefore, hafter⟩ := System.run_append_eq_some.mp h
    obtain ⟨s', hstep, -⟩ := System.run_cons hafter
    obtain ⟨⟨-, -, hpending, hdue⟩, -⟩ := service_ring.mp hstep
    obtain ⟨start, delay, hset, heq⟩ := pending_of_silent hbefore hsilent hpending
    exact ⟨start, delay, hset, heq, hdue⟩
  again := by
    rintro before mid after id now now' alarm alarm' rfl hsilent
    obtain ⟨s, hbefore, hafter⟩ := System.run_append_eq_some.mp h
    obtain ⟨s', hstep, hrest⟩ := System.run_cons hafter
    obtain ⟨u, hmid, hlast⟩ := System.run_append_eq_some.mp hrest
    obtain ⟨u', hstep', -⟩ := System.run_cons hlast
    obtain ⟨⟨-, rfl, hpending, -⟩, rfl⟩ := service_ring.mp hstep
    obtain ⟨⟨hover, -, hpending', hdue⟩, -⟩ := service_ring.mp hstep'
    have hused := used_of_pending hbefore (by rw [hpending]; exact Option.some_ne_none _)
    obtain ⟨again, hne, hsettle, heq⟩ :=
      pending_of_settled hmid hused rfl hpending hsilent hover hpending'
    exact ⟨again, hne, hsettle, heq, hdue⟩
  gone := by
    rintro before mid after id now delay data a rfl hends
    obtain ⟨s, -, hafter⟩ := System.run_append_eq_some.mp h
    obtain ⟨s', hset, hrest⟩ := System.run_cons hafter
    obtain ⟨u, hmid, hlast⟩ := System.run_append_eq_some.mp hrest
    obtain ⟨u', hstep, hend⟩ := System.run_cons hlast
    have hused : s'.used id = true := by
      obtain ⟨-, rfl⟩ := service_set.mp hset
      exact Function.update_self ..
    refine silent_of_gone hend (used_step hstep (used_of_run hmid hused)).1 ?_
    cases a with
    | cancel id' found =>
      cases hends
      obtain ⟨-, rfl⟩ := service_cancel.mp hstep
      exact Function.update_self ..
    | settle id' again =>
      obtain ⟨rfl, rfl⟩ := hends
      obtain ⟨-, rfl⟩ := service_settle.mp hstep
      exact Function.update_self ..
    | _ => cases hends

end Run

end Alarms

end Nebula.Library
