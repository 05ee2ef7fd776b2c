import Nebula.ProducerAndConsumer.Conservation

/-!
One call of `generateTaskletAndDispatch` or `fetchTaskletAndExecute`, whatever the other workers do
in the meantime. A call is a sequence of rounds, one for each tasklet that it takes: a producer
generates a tasklet and pushes it, or cleans it up if there is no queue; a consumer pops a tasklet,
prepares, executes and deletes it. `Stands` says what a call has done when its worker is at some
place in its loop: complete rounds, and the beginning of another one; there are never more of them
than the limit allows.

`batch_run` is about any pool, any limit and any interleaving. A call is never blocked and takes at
most four steps for each tasklet, and `Ends` says exactly which step is its last one.
-/

set_option autoImplicit false
set_option relaxedAutoImplicit false

namespace Nebula.ProducerAndConsumer

open Nebula.Library

variable {ι κ : Type*}

/-! ### One call -/

/-- The worker that does something. -/
def Event.worker : Event ι κ → Option (Worker ι κ)
  | .generated i _ | .prepareBeforeDispatch i _ | .dispatched i _ _
  | .cleanupAfterDispatchFailure i _ => some (.producer i)
  | .fetched k _ | .prepareBeforeExecute k _ | .executed k _ _ | .cleanupAfterExecute k _ =>
      some (.consumer k)
  | .reported _ _ _ | .cancelled _ | .deleted _ => none
  | .returned w _ => some w

/-- The worker that takes a step in its loop. -/
def Action.worker : Action ι κ → Option (Worker ι κ)
  | .generateTaskletAndDispatch i _ => some (.producer i)
  | .fetchTaskletAndExecute k _ => some (.consumer k)
  | _ => none

/-- The steps of one worker. -/
def Action.stepsOf [DecidableEq ι] [DecidableEq κ] (w : Worker ι κ) (action : Action ι κ) : ℕ :=
  if action.worker = some w then 1 else 0

/-- What one worker has done, according to a log. -/
def own [DecidableEq ι] [DecidableEq κ] (w : Worker ι κ) (log : List (Event ι κ)) :
    List (Event ι κ) :=
  log.filter fun e ↦ decide (e.worker = some w)

/-- The tasklet that a worker takes. -/
def Event.taken : Event ι κ → Option ℕ
  | .generated _ t | .fetched _ t => t
  | _ => none

/-- The tasklets that were generated or popped, in order. -/
def taken (log : List (Event ι κ)) : List ℕ := log.filterMap Event.taken

/-- The call that yields no tasklet. -/
def Worker.tookNone : Worker ι κ → Event ι κ
  | .producer i => .generated i none
  | .consumer k => .fetched k none

/-- All that a worker does with one tasklet; `attached` says whether it has a queue. -/
inductive Round (attached : Bool) (t : ℕ) : Worker ι κ → List (Event ι κ) → Prop where
  | pushed (i : ι) (hattached : attached = true) : Round attached t (.producer i)
      [.generated i (some t), .prepareBeforeDispatch i t, .dispatched i t true]
  | discarded (i : ι) (hattached : attached = false) : Round attached t (.producer i)
      [.generated i (some t), .prepareBeforeDispatch i t, .dispatched i t false,
        .cleanupAfterDispatchFailure i t]
  | executed (k : κ) (rc : Result) : Round attached t (.consumer k)
      [.fetched k (some t), .prepareBeforeExecute k t, .executed k t rc, .cleanupAfterExecute k t]

/-- What a worker has done with a tasklet when it is in front of a call on it, and by how much it
has increased its count. -/
inductive Midway (attached : Bool) (t : ℕ) :
    Worker ι κ → Duty → ℕ → List (Event ι κ) → Prop where
  | generated (i : ι) : Midway attached t (.producer i) .prepareBeforeDispatch 1
      [.generated i (some t)]
  | prepared (i : ι) : Midway attached t (.producer i) .dispatchTasklet 1
      [.generated i (some t), .prepareBeforeDispatch i t]
  | rejected (i : ι) (hattached : attached = false) :
      Midway attached t (.producer i) .cleanupAfterDispatchFailure 1
        [.generated i (some t), .prepareBeforeDispatch i t, .dispatched i t false]
  | fetched (k : κ) : Midway attached t (.consumer k) .prepareBeforeExecute 0
      [.fetched k (some t)]
  | readied (k : κ) : Midway attached t (.consumer k) .execute 0
      [.fetched k (some t), .prepareBeforeExecute k t]
  | executed (k : κ) (rc : Result) : Midway attached t (.consumer k) .cleanupAfterExecute 1
      [.fetched k (some t), .prepareBeforeExecute k t, .executed k t rc]

/-- What a call has done when its worker is at the given place: complete rounds and the beginning of
another one, or, if it has returned, complete rounds and then the return of their number, because
there are as many as the limit says or because there was no other tasklet. -/
inductive Stands (attached : Bool) (w : Worker ι κ) (limit : SizeT) :
    Position → List (Event ι κ) → Prop where
  | testing (rounds : List (List (Event ι κ)))
      (hrounds : ∀ round ∈ rounds, ∃ t, Round attached t w round)
      (hle : limit ≠ 0 → rounds.length ≤ limit.toNat) :
      Stands attached w limit (.testing limit (.ofNat 64 rounds.length)) rounds.flatten
  | handling (rounds : List (List (Event ι κ)))
      (hrounds : ∀ round ∈ rounds, ∃ t, Round attached t w round)
      (hlt : limit ≠ 0 → rounds.length < limit.toNat) (duty : Duty) (counted t : ℕ)
      (events : List (Event ι κ)) (hevents : Midway attached t w duty counted events) :
      Stands attached w limit (.handling duty limit (.ofNat 64 (rounds.length + counted)) t)
        (rounds.flatten ++ events)
  | limited (rounds : List (List (Event ι κ)))
      (hrounds : ∀ round ∈ rounds, ∃ t, Round attached t w round) (hlimit : limit ≠ 0)
      (heq : rounds.length = limit.toNat) :
      Stands attached w limit .outside
        (rounds.flatten ++ [.returned w (.ofNat 64 rounds.length)])
  | exhausted (rounds : List (List (Event ι κ)))
      (hrounds : ∀ round ∈ rounds, ∃ t, Round attached t w round)
      (hlt : limit ≠ 0 → rounds.length < limit.toNat) :
      Stands attached w limit .outside
        (rounds.flatten ++ [w.tookNone, .returned w (.ofNat 64 rounds.length)])

namespace Stands

variable {attached : Bool} {w : Worker ι κ} {limit limit' count : SizeT} {t : ℕ}
  {duty duty' : Duty} {es events more : List (Event ι κ)}

theorem withinLimit_iff {n : ℕ} (h : limit ≠ 0 → n ≤ limit.toNat) :
    withinLimit limit (.ofNat 64 n) = true ↔ (limit ≠ 0 → n < limit.toNat) := by
  unfold withinLimit
  by_cases hlimit : limit = 0
  · simp [hlimit]
  · have hn : n % 2 ^ 64 = n := Nat.mod_eq_of_lt (Nat.lt_of_le_of_lt (h hlimit) limit.isLt)
    rw [if_pos hlimit, decide_eq_true_iff, BitVec.lt_def, BitVec.toNat_ofNat, hn]
    exact (imp_iff_right hlimit).symm

/-- A count that is not within the limit has reached it. -/
theorem eq_limit {n : ℕ} (h : limit ≠ 0 → n ≤ limit.toNat)
    (hlimit : ¬ withinLimit limit (.ofNat 64 n) = true) : limit ≠ 0 ∧ n = limit.toNat := by
  rw [withinLimit_iff h, Classical.not_imp, Nat.not_lt] at hlimit
  exact ⟨hlimit.1, Nat.le_antisymm (h hlimit.1) hlimit.2⟩

/-- The worker takes another tasklet. -/
theorem take (h : Stands attached w limit (.testing limit' count) es)
    (hlimit : withinLimit limit' count = true) {counted : ℕ}
    (hevents : Midway attached t w duty counted events) :
    Stands attached w limit (.handling duty limit' (count + .ofNat 64 counted) t)
      (es ++ events) := by
  cases h with
  | testing rounds hrounds hle =>
    rw [← BitVec.ofNat_add]
    exact .handling rounds hrounds ((withinLimit_iff hle).mp hlimit) duty counted t events hevents

/-- The worker makes a call on its tasklet, and is in front of another one. -/
theorem call (h : Stands attached w limit (.handling duty limit' count t) es) (extra : ℕ)
    (hmidway : ∀ counted events, Midway attached t w duty counted events →
      Midway attached t w duty' (counted + extra) (events ++ more)) :
    Stands attached w limit (.handling duty' limit' (count + .ofNat 64 extra) t) (es ++ more) := by
  cases h with
  | handling rounds hrounds hlt duty counted t events hevents =>
    rw [← BitVec.ofNat_add, Nat.add_assoc, List.append_assoc]
    exact .handling rounds hrounds hlt duty' _ t _ (hmidway counted events hevents)

/-- The worker makes the last call on its tasklet. -/
theorem finish (h : Stands attached w limit (.handling duty limit' count t) es)
    (hround : ∀ counted events, Midway attached t w duty counted events →
      counted = 1 ∧ Round attached t w (events ++ more)) :
    Stands attached w limit (.testing limit' count) (es ++ more) := by
  cases h with
  | handling rounds hrounds hlt duty counted t events hevents =>
    obtain ⟨rfl, hround⟩ := hround counted events hevents
    have hall : ∀ round ∈ rounds ++ [events ++ more], ∃ t, Round attached t w round := by
      intro round hmem
      rcases List.mem_append.mp hmem with hmem | hmem
      · exact hrounds round hmem
      · exact ⟨t, List.mem_singleton.mp hmem ▸ hround⟩
    have hstands : Stands attached w limit _ _ := testing (rounds ++ [events ++ more]) hall
      fun hlimit ↦ by
        rw [List.length_append]
        exact hlt hlimit
    rwa [List.length_append, List.length_singleton, List.flatten_concat, ← List.append_assoc]
      at hstands

/-- The worker returns at its limit. -/
theorem leave_limited (h : Stands attached w limit (.testing limit' count) es)
    (hlimit : ¬ withinLimit limit' count = true) :
    Stands attached w limit .outside (es ++ [.returned w count]) := by
  cases h with
  | testing rounds hrounds hle =>
    exact .limited rounds hrounds (eq_limit hle hlimit).1 (eq_limit hle hlimit).2

/-- At the loop test, the limit is that of the call, and it has been reached when the count is. -/
theorem not_withinLimit_iff (h : Stands attached w limit (.testing limit' count) es) :
    limit' = limit ∧ (¬ withinLimit limit' count = true ↔ limit ≠ 0 ∧ count = limit) := by
  cases h with
  | testing rounds hrounds hle =>
    refine ⟨rfl, fun hlimit ↦ ?_, fun ⟨hne, heq⟩ ↦ ?_⟩
    · obtain ⟨hne, heq⟩ := eq_limit hle hlimit
      rw [heq, BitVec.ofNat_toNat, BitVec.setWidth_eq]
      exact ⟨hne, rfl⟩
    · rw [heq, withinLimit, if_pos hne, decide_eq_true_iff]
      exact BitVec.lt_irrefl limit

/-- A worker is in front of a call of its own. -/
theorem does (h : Stands attached w limit (.handling duty limit' count t) es) : w.Does duty := by
  cases h with
  | handling rounds hrounds hlt duty counted t events hevents => cases hevents <;> trivial

/-- The worker returns because there is no tasklet. -/
theorem leave_exhausted (h : Stands attached w limit (.testing limit' count) es)
    (hlimit : withinLimit limit' count = true) :
    Stands attached w limit .outside (es ++ [w.tookNone, .returned w count]) := by
  cases h with
  | testing rounds hrounds hle =>
    exact .exhausted rounds hrounds ((withinLimit_iff hle).mp hlimit)

/-- Every round has taken one tasklet. -/
theorem length_taken_flatten {rounds : List (List (Event ι κ))}
    (hrounds : ∀ round ∈ rounds, ∃ t, Round attached t w round) :
    (taken rounds.flatten).length = rounds.length := by
  induction rounds with
  | nil => rfl
  | cons round rounds ih =>
    obtain ⟨⟨t, hround⟩, hrest⟩ := List.forall_mem_cons.mp hrounds
    have hone : (taken round).length = 1 := by cases hround <;> rfl
    rw [List.flatten_cons, taken, List.filterMap_append, List.length_append, List.length_cons,
      Nat.add_comm]
    exact congrArg₂ (· + ·) (ih hrest) hone

theorem length_taken_append {rounds : List (List (Event ι κ))}
    (hrounds : ∀ round ∈ rounds, ∃ t, Round attached t w round) (events : List (Event ι κ)) :
    (taken (rounds.flatten ++ events)).length = rounds.length + (taken events).length := by
  rw [taken, List.filterMap_append, List.length_append]
  exact congrArg (· + _) (length_taken_flatten hrounds)

/-- No tasklet is taken beyond the limit. -/
theorem length_taken_le {position : Position} (h : Stands attached w limit position es)
    (hlimit : limit ≠ 0) : (taken es).length ≤ limit.toNat := by
  cases h with
  | testing rounds hrounds hle => exact (length_taken_flatten hrounds).symm ▸ hle hlimit
  | handling rounds hrounds hlt duty counted t events hevents =>
    have hone : (taken events).length = 1 := by cases hevents <;> rfl
    rw [length_taken_append hrounds, hone]
    exact hlt hlimit
  | limited rounds hrounds _ heq =>
    rw [length_taken_append hrounds]
    exact Nat.le_of_eq heq
  | exhausted rounds hrounds hlt =>
    have hnone : taken [w.tookNone, .returned w (.ofNat 64 rounds.length)] = [] := by
      cases w <;> rfl
    rw [length_taken_append hrounds, hnone]
    exact Nat.le_of_lt (hlt hlimit)

/-- A round has four events at most. -/
theorem length_flatten_le {rounds : List (List (Event ι κ))}
    (hrounds : ∀ round ∈ rounds, ∃ t, Round attached t w round) :
    rounds.flatten.length ≤ 4 * rounds.length := by
  induction rounds with
  | nil => exact Nat.le_refl 0
  | cons round rounds ih =>
    obtain ⟨⟨t, hround⟩, hrest⟩ := List.forall_mem_cons.mp hrounds
    have hfour : round.length ≤ 4 := by cases hround <;> simp
    have hih := ih hrest
    rw [List.flatten_cons, List.length_append, List.length_cons]
    omega

/-- As long as the worker is in its loop, it has done at most four things with each tasklet. -/
theorem length_le {position : Position} (h : Stands attached w limit position es)
    (hin : position ≠ .outside) : es.length ≤ 4 * (taken es).length := by
  cases h with
  | testing rounds hrounds hle =>
    rw [length_taken_flatten hrounds]
    exact length_flatten_le hrounds
  | handling rounds hrounds hlt duty counted t events hevents =>
    have hone : (taken events).length = 1 := by cases hevents <;> rfl
    have hthree : events.length ≤ 3 := by cases hevents <;> simp
    have hrounds' := length_flatten_le hrounds
    rw [length_taken_append hrounds, hone, List.length_append]
    omega
  | limited => exact absurd rfl hin
  | exhausted => exact absurd rfl hin

end Stands

namespace Pool

variable [DecidableEq ι] [DecidableEq κ] {s t t' : Pool ι κ} {w w' : Worker ι κ} {limit : SizeT}
  {position : Position} {new events : List (Event ι κ)}

/-- A call that a worker has entered in one state, in a later state. All that the workers have done
since is `new`; what they have pushed and popped accounts for the queue. -/
structure Call (w : Worker ι κ) (limit : SizeT) (s t : Pool ι κ) (new : List (Event ι κ)) :
    Prop where
  log : t.log = s.log ++ new
  queue : s.items ++ pushed new = popped new ++ t.items
  attached : t.worker w ≠ .outside → t.attached w = s.attached w
  stands : Stands (s.attached w) w limit (t.worker w) (own w new)

theorem own_append (w : Worker ι κ) (log events : List (Event ι κ)) :
    own w (log ++ events) = own w log ++ own w events := List.filter_append ..

/-- What a worker does in one step is its own, or nobody's. -/
theorem own_eq_ite (h : ∀ e ∈ events, e.worker = some w' ∨ e.worker = none) :
    own w events = if w' = w then events.filter fun e ↦ e.worker.isSome else [] := by
  unfold own
  split_ifs with hw
  · refine List.filter_congr fun e he ↦ ?_
    rcases h e he with hsome | hnone
    · rw [hsome, hw, decide_eq_true rfl, Option.isSome_some]
    · rw [hnone, decide_eq_false (Option.some_ne_none w).symm, Option.isSome_none]
  · refine List.filter_eq_nil_iff.mpr fun e he ↦ ?_
    rcases h e he with hsome | hnone
    · rw [hsome, decide_eq_true_iff]
      exact fun heq ↦ hw (Option.some.inj heq)
    · rw [hnone, decide_eq_true_iff]
      exact (Option.some_ne_none w).symm

/-- A worker takes a step in its loop. -/
theorem Call.go (h : Call w limit s t new) (hlog : t'.log = t.log ++ events)
    (hworker : t'.worker = Function.update t.worker w' position)
    (hattached : t'.attached = t.attached) (hin : w' = w → t.worker w ≠ .outside)
    (hqueue : t.items ++ pushed events = popped events ++ t'.items)
    (hevents : ∀ e ∈ events, e.worker = some w' ∨ e.worker = none)
    (hown : w' = w → Stands (s.attached w) w limit position
      (own w new ++ events.filter fun e ↦ e.worker.isSome)) :
    Call w limit s t' (new ++ events) where
  log := by rw [hlog, h.log, List.append_assoc]
  queue := by
    rw [pushed, popped, List.filterMap_append, List.filterMap_append, ← List.append_assoc]
    have hnew := h.queue
    unfold pushed popped at hnew hqueue
    rw [hnew, List.append_assoc, hqueue, List.append_assoc]
  attached hloop := by
    rw [hattached]
    refine h.attached ?_
    by_cases hw : w' = w
    · exact hin hw
    · rwa [hworker, Function.update_of_ne (Ne.symm hw)] at hloop
  stands := by
    rw [own_append, hworker, own_eq_ite hevents]
    by_cases hw : w' = w
    · rw [if_pos hw, hw, Function.update_self]
      exact hown hw
    · rw [if_neg hw, Function.update_of_ne (Ne.symm hw), List.append_nil]
      exact h.stands

/-- A worker that is in its loop takes a step. -/
theorem Call.act {old : Position} (h : Call w limit s t new) (hw : t.worker w' = old)
    (hold : old ≠ .outside) (hlog : t'.log = t.log ++ events)
    (hworker : t'.worker = Function.update t.worker w' position)
    (hattached : t'.attached = t.attached)
    (hqueue : t.items ++ pushed events = popped events ++ t'.items)
    (hevents : ∀ e ∈ events, e.worker = some w' ∨ e.worker = none)
    (hown : w' = w → Stands (s.attached w) w limit old (own w new) →
      Stands (s.attached w) w limit position
        (own w new ++ events.filter fun e ↦ e.worker.isSome)) :
    ∃ events, Call w limit s t' (new ++ events) := by
  refine ⟨events, h.go hlog hworker hattached (fun hww ↦ ?_) hqueue hevents fun hww ↦ ?_⟩
  · rwa [← hww, hw]
  · exact hown hww (hw ▸ hww ▸ h.stands)

/-- A worker that is in its loop takes a step that has nothing to do with the queue. -/
theorem Call.quiet {old : Position} (h : Call w limit s t new) (hw : t.worker w' = old)
    (hold : old ≠ .outside) (hpushed : pushed events = []) (hpopped : popped events = [])
    (hevents : ∀ e ∈ events, e.worker = some w' ∨ e.worker = none)
    (hown : w' = w → Stands (s.attached w) w limit old (own w new) →
      Stands (s.attached w) w limit position
        (own w new ++ events.filter fun e ↦ e.worker.isSome)) :
    ∃ events', Call w limit s (t.go w' position events) (new ++ events') := by
  refine h.act hw hold rfl rfl rfl ?_ hevents hown
  rw [hpushed, hpopped, List.append_nil]
  rfl

/-- What a step of the pool does to a call that is not entered once more. -/
theorem Call.steps (h : Call w limit s t new)
    (hstay : t.worker w = .outside → t'.worker w = .outside) (hsteps : t.Steps t') :
    ∃ events, Call w limit s t' (new ++ events) := by
  cases hsteps with
  | setAttached w' attached hw =>
    refine ⟨[], ?_⟩
    rw [List.append_nil]
    refine ⟨h.log, h.queue, fun hloop ↦ ?_, h.stands⟩
    have hne : w ≠ w' := by
      rintro rfl
      exact hloop hw
    exact (Function.update_of_ne hne ..).trans (h.attached hloop)
  | entered w' limit' hw =>
    have hne : w' ≠ w := by
      rintro rfl
      cases (Function.update_self ..).symm.trans (hstay hw)
    exact ⟨_, h.go rfl rfl rfl (fun hww ↦ absurd hww hne) (List.append_nil _) (by simp)
      fun hww ↦ absurd hww hne⟩
  | limited w' limit' count hw hlimit =>
    refine h.quiet hw Position.noConfusion rfl rfl (by simp [Event.worker]) ?_
    rintro rfl hstands
    exact hstands.leave_limited hlimit
  | noneGenerated i limit' count hw hlimit =>
    refine h.quiet hw Position.noConfusion rfl rfl (by simp [Event.worker]) ?_
    rintro rfl hstands
    exact hstands.leave_exhausted hlimit
  | generated i limit' count hw hlimit =>
    refine h.act hw Position.noConfusion rfl rfl rfl (List.append_nil _) (by simp [Event.worker]) ?_
    rintro rfl hstands
    exact hstands.take hlimit (.generated i)
  | preparedBeforeDispatch i limit' count u hw =>
    refine h.quiet hw Position.noConfusion rfl rfl (by simp [Event.worker]) ?_
    rintro rfl hstands
    refine BitVec.add_zero count ▸ hstands.call 0 fun counted events hevents ↦ ?_
    cases hevents
    exact .prepared i
  | pushed i limit' count u hw hattached =>
    refine h.act hw Position.noConfusion rfl rfl rfl rfl (by simp [Event.worker]) ?_
    rintro rfl hstands
    refine hstands.finish fun counted events hevents ↦ ?_
    cases hevents
    exact ⟨rfl, .pushed i ((h.attached (by simp [hw])).symm.trans hattached)⟩
  | rejected i limit' count u hw hattached =>
    refine h.quiet hw Position.noConfusion rfl rfl (by simp [Event.worker]) ?_
    rintro rfl hstands
    refine BitVec.add_zero count ▸ hstands.call 0 fun counted events hevents ↦ ?_
    cases hevents
    exact .rejected i ((h.attached (by simp [hw])).symm.trans (Bool.eq_false_iff.mpr hattached))
  | cleanedUpAfterDispatchFailure i limit' count u hw =>
    refine h.quiet hw Position.noConfusion rfl rfl (by simp [Event.worker]) ?_
    rintro rfl hstands
    refine hstands.finish fun counted events hevents ↦ ?_
    cases hevents with
    | rejected _ hattached => exact ⟨rfl, .discarded i hattached⟩
  | noneFetched k limit' count hw hlimit hnone =>
    refine h.quiet hw Position.noConfusion rfl rfl (by simp [Event.worker]) ?_
    rintro rfl hstands
    exact hstands.leave_exhausted hlimit
  | fetched k limit' count u rest hw hlimit hattached hitems =>
    refine h.act hw Position.noConfusion rfl rfl rfl ?_ (by simp [Event.worker]) ?_
    · rw [hitems, pushed, popped]
      simp [Event.pushed, Event.popped]
    · rintro rfl hstands
      exact BitVec.add_zero count ▸ hstands.take hlimit (.fetched k)
  | preparedBeforeExecute k limit' count u hw =>
    refine h.quiet hw Position.noConfusion rfl rfl (by simp [Event.worker]) ?_
    rintro rfl hstands
    refine BitVec.add_zero count ▸ hstands.call 0 fun counted events hevents ↦ ?_
    cases hevents
    exact .readied k
  | executed k limit' count u rc hw =>
    refine h.act hw Position.noConfusion rfl rfl rfl ?_ ?_ ?_
    · cases rc <;> exact List.append_nil _
    · cases rc <;> simp [Event.worker, Result.stored]
    · rintro rfl hstands
      have hown : (Event.executed k u rc :: rc.stored.map fun r ↦ .reported u r r).filter
          (fun e : Event ι κ ↦ e.worker.isSome) = [.executed k u rc] := by cases rc <;> rfl
      rw [hown]
      refine hstands.call 1 fun counted events hevents ↦ ?_
      cases hevents
      exact .executed k rc
  | cleanedUpAfterExecute k limit' count u hw =>
    refine h.quiet hw Position.noConfusion rfl rfl (by simp [Event.worker]) ?_
    rintro rfl hstands
    refine hstands.finish fun counted events hevents ↦ ?_
    cases hevents with
    | executed _ rc => exact ⟨rfl, .executed k rc⟩

/-! ### Runs -/

theorem worker_producerStep {i : ι} {available : Bool}
    (hstep : t.producerStep i available = some t') :
    t.worker (.producer i) ≠ .outside ∧ ∀ w, w ≠ .producer i → t'.worker w = t.worker w := by
  unfold producerStep at hstep
  constructor
  · intro hout
    rw [hout] at hstep
    cases hstep
  · intro w hne
    split at hstep
    case h_5 => cases hstep
    all_goals (try split_ifs at hstep) <;> cases hstep <;> exact Function.update_of_ne hne ..

theorem worker_consumerStep {k : κ} {rc : Result} (hstep : t.consumerStep k rc = some t') :
    t.worker (.consumer k) ≠ .outside ∧ ∀ w, w ≠ .consumer k → t'.worker w = t.worker w := by
  unfold consumerStep at hstep
  constructor
  · intro hout
    rw [hout] at hstep
    cases hstep
  · intro w hne
    split at hstep
    case h_5 => cases hstep
    all_goals (try split_ifs at hstep) <;> (try split at hstep) <;> cases hstep <;>
      exact Function.update_of_ne hne ..

/-- A worker that is outside of its loop stays there until it enters it. -/
theorem outside_next {action : Action ι κ} (hnext : next t action = some t')
    (haction : ∀ limit, action ≠ .enter w limit) (hout : t.worker w = .outside) :
    t'.worker w = .outside := by
  cases action with
  | attachToQueue w' =>
    simp only [next] at hnext
    split_ifs at hnext
    cases hnext
    exact hout
  | detachFromQueue w' =>
    simp only [next] at hnext
    split_ifs at hnext
    cases hnext
    exact hout
  | enter w' limit' =>
    simp only [next] at hnext
    split_ifs at hnext
    cases hnext
    have hne : w ≠ w' := fun hww ↦ haction limit' (hww ▸ rfl)
    exact (Function.update_of_ne hne ..).trans hout
  | generateTaskletAndDispatch i available =>
    obtain ⟨hin, hsame⟩ := worker_producerStep hnext
    exact (hsame w fun hw ↦ hin (hw ▸ hout)).trans hout
  | fetchTaskletAndExecute k rc =>
    obtain ⟨hin, hsame⟩ := worker_consumerStep hnext
    exact (hsame w fun hw ↦ hin (hw ▸ hout)).trans hout

theorem call_enter (s : Pool ι κ) (w : Worker ι κ) (limit : SizeT) :
    Call w limit s (s.go w (.testing limit 0) []) [] where
  log := rfl
  queue := List.append_nil _
  attached _ := rfl
  stands := by
    have hw : (s.go w (.testing limit 0) []).worker w = .testing limit 0 :=
      Function.update_self ..
    rw [hw]
    exact .testing [] (fun _ h ↦ absurd h List.not_mem_nil) fun _ ↦ Nat.zero_le _

/-- A call in any run that does not enter it once more. -/
theorem call_run {actions : List (Action ι κ)}
    (hrun : System.run next s (.enter w limit :: actions) = some t)
    (honce : ∀ limit', .enter w limit' ∉ actions) : ∃ new, Call w limit s t new := by
  obtain ⟨s', hfirst, hrest⟩ := System.run_cons hrun
  have henter : Call w limit s s' [] := by
    simp only [next] at hfirst
    split_ifs at hfirst
    cases hfirst
    exact call_enter s w limit
  have hothers : ∀ action ∈ actions, ∀ limit', action ≠ .enter w limit' := by
    rintro action hmem limit' rfl
    exact honce limit' hmem
  refine System.run_meets (I := fun t ↦ ∃ new, Call w limit s t new) ?_ ⟨[], henter⟩
    (System.meets_of_forall_mem hothers s') hrest
  rintro t action t' ⟨new, hcall⟩ haction hnext
  obtain ⟨events, hcall'⟩ := hcall.steps (outside_next hnext haction) (steps_next hnext)
  exact ⟨_, hcall'⟩

/-! ### The last step -/

/-- The step is the last one of a call: its worker is at the loop test, and it has reached the limit
or there is no tasklet for it; none is available, or the consumer has no queue or an empty one. -/
def Ends (t : Pool ι κ) (limit : SizeT) : Action ι κ → Prop
  | .generateTaskletAndDispatch i available =>
      ∃ count, t.worker (.producer i) = .testing limit count ∧
        (limit ≠ 0 ∧ count = limit ∨ available = false)
  | .fetchTaskletAndExecute k _ =>
      ∃ count, t.worker (.consumer k) = .testing limit count ∧
        (limit ≠ 0 ∧ count = limit ∨ (t.attached (.consumer k) = true → t.items = []))
  | _ => False

omit [DecidableEq ι] [DecidableEq κ] in
theorem not_ends_of_handling {duty : Duty} {limit' count : SizeT} {u : ℕ}
    (hw : t.worker w = .handling duty limit' count u) (available : Bool) (rc : Result) :
    ¬ t.Ends limit (w.step available rc) := by
  cases w with
  | producer i =>
    rintro ⟨count', htesting, -⟩
    exact Position.noConfusion (hw.symm.trans htesting)
  | consumer k =>
    rintro ⟨count', htesting, -⟩
    exact Position.noConfusion (hw.symm.trans htesting)

omit [DecidableEq ι] [DecidableEq κ] in
/-- The worker is at the loop test, where it may end. -/
theorem ends_producer_iff {i : ι} {count : SizeT} {available : Bool}
    (hw : t.worker (.producer i) = .testing limit count) :
    t.Ends limit (.generateTaskletAndDispatch i available) ↔
      limit ≠ 0 ∧ count = limit ∨ available = false := by
  constructor
  · rintro ⟨count', htesting, hends⟩
    cases hw.symm.trans htesting
    exact hends
  · exact fun hends ↦ ⟨count, hw, hends⟩

omit [DecidableEq ι] [DecidableEq κ] in
theorem ends_consumer_iff {k : κ} {count : SizeT} {rc : Result}
    (hw : t.worker (.consumer k) = .testing limit count) :
    t.Ends limit (.fetchTaskletAndExecute k rc) ↔
      limit ≠ 0 ∧ count = limit ∨ (t.attached (.consumer k) = true → t.items = []) := by
  constructor
  · rintro ⟨count', htesting, hends⟩
    cases hw.symm.trans htesting
    exact hends
  · exact fun hends ↦ ⟨count, hw, hends⟩

theorem outside_producerStep_iff {attached : Bool} {es : List (Event ι κ)} {i : ι}
    {available : Bool}
    (h : Stands attached (.producer i) limit (t.worker (.producer i)) es)
    (hstep : t.producerStep i available = some t') :
    t'.worker (.producer i) = .outside ↔
      t.Ends limit (.generateTaskletAndDispatch i available) := by
  have hself : ∀ position : Position,
      Function.update t.worker (.producer i) position (.producer i) = position :=
    fun position ↦ Function.update_self ..
  unfold producerStep at hstep
  split at hstep
  case h_1 limit' count hw =>
    obtain ⟨rfl, hlimit⟩ := (hw ▸ h).not_withinLimit_iff
    rw [ends_producer_iff hw, ← hlimit]
    split_ifs at hstep with hwithin havailable <;> cases hstep
    · refine iff_of_false (fun hout ↦ Position.noConfusion ((hself _).symm.trans hout)) ?_
      exact not_or.mpr ⟨not_not.mpr hwithin, fun hnone ↦ Bool.noConfusion (havailable ▸ hnone)⟩
    · exact iff_of_true (hself _) (Or.inr (Bool.eq_false_iff.mpr havailable))
    · exact iff_of_true (hself _) (Or.inl hwithin)
  case h_5 => cases hstep
  all_goals
    refine iff_of_false (fun hout ↦ ?_) (not_ends_of_handling ‹_› available .success)
    (try split_ifs at hstep) <;> cases hstep <;>
      exact Position.noConfusion ((hself _).symm.trans hout)

theorem outside_consumerStep_iff {attached : Bool} {es : List (Event ι κ)} {k : κ} {rc : Result}
    (h : Stands attached (.consumer k) limit (t.worker (.consumer k)) es)
    (hstep : t.consumerStep k rc = some t') :
    t'.worker (.consumer k) = .outside ↔ t.Ends limit (.fetchTaskletAndExecute k rc) := by
  have hself : ∀ position : Position,
      Function.update t.worker (.consumer k) position (.consumer k) = position :=
    fun position ↦ Function.update_self ..
  unfold consumerStep at hstep
  split at hstep
  case h_1 limit' count hw =>
    obtain ⟨rfl, hlimit⟩ := (hw ▸ h).not_withinLimit_iff
    rw [ends_consumer_iff hw, ← hlimit]
    split_ifs at hstep with hwithin
    · split at hstep <;> cases hstep
      case h_1 u items hfetch =>
        obtain ⟨hattached, hitems⟩ := fetchNextTasklet_some hfetch
        refine iff_of_false (fun hout ↦ Position.noConfusion ((hself _).symm.trans hout)) ?_
        rintro (hnot | hempty)
        · exact hnot hwithin
        · exact List.cons_ne_nil u items (hitems.symm.trans (hempty hattached))
      case h_2 items hfetch =>
        exact iff_of_true (hself _) (Or.inr (fetchNextTasklet_none hfetch))
    · cases hstep
      exact iff_of_true (hself _) (Or.inl hwithin)
  case h_5 => cases hstep
  all_goals
    refine iff_of_false (fun hout ↦ ?_) (not_ends_of_handling ‹_› true rc)
    cases hstep
    exact Position.noConfusion ((hself _).symm.trans hout)

/-- An action that is not a step of a worker in its loop leaves the log and these workers alone. -/
theorem next_of_worker_eq_none {action : Action ι κ} (hnone : action.worker = none)
    (hnext : next t action = some t') :
    t'.log = t.log ∧ ∀ w, t.worker w ≠ .outside → t'.worker w = t.worker w := by
  cases action with
  | attachToQueue w' =>
    simp only [next] at hnext
    split_ifs at hnext
    cases hnext
    exact ⟨rfl, fun _ _ ↦ rfl⟩
  | detachFromQueue w' =>
    simp only [next] at hnext
    split_ifs at hnext
    cases hnext
    exact ⟨rfl, fun _ _ ↦ rfl⟩
  | enter w' limit' =>
    simp only [next] at hnext
    split_ifs at hnext with hout
    cases hnext
    refine ⟨List.append_nil _, fun w hin ↦ Function.update_of_ne ?_ ..⟩
    rintro rfl
    exact hin hout
  | generateTaskletAndDispatch i available => cases hnone
  | fetchTaskletAndExecute k rc => cases hnone

/-- A worker leaves its loop with the last step of its call, and with no other. -/
theorem Call.outside_iff {action : Action ι κ} (h : Call w limit s t new)
    (hin : t.worker w ≠ .outside) (hnext : next t action = some t') :
    t'.worker w = .outside ↔ action.worker = some w ∧ t.Ends limit action := by
  have hothers : t'.worker w = t.worker w → action.worker ≠ some w →
      (t'.worker w = .outside ↔ action.worker = some w ∧ t.Ends limit action) := by
    intro hsame hworker
    rw [hsame]
    exact iff_of_false hin fun hends ↦ hworker hends.1
  have hnobody : action.worker = none →
      (t'.worker w = .outside ↔ action.worker = some w ∧ t.Ends limit action) := by
    intro hnone
    refine hothers ((next_of_worker_eq_none hnone hnext).2 w hin) ?_
    rw [hnone]
    exact (Option.some_ne_none w).symm
  cases action with
  | attachToQueue w' => exact hnobody rfl
  | detachFromQueue w' => exact hnobody rfl
  | enter w' limit' => exact hnobody rfl
  | generateTaskletAndDispatch i available =>
    by_cases hw : w = .producer i
    · subst hw
      exact (outside_producerStep_iff h.stands hnext).trans (and_iff_right rfl).symm
    · exact hothers ((worker_producerStep hnext).2 w hw) fun hww ↦ hw (Option.some.inj hww).symm
  | fetchTaskletAndExecute k rc =>
    by_cases hw : w = .consumer k
    · subst hw
      exact (outside_consumerStep_iff h.stands hnext).trans (and_iff_right rfl).symm
    · exact hothers ((worker_consumerStep hnext).2 w hw) fun hww ↦ hw (Option.some.inj hww).symm

/-! ### The number of steps -/

theorem log_producerStep {i : ι} {available : Bool} (hstep : t.producerStep i available = some t') :
    ∃ e events, t'.log = t.log ++ e :: events ∧ e.worker = some (.producer i) := by
  unfold producerStep at hstep
  split at hstep
  case h_5 => cases hstep
  all_goals (try split_ifs at hstep) <;> cases hstep <;> exact ⟨_, _, rfl, rfl⟩

theorem log_consumerStep {k : κ} {rc : Result} (hstep : t.consumerStep k rc = some t') :
    ∃ e events, t'.log = t.log ++ e :: events ∧ e.worker = some (.consumer k) := by
  unfold consumerStep at hstep
  split at hstep
  case h_5 => cases hstep
  all_goals (try split_ifs at hstep) <;> (try split at hstep) <;> cases hstep <;>
    exact ⟨_, _, rfl, rfl⟩

/-- Every step of a worker is something that it does. -/
theorem length_own_next {action : Action ι κ} (hnext : next t action = some t') :
    (own w t.log).length + action.stepsOf w ≤ (own w t'.log).length := by
  have hstep : ∀ {w' : Worker ι κ},
      (∃ e events, t'.log = t.log ++ e :: events ∧ e.worker = some w') → action.worker = some w' →
      (own w t.log).length + action.stepsOf w ≤ (own w t'.log).length := by
    rintro w' ⟨e, events, hlog, he⟩ hworker
    rw [hlog, own_append, List.length_append, Action.stepsOf, hworker]
    split_ifs with hw
    · have hown : own w (e :: events) = e :: own w events :=
        List.filter_cons_of_pos (decide_eq_true (he.trans hw))
      rw [hown, List.length_cons]
      omega
    · omega
  have hnobody : action.worker = none →
      (own w t.log).length + action.stepsOf w ≤ (own w t'.log).length := by
    intro hnone
    rw [(next_of_worker_eq_none hnone hnext).1, Action.stepsOf, hnone,
      if_neg (Option.some_ne_none w).symm]
    exact Nat.le_refl _
  cases action with
  | attachToQueue w' => exact hnobody rfl
  | detachFromQueue w' => exact hnobody rfl
  | enter w' limit' => exact hnobody rfl
  | generateTaskletAndDispatch i available => exact hstep (log_producerStep hnext) rfl
  | fetchTaskletAndExecute k rc => exact hstep (log_consumerStep hnext) rfl

theorem length_own_run {actions : List (Action ι κ)} (hrun : System.run next s actions = some t) :
    (own w s.log).length + (actions.map (Action.stepsOf w)).sum ≤ (own w t.log).length := by
  have hpaid := System.run_potential (I := fun _ ↦ True)
    (μ := fun s : Pool ι κ ↦ -((own w s.log).length : ℤ)) (c := Action.stepsOf w) (g := fun _ ↦ 0)
    (fun _ _ _ _ _ ↦ trivial) (fun s action s' _ hnext ↦ by
      have hnext' := length_own_next (w := w) hnext
      omega) trivial hrun
  have hzero : (actions.map fun _ ↦ 0).sum = 0 := by simp
  rw [hzero] at hpaid
  omega

/-- As long as a call has not returned, its worker has taken four steps at most for each tasklet. -/
theorem Call.steps_le {actions : List (Action ι κ)} (h : Call w limit s t new)
    (hrun : System.run next s (.enter w limit :: actions) = some t)
    (hin : t.worker w ≠ .outside) :
    (actions.map (Action.stepsOf w)).sum ≤ 4 * (taken (own w new)).length := by
  have hsteps := length_own_run (w := w) hrun
  have henter : (Action.enter w limit).stepsOf w = 0 := if_neg (Option.some_ne_none w).symm
  have hdone := h.stands.length_le hin
  rw [h.log, own_append, List.length_append, List.map_cons, List.sum_cons, henter] at hsteps
  omega

/-- A call of `generateTaskletAndDispatch` or `fetchTaskletAndExecute`, in any pool and in any
interleaving with what the other workers do. At any time it consists of rounds, and has taken no
more tasklets than the limit allows; when it has returned, then the number of its rounds, as a
`size_t`. As long as it has not returned, its worker has taken four steps at most for each tasklet,
so that with a limit it has returned after four times as many; the worker is not blocked; and its
next step returns exactly if it is at its loop test and the limit is reached or there is nothing
left to take. -/
theorem batch_run (s t : Pool ι κ) (w : Worker ι κ) (limit : SizeT) (actions : List (Action ι κ))
    (hrun : System.run next s (.enter w limit :: actions) = some t)
    (honce : ∀ limit', .enter w limit' ∉ actions) :
    ∃ new, Call w limit s t new ∧ (limit ≠ 0 → (taken (own w new)).length ≤ limit.toNat) ∧
      (limit ≠ 0 → 4 * limit.toNat < (actions.map (Action.stepsOf w)).sum →
        t.worker w = .outside) ∧
      (t.worker w ≠ .outside →
        (actions.map (Action.stepsOf w)).sum ≤ 4 * (taken (own w new)).length ∧
        (∀ available rc, ∃ t', next t (w.step available rc) = some t') ∧
        ∀ action t', next t action = some t' →
          (t'.worker w = .outside ↔ action.worker = some w ∧ t.Ends limit action)) := by
  obtain ⟨new, hcall⟩ := call_run hrun honce
  have htaken := hcall.stands.length_taken_le
  refine ⟨new, hcall, htaken, fun hlimit hmany ↦ ?_, fun hin ↦ ⟨hcall.steps_le hrun hin, ?_,
    fun action t' hnext ↦ hcall.outside_iff hin hnext⟩⟩
  · by_contra hin
    have hle := hcall.steps_le hrun hin
    have hle' := htaken hlimit
    omega
  · exact exists_step hin fun duty limit' count u hw ↦ (hw ▸ hcall.stands).does

/-- Two tasklets are in the queue. -/
def twoQueued : Pool Bool Bool := { start fun _ ↦ true with items := [7, 8] }

/-- A consumer with a limit of one, and another one that pops the second tasklet in the meantime. -/
def oneOfTwo : List (Action Bool Bool) :=
  [.fetchTaskletAndExecute false .success, .enter (.consumer true) 0,
    .fetchTaskletAndExecute true .failed, .fetchTaskletAndExecute false .success,
    .fetchTaskletAndExecute false .success, .fetchTaskletAndExecute false .success,
    .fetchTaskletAndExecute false .success]

def afterOneOfTwo : Pool Bool Bool :=
  (System.run next twoQueued (.enter (.consumer false) 1 :: oneOfTwo)).get (by decide +kernel)

/-- A producer without a limit has pushed a tasklet, and a consumer has popped it. -/
def untilDry : List (Action Bool Bool) :=
  [.generateTaskletAndDispatch false true, .generateTaskletAndDispatch false true,
    .enter (.consumer true) 0, .generateTaskletAndDispatch false true,
    .fetchTaskletAndExecute true .success]

def beforeDry : Pool Bool Bool :=
  (System.run next (start fun _ ↦ true) (.enter (.producer false) 0 :: untilDry)).get
    (by decide +kernel)

/-- The consumer returns after five steps, and the producer when no other tasklet is available. -/
theorem batch_run_oneOfTwo :
    (afterOneOfTwo.worker (.consumer false) = .outside ∧
      own (.consumer false) afterOneOfTwo.log =
        [.fetched false (some 7), .prepareBeforeExecute false 7, .executed false 7 .success,
          .cleanupAfterExecute false 7, .returned (.consumer false) 1]) ∧
      ∃ t', next beforeDry (.generateTaskletAndDispatch false false) = some t' ∧
        t'.worker (.producer false) = .outside ∧
        own (.producer false) t'.log =
          [.generated false (some 0), .prepareBeforeDispatch false 0, .dispatched false 0 true,
            .generated false none, .returned (.producer false) 1] := by
  constructor
  · obtain ⟨new, -, -, houtside, -⟩ := batch_run twoQueued afterOneOfTwo (.consumer false) 1
      oneOfTwo (Option.some_get _).symm fun limit ↦ by simp [oneOfTwo]
    exact ⟨houtside (by decide) (by decide), by decide +kernel⟩
  · obtain ⟨new, -, -, -, hinside⟩ := batch_run (start fun _ ↦ true) beforeDry (.producer false) 0
      untilDry (Option.some_get _).symm fun limit ↦ by simp [untilDry]
    obtain ⟨-, hsteps, houtside⟩ := hinside (by decide +kernel)
    obtain ⟨t', hnext⟩ := hsteps false .success
    refine ⟨t', hnext, (houtside _ t' hnext).mpr ⟨rfl, 1, by decide +kernel, Or.inr rfl⟩, ?_⟩
    have ht' : t' = (next beforeDry (.generateTaskletAndDispatch false false)).get
        (by decide +kernel) := Option.some.inj (hnext.symm.trans (Option.some_get _).symm)
    rw [ht']
    decide +kernel

end Pool

end Nebula.ProducerAndConsumer
