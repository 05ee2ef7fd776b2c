import Nebula.ProducerAndConsumer.Pool
import Mathlib.Data.List.Nodup
import Mathlib.Tactic.SplitIfs

/-!
The life of a tasklet, on its own. It is generated by a producer and prepared for the queue; then it
is either rejected, and cleaned up by its producer, or pushed. In the queue it waits for a consumer,
who prepares, executes and deletes it, or for the queue to be destroyed. `Stage` is how far a
tasklet has come, `Stage.history` what has been done to it until then, and `Stage.place` who has it
in hand.

`Lived` connects this to the system of all workers: the log, restricted to one tasklet, is the
history of its stage, and the tasklet is in the one place where its stage says it is. Every step of
a worker moves one tasklet to its next stage (`Lived.move`), so that `lived_run` holds for every
run.
-/

set_option autoImplicit false
set_option relaxedAutoImplicit false

namespace Nebula.ProducerAndConsumer

open Nebula.Library

variable {ι κ : Type*}

/-! ### One tasklet -/

/-- How far a tasklet has come. -/
inductive Stage (ι κ : Type*) where
  | unborn
  | generated (i : ι)
  | prepared (i : ι)
  | rejected (i : ι)
  | discarded (i : ι)
  | queued (i : ι)
  | fetched (i : ι) (k : κ)
  | readied (i : ι) (k : κ)
  | executed (i : ι) (k : κ) (rc : Result)
  | finished (i : ι) (k : κ) (rc : Result)
  | cancelled (i : ι)

/-- Who has a tasklet in hand: a worker that is in front of a call on it, or the queue. -/
inductive Place (ι κ : Type*) where
  | worker (w : Worker ι κ) (duty : Duty)
  | queue

namespace Stage

/-- What the producer does until it has called `dispatchTasklet`. -/
def dispatch (t : ℕ) (i : ι) (pushed : Bool) : List (Event ι κ) :=
  [.generated i (some t), .prepareBeforeDispatch i t, .dispatched i t pushed]

/-- What the consumer does until `execute` has returned. -/
def execute (t : ℕ) (k : κ) (rc : Result) : List (Event ι κ) :=
  .fetched k (some t) :: .prepareBeforeExecute k t :: .executed k t rc ::
    rc.stored.map fun r ↦ .reported t r r

/-- What has been done to a tasklet. -/
def history (t : ℕ) : Stage ι κ → List (Event ι κ)
  | .unborn => []
  | .generated i => [.generated i (some t)]
  | .prepared i => [.generated i (some t), .prepareBeforeDispatch i t]
  | .rejected i => dispatch t i false
  | .discarded i => dispatch t i false ++ [.cleanupAfterDispatchFailure i t, .deleted t]
  | .queued i => dispatch t i true
  | .fetched i k => dispatch t i true ++ [.fetched k (some t)]
  | .readied i k => dispatch t i true ++ [.fetched k (some t), .prepareBeforeExecute k t]
  | .executed i k rc => dispatch t i true ++ execute t k rc
  | .finished i k rc =>
    dispatch t i true ++ execute t k rc ++ [.cleanupAfterExecute k t, .deleted t]
  | .cancelled i =>
      dispatch t i true ++ [.cancelled t, .reported t .cancelled .notAvailable, .deleted t]

/-- Who has the tasklet in hand, as long as it has been neither deleted nor not yet generated. -/
def place : Stage ι κ → Option (Place ι κ)
  | .unborn | .discarded _ | .finished _ _ _ | .cancelled _ => none
  | .generated i => some (.worker (.producer i) .prepareBeforeDispatch)
  | .prepared i => some (.worker (.producer i) .dispatchTasklet)
  | .rejected i => some (.worker (.producer i) .cleanupAfterDispatchFailure)
  | .queued _ => some .queue
  | .fetched _ k => some (.worker (.consumer k) .prepareBeforeExecute)
  | .readied _ k => some (.worker (.consumer k) .execute)
  | .executed _ k _ => some (.worker (.consumer k) .cleanupAfterExecute)

/-- The stage of a tasklet that a producer has in hand. -/
theorem of_producer {st : Stage ι κ} {i : ι} {duty : Duty}
    (h : st.place = some (.worker (.producer i) duty)) :
    duty = .prepareBeforeDispatch ∧ st = .generated i ∨
      duty = .dispatchTasklet ∧ st = .prepared i ∨
      duty = .cleanupAfterDispatchFailure ∧ st = .rejected i := by
  cases st <;> cases h <;> simp

/-- The stage of a tasklet that a consumer has in hand. -/
theorem of_consumer {st : Stage ι κ} {k : κ} {duty : Duty}
    (h : st.place = some (.worker (.consumer k) duty)) :
    ∃ i, duty = .prepareBeforeExecute ∧ st = .fetched i k ∨
      duty = .execute ∧ st = .readied i k ∨
      duty = .cleanupAfterExecute ∧ ∃ rc, st = .executed i k rc := by
  cases st <;> cases h <;> simp

theorem of_queue {st : Stage ι κ} (h : st.place = some .queue) : ∃ i, st = .queued i := by
  cases st <;> cases h
  exact ⟨_, rfl⟩

/-- `process` has not been called. -/
def Unexecuted : Stage ι κ → Prop
  | .executed _ _ _ | .finished _ _ _ => False
  | _ => True

end Stage

/-- The tasklet that something is done to. -/
def Event.tasklet : Event ι κ → Option ℕ
  | .generated _ t | .fetched _ t => t
  | .prepareBeforeDispatch _ t | .dispatched _ t _ | .cleanupAfterDispatchFailure _ t
  | .prepareBeforeExecute _ t | .executed _ t _ | .reported t _ _ | .cleanupAfterExecute _ t
  | .cancelled t | .deleted t => some t
  | .returned _ _ => none

/-- What has been done to a tasklet, according to a log. -/
def about (log : List (Event ι κ)) (t : ℕ) : List (Event ι κ) :=
  log.filter fun e ↦ decide (e.tasklet = some t)

theorem about_append (log events : List (Event ι κ)) (t : ℕ) :
    about (log ++ events) t = about log t ++ about events t := List.filter_append ..

theorem about_eq_self {events : List (Event ι κ)} {t : ℕ}
    (h : ∀ e ∈ events, e.tasklet = some t) : about events t = events :=
  List.filter_eq_self.mpr fun e he ↦ decide_eq_true (h e he)

theorem about_eq_nil {events : List (Event ι κ)} {t : ℕ}
    (h : ∀ e ∈ events, e.tasklet ≠ some t) : about events t = [] :=
  List.filter_eq_nil_iff.mpr fun e he ↦ by simpa using h e he

theorem mem_about {log : List (Event ι κ)} {t : ℕ} {e : Event ι κ} (h : e.tasklet = some t) :
    e ∈ about log t ↔ e ∈ log := by
  rw [about, List.mem_filter, decide_eq_true h]
  exact and_iff_left rfl

theorem count_about [DecidableEq ι] [DecidableEq κ] {log : List (Event ι κ)} {t : ℕ}
    {e : Event ι κ} (h : e.tasklet = some t) : (about log t).count e = log.count e :=
  List.count_filter (decide_eq_true h)

/-! ### All tasklets -/

/-- The call a worker is in front of, and the tasklet. -/
def Position.task : Position → Option (Duty × ℕ)
  | .handling duty _ _ t => some (duty, t)
  | _ => none

namespace Pool

/-- The tasklet is in the given place. -/
def Holds (s : Pool ι κ) : Place ι κ → ℕ → Prop
  | .worker w duty, t => (s.worker w).task = some (duty, t)
  | .queue, t => t ∈ s.items

/-- Every tasklet has come as far as `stage` says. -/
structure Lived (s : Pool ι κ) (stage : ℕ → Stage ι κ) : Prop where
  history : ∀ t, about s.log t = (stage t).history t
  holds : ∀ t place, s.Holds place t ↔ (stage t).place = some place
  unborn : ∀ t, stage t = .unborn ↔ s.generated ≤ t
  result : ∀ t, (stage t).Unexecuted → s.result t = .notAvailable
  nodup : s.items.Nodup

variable {s s' : Pool ι κ} {stage : ℕ → Stage ι κ} {t : ℕ}
  {events : List (Event ι κ)}

theorem lived_start (attached : Worker ι κ → Bool) :
    (start attached).Lived fun _ ↦ .unborn where
  history _ := rfl
  holds t place := by
    refine iff_of_false ?_ nofun
    cases place with
    | worker w duty => exact nofun
    | queue => exact List.not_mem_nil
  unborn t := iff_of_true rfl (Nat.zero_le t)
  result _ _ := rfl
  nodup := List.nodup_nil

namespace Lived

/-- A tasklet moves to another stage. -/
theorem move (h : s.Lived stage) (st : Stage ι κ) (hlog : s'.log = s.log ++ events)
    (habout : ∀ e ∈ events, e.tasklet = some t)
    (hhistory : st.history t = (stage t).history t ++ events)
    (hholds : ∀ u place, s'.Holds place u ↔
      if u = t then st.place = some place else s.Holds place u)
    (hgenerated : ∀ u, u ≠ t → (s'.generated ≤ u ↔ s.generated ≤ u)) (hborn : st ≠ .unborn)
    (hlt : t < s'.generated) (hothers : ∀ u, u ≠ t → s'.result u = s.result u)
    (hresult : st.Unexecuted → s'.result t = .notAvailable) (hnodup : s'.items.Nodup) :
    s'.Lived (Function.update stage t st) where
  history u := by
    rw [hlog, about_append, h.history, Function.update_apply]
    split_ifs with hut
    · rw [hut, about_eq_self habout, hhistory]
    · have hnot : ∀ e ∈ events, e.tasklet ≠ some u := fun e he hu ↦
        hut (Option.some.inj (hu.symm.trans (habout e he)))
      rw [about_eq_nil hnot, List.append_nil]
  holds u place := by
    rw [hholds, Function.update_apply]
    split_ifs
    · rfl
    · exact h.holds u place
  unborn u := by
    rw [Function.update_apply]
    split_ifs with hut
    · exact iff_of_false hborn (by omega)
    · rw [hgenerated u hut]
      exact h.unborn u
  result u := by
    rw [Function.update_apply]
    split_ifs with hut
    · exact hut ▸ hresult
    · rw [hothers u hut]
      exact h.result u
  nodup := hnodup

/-- Something happens that is about no tasklet, and moves none. -/
theorem idle (h : s.Lived stage) (hlog : s'.log = s.log ++ events)
    (habout : ∀ e ∈ events, e.tasklet = none) (hitems : s'.items = s.items)
    (htask : ∀ w, (s'.worker w).task = (s.worker w).task) (hgenerated : s'.generated = s.generated)
    (hresult : s'.result = s.result) : s'.Lived stage where
  history t := by
    have hnot : ∀ e ∈ events, e.tasklet ≠ some t := fun e he ht ↦ by
      rw [habout e he] at ht
      cases ht
    rw [hlog, about_append, h.history, about_eq_nil hnot, List.append_nil]
  holds t place := by
    rw [← h.holds]
    cases place with
    | worker w duty => rw [Holds, Holds, htask]
    | queue => rw [Holds, Holds, hitems]
  unborn t := hgenerated ▸ h.unborn t
  result t := hresult ▸ h.result t
  nodup := hitems ▸ h.nodup

/-- A tasklet that is somewhere has been generated. -/
theorem lt_of_place (h : s.Lived stage) (hplace : (stage t).place ≠ none) : t < s.generated := by
  refine Nat.lt_of_not_le fun hle ↦ hplace ?_
  rw [(h.unborn t).mpr hle]
  rfl

/-- A tasklet that is somewhere else is not in the queue. -/
theorem not_mem_items (h : s.Lived stage) (hplace : (stage t).place ≠ some .queue) :
    t ∉ s.items := fun hmem ↦ hplace ((h.holds t .queue).mp hmem)

/-- The stage of a tasklet that a producer is in front of a call on. -/
theorem stage_producer (h : s.Lived stage) {i : ι} {duty : Duty} {limit count : SizeT}
    (hw : s.worker (.producer i) = .handling duty limit count t) :
    duty = .prepareBeforeDispatch ∧ stage t = .generated i ∨
      duty = .dispatchTasklet ∧ stage t = .prepared i ∨
      duty = .cleanupAfterDispatchFailure ∧ stage t = .rejected i :=
  Stage.of_producer ((h.holds t (.worker (.producer i) duty)).mp (by rw [Holds, hw]; rfl))

/-- The stage of a tasklet that a consumer is in front of a call on. -/
theorem stage_consumer (h : s.Lived stage) {k : κ} {duty : Duty} {limit count : SizeT}
    (hw : s.worker (.consumer k) = .handling duty limit count t) :
    ∃ i, duty = .prepareBeforeExecute ∧ stage t = .fetched i k ∨
      duty = .execute ∧ stage t = .readied i k ∨
      duty = .cleanupAfterExecute ∧ ∃ rc, stage t = .executed i k rc :=
  Stage.of_consumer ((h.holds t (.worker (.consumer k) duty)).mp (by rw [Holds, hw]; rfl))

variable [DecidableEq ι] [DecidableEq κ] {w : Worker ι κ} {position : Position}

/-- What the workers have in hand when one of them passes a tasklet on, or takes one. -/
theorem task_iff (h : s.Lived stage) (st : Stage ι κ)
    (hw : ∀ duty u, (s.worker w).task = some (duty, u) → u = t)
    (hold : ∀ w' duty, (stage t).place = some (.worker w' duty) → w' = w)
    (hnew : st.place = (position.task.map fun task ↦ .worker w task.1) ∨
      position.task = none ∧ ∀ w' duty, st.place ≠ some (.worker w' duty))
    (htask : ∀ duty u, position.task = some (duty, u) → u = t) (w' : Worker ι κ) (duty : Duty)
    (u : ℕ) :
    (Function.update s.worker w position w').task = some (duty, u) ↔
      if u = t then st.place = some (.worker w' duty) else (s.worker w').task = some (duty, u) := by
  rw [Function.update_apply]
  by_cases hww : w' = w
  · rw [if_pos hww, hww]
    split_ifs with hut
    · -- the worker has the tasklet in hand exactly if its new stage says so
      rcases hnew with hplace | ⟨hnone, hplace⟩
      · rw [hplace, hut]
        cases hpos : position.task with
        | none => exact iff_of_false nofun nofun
        | some task =>
          obtain ⟨duty', u'⟩ := task
          obtain rfl := htask duty' u' hpos
          simp
      · rw [hnone]
        exact iff_of_false nofun (hplace w duty)
    · exact iff_of_false (fun hpos ↦ hut (htask duty u hpos)) fun hpos ↦ hut (hw duty u hpos)
  · rw [if_neg hww]
    split_ifs with hut
    · refine iff_of_false (fun hpos ↦ hww (hold w' duty ?_)) fun hplace ↦ ?_
      · exact (h.holds t (.worker w' duty)).mp (hut ▸ hpos)
      · rcases hnew with hmap | ⟨-, hnot⟩
        · rw [hmap] at hplace
          cases hpos : position.task with
          | none =>
            rw [hpos] at hplace
            cases hplace
          | some task =>
            rw [hpos] at hplace
            cases hplace
            exact hww rfl
        · exact hnot w' duty hplace
    · rfl

/-- A worker calls something on the tasklet it has in hand. -/
theorem handle (h : s.Lived stage) (st : Stage ι κ) {duty : Duty} {limit count : SizeT}
    (hw : s.worker w = .handling duty limit count t)
    (hworker : s'.worker = Function.update s.worker w position) (hlog : s'.log = s.log ++ events)
    (hitems : s'.items = s.items) (hgenerated : s'.generated = s.generated)
    (hplace : st.place = position.task.map fun task ↦ .worker w task.1)
    (htask : ∀ duty u, position.task = some (duty, u) → u = t)
    (hborn : st ≠ .unborn) (habout : ∀ e ∈ events, e.tasklet = some t)
    (hhistory : st.history t = (stage t).history t ++ events)
    (hothers : ∀ u, u ≠ t → s'.result u = s.result u)
    (hresult : st.Unexecuted → s'.result t = .notAvailable) :
    s'.Lived (Function.update stage t st) := by
  have hold : (stage t).place = some (.worker w duty) :=
    (h.holds t (.worker w duty)).mp (by rw [Holds, hw]; rfl)
  have hqueue : st.place ≠ some .queue := by
    rw [hplace]
    cases position.task <;> nofun
  refine h.move st hlog habout hhistory (fun u place ↦ ?_) (fun u _ ↦ by rw [hgenerated]) hborn
    (hgenerated ▸ h.lt_of_place (by rw [hold]; nofun)) hothers hresult (hitems ▸ h.nodup)
  cases place with
  | worker w' duty' =>
    rw [Holds, hworker]
    refine h.task_iff st (fun duty'' u' hu' ↦ ?_) (fun w'' duty'' hw'' ↦ ?_) (Or.inl hplace) htask
      w' duty' u
    · rw [hw] at hu'
      cases hu'
      rfl
    · rw [hold] at hw''
      cases hw''
      rfl
  | queue =>
    rw [Holds, hitems]
    split_ifs with hut
    · refine iff_of_false (fun hmem ↦ ?_) hqueue
      have hin := (h.holds t .queue).mp (hut ▸ hmem)
      rw [hold] at hin
      cases hin
    · rfl

/-- A call on a tasklet that does not store a result. -/
theorem call (h : s.Lived stage) (st : Stage ι κ) {duty : Duty} {limit count : SizeT}
    (hw : s.worker w = .handling duty limit count t)
    (hplace : st.place = position.task.map fun task ↦ .worker w task.1)
    (htask : ∀ duty u, position.task = some (duty, u) → u = t)
    (hborn : st ≠ .unborn) (habout : ∀ e ∈ events, e.tasklet = some t)
    (hhistory : st.history t = (stage t).history t ++ events)
    (hunexecuted : st.Unexecuted → (stage t).Unexecuted) :
    (s.go w position events).Lived (Function.update stage t st) :=
  h.handle st hw rfl rfl rfl rfl hplace htask hborn habout hhistory (fun _ _ ↦ rfl)
    fun hst ↦ h.result t (hunexecuted hst)

end Lived

/-! ### Steps of producers -/

variable [DecidableEq ι] [DecidableEq κ] {i : ι} {k : κ}

/-- `generateNextTasklet` returns a new tasklet. -/
theorem Lived.generate (h : s.Lived stage) {limit count : SizeT}
    (hw : s.worker (.producer i) = .testing limit count) :
    Lived { s.go (.producer i) (.handling .prepareBeforeDispatch limit (count + 1) s.generated)
      [.generated i (some s.generated)] with generated := s.generated + 1 }
      (Function.update stage s.generated (.generated i)) := by
  have hunborn : stage s.generated = .unborn := (h.unborn s.generated).mpr (Nat.le_refl _)
  have hout : s.generated ∉ s.items := h.not_mem_items (by rw [hunborn]; nofun)
  refine h.move (.generated i) rfl (by simp [Event.tasklet]) (by rw [hunborn]; rfl)
    (fun u place ↦ ?_) (fun u hut ↦ ?_) nofun (Nat.lt_succ_self _) (fun _ _ ↦ rfl)
    (fun _ ↦ h.result _ (by rw [hunborn]; trivial)) h.nodup
  · cases place with
    | worker w' duty =>
      refine h.task_iff (t := s.generated) (.generated i) (by rw [hw]; nofun)
        (by rw [hunborn]; nofun)
        (Or.inl rfl) (fun _ _ htask ↦ ?_) w' duty u
      cases htask
      rfl
    | queue =>
      split_ifs with hut
      · exact iff_of_false (hut ▸ hout) nofun
      · rfl
  · change s.generated + 1 ≤ u ↔ s.generated ≤ u
    omega

/-- `dispatchTasklet` pushes a tasklet into the queue. -/
theorem Lived.push (h : s.Lived stage) {limit count : SizeT}
    (hw : s.worker (.producer i) = .handling .dispatchTasklet limit count t)
    (hstage : stage t = .prepared i) :
    ((s.pushTasklet t).go (.producer i) (.testing limit count) [.dispatched i t true]).Lived
      (Function.update stage t (.queued i)) := by
  have hout : t ∉ s.items := h.not_mem_items (by rw [hstage]; nofun)
  refine h.move (.queued i) rfl (by simp [Event.tasklet]) (by rw [hstage]; rfl)
    (fun u place ↦ ?_) (fun _ _ ↦ Iff.rfl) nofun (h.lt_of_place (by rw [hstage]; nofun))
    (fun _ _ ↦ rfl) (fun _ ↦ h.result t (by rw [hstage]; trivial)) ?_
  · cases place with
    | worker w' duty =>
      refine h.task_iff (t := t) (.queued i) (fun _ _ hu ↦ ?_) (fun _ _ hplace ↦ ?_)
        (Or.inr ⟨rfl, nofun⟩) ?_
        w' duty u
      · rw [hw] at hu
        cases hu
        rfl
      · rw [hstage] at hplace
        cases hplace
        rfl
      · exact nofun
    | queue =>
      change u ∈ s.items ++ [t] ↔ _
      split_ifs with hut
      · exact iff_of_true (by simp [hut]) rfl
      · simp [Holds, hut]
  · exact h.nodup.append (List.nodup_singleton t) (by simpa using hout)

/-! ### Steps of consumers -/

/-- `fetchNextTasklet` takes the first tasklet from the queue. -/
theorem Lived.fetch (h : s.Lived stage) {limit count : SizeT} {rest : List ℕ}
    (hw : s.worker (.consumer k) = .testing limit count) (hitems : s.items = t :: rest)
    (hstage : stage t = .queued i) :
    Lived { s.go (.consumer k) (.handling .prepareBeforeExecute limit count t)
      [.fetched k (some t)] with items := rest } (Function.update stage t (.fetched i k)) := by
  have hnodup := h.nodup
  rw [hitems, List.nodup_cons] at hnodup
  refine h.move (.fetched i k) rfl (by simp [Event.tasklet]) (by rw [hstage]; rfl)
    (fun u place ↦ ?_) (fun _ _ ↦ Iff.rfl) nofun (h.lt_of_place (by rw [hstage]; nofun))
    (fun _ _ ↦ rfl) (fun _ ↦ h.result t (by rw [hstage]; trivial)) hnodup.2
  cases place with
  | worker w' duty =>
    refine h.task_iff (.fetched i k) (by rw [hw]; nofun) (by rw [hstage]; nofun) (Or.inl rfl)
      (fun _ _ htask ↦ ?_) w' duty u
    cases htask
    rfl
  | queue =>
    change u ∈ rest ↔ _
    split_ifs with hut
    · exact iff_of_false (hut ▸ hnodup.1) nofun
    · simp [Holds, hitems, hut]

/-! ### Runs -/

/-- A worker enters its loop, or leaves it. -/
theorem Lived.pass (h : s.Lived stage) {w : Worker ι κ} {position : Position}
    (hw : (s.worker w).task = none) (hposition : position.task = none)
    (habout : ∀ e ∈ events, e.tasklet = none) : (s.go w position events).Lived stage := by
  refine h.idle rfl habout rfl (fun w' ↦ ?_) rfl rfl
  change (Function.update s.worker w position w').task = _
  rw [Function.update_apply]
  split_ifs with hww
  · rw [hww, hw, hposition]
  · rfl

/-- Every step moves at most one tasklet, to the next stage of its life. -/
theorem lived_steps (h : s.Lived stage) (hsteps : s.Steps s') : ∃ stage', s'.Lived stage' := by
  cases hsteps with
  | setAttached w attached hw =>
    exact ⟨stage, ⟨h.history, h.holds, h.unborn, h.result, h.nodup⟩⟩
  | entered w limit hw => exact ⟨stage, h.pass (by rw [hw]; rfl) rfl nofun⟩
  | limited w limit count hw hlimit =>
    exact ⟨stage, h.pass (by rw [hw]; rfl) rfl (by simp [Event.tasklet])⟩
  | noneGenerated i limit count hw hlimit =>
    exact ⟨stage, h.pass (by rw [hw]; rfl) rfl (by simp [Event.tasklet])⟩
  | noneFetched k limit count hw hlimit hnone =>
    exact ⟨stage, h.pass (by rw [hw]; rfl) rfl (by simp [Event.tasklet])⟩
  | generated i limit count hw hlimit => exact ⟨_, h.generate hw⟩
  | preparedBeforeDispatch i limit count t hw =>
    have hstage : stage t = .generated i := by simpa using h.stage_producer hw
    exact ⟨_, h.call (.prepared i) hw rfl (by simp [Position.task]) nofun (by simp [Event.tasklet])
      (by rw [hstage]; rfl) (by rw [hstage]; exact id)⟩
  | pushed i limit count t hw hattached =>
    exact ⟨_, h.push hw (by simpa using h.stage_producer hw)⟩
  | rejected i limit count t hw hattached =>
    have hstage : stage t = .prepared i := by simpa using h.stage_producer hw
    exact ⟨_, h.call (.rejected i) hw rfl (by simp [Position.task]) nofun (by simp [Event.tasklet])
      (by rw [hstage]; rfl) (by rw [hstage]; exact id)⟩
  | cleanedUpAfterDispatchFailure i limit count t hw =>
    have hstage : stage t = .rejected i := by simpa using h.stage_producer hw
    exact ⟨_, h.call (.discarded i) hw rfl (by simp [Position.task]) nofun (by simp [Event.tasklet])
      (by rw [hstage]; rfl) (by rw [hstage]; exact id)⟩
  | fetched k limit count t rest hw hlimit hattached hitems =>
    obtain ⟨i, hstage⟩ := Stage.of_queue ((h.holds t .queue).mp (by simp [Holds, hitems]))
    exact ⟨_, h.fetch hw hitems hstage⟩
  | preparedBeforeExecute k limit count t hw =>
    obtain ⟨i, hstage⟩ : ∃ i, stage t = .fetched i k := by simpa using h.stage_consumer hw
    exact ⟨_, h.call (.readied i k) hw rfl (by simp [Position.task]) nofun (by simp [Event.tasklet])
      (by rw [hstage]; rfl) (by rw [hstage]; exact id)⟩
  | executed k limit count t rc hw =>
    obtain ⟨i, hstage⟩ : ∃ i, stage t = .readied i k := by simpa using h.stage_consumer hw
    refine ⟨_, h.handle (.executed i k rc) hw rfl rfl rfl rfl rfl (by simp [Position.task]) nofun
      ?_ (by rw [hstage]; rfl) (fun u hut ↦ Function.update_of_ne hut ..) nofun⟩
    intro e he
    rcases List.mem_cons.mp he with rfl | he
    · rfl
    · obtain ⟨r, -, rfl⟩ := List.mem_map.mp he
      rfl
  | cleanedUpAfterExecute k limit count t hw =>
    obtain ⟨i, rc, hstage⟩ : ∃ i rc, stage t = .executed i k rc := by
      simpa using h.stage_consumer hw
    exact ⟨_, h.call (.finished i k rc) hw rfl (by simp [Position.task]) nofun
      (by simp [Event.tasklet])
      (by rw [hstage]; rfl) nofun⟩

/-- In every state that is reached, every tasklet has lived one life. -/
theorem lived_run (attached : Worker ι κ → Bool) {actions : List (Action ι κ)}
    (hrun : System.run next (start attached) actions = some s) : ∃ stage, s.Lived stage :=
  System.run_invariant (I := fun s : Pool ι κ ↦ ∃ stage, s.Lived stage)
    (fun _ _ _ ⟨_, h⟩ hnext ↦ lived_steps h (steps_next hnext)) ⟨_, lived_start attached⟩ hrun

end Pool

end Nebula.ProducerAndConsumer
