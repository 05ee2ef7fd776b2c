import Nebula.ProducerAndConsumer.Lives

/-!
Nothing is lost between producers and consumers. Tasklets are popped in the order in which they were
pushed, and those of one producer in the order in which it generated them (`InOrder`). When all
workers have left their loops and the queue has been destroyed, the stages that are left are the
last ones of a life, and each has one fate and one deletion in its history. `conserved_run` puts the
two together.
-/

set_option autoImplicit false
set_option relaxedAutoImplicit false

namespace Nebula.ProducerAndConsumer

open Nebula.Library

variable {ι κ : Type*} [DecidableEq ι]

/-! ### Sequences of tasklets -/

def Event.pushed : Event ι κ → Option ℕ
  | .dispatched _ t true => some t
  | _ => none

def Event.popped : Event ι κ → Option ℕ
  | .fetched _ t => t
  | _ => none

def Event.generatedBy (i : ι) : Event ι κ → Option ℕ
  | .generated j t => if j = i then t else none
  | _ => none

def Event.pushedBy (i : ι) : Event ι κ → Option ℕ
  | .dispatched j t true => if j = i then some t else none
  | _ => none

/-- The tasklets that were pushed, in order. -/
def pushed (log : List (Event ι κ)) : List ℕ := log.filterMap Event.pushed

/-- The tasklets that were popped, in order. -/
def popped (log : List (Event ι κ)) : List ℕ := log.filterMap Event.popped

/-- The tasklets that a producer has generated, in order. -/
def generatedBy (i : ι) (log : List (Event ι κ)) : List ℕ := log.filterMap (Event.generatedBy i)

/-- The tasklets that a producer has pushed, in order. -/
def pushedBy (i : ι) (log : List (Event ι κ)) : List ℕ := log.filterMap (Event.pushedBy i)

/-- The tasklet that a producer is going to push. -/
def Position.pending : Position → List ℕ
  | .handling .prepareBeforeDispatch _ _ t | .handling .dispatchTasklet _ _ t => [t]
  | _ => []

theorem mem_generatedBy {i : ι} {log : List (Event ι κ)} {t : ℕ} :
    t ∈ generatedBy i log ↔ .generated i (some t) ∈ log := by
  rw [generatedBy, List.mem_filterMap]
  constructor
  · rintro ⟨e, he, ht⟩
    cases e with
    | generated j t' =>
      simp only [Event.generatedBy, Option.ite_none_right_eq_some] at ht
      obtain ⟨rfl, rfl⟩ := ht
      exact he
    | _ => cases ht
  · exact fun he ↦ ⟨_, he, if_pos rfl⟩

namespace Pool

/-- The queue is first in, first out, and producers push in the order in which they generate. -/
structure InOrder (s : Pool ι κ) : Prop where
  fifo : pushed s.log = popped s.log ++ s.items
  pending : ∀ i, (pushedBy i s.log ++ (s.worker (.producer i)).pending).Sublist
    (generatedBy i s.log)

variable [DecidableEq κ] {s s' : Pool ι κ} {i : ι} {k : κ} {events : List (Event ι κ)}

/-- A worker goes on. -/
theorem InOrder.go (h : s.InOrder) {w : Worker ι κ} {position : Position}
    (hlog : s'.log = s.log ++ events) (hworker : s'.worker = Function.update s.worker w position)
    (hfifo : s.items ++ pushed events = popped events ++ s'.items)
    (hown : ∀ i, w = .producer i → (pushedBy i events ++ position.pending).Sublist
      ((s.worker w).pending ++ generatedBy i events))
    (hothers : ∀ i, w ≠ .producer i → pushedBy i events = []) : s'.InOrder where
  fifo := by
    have hpushed : pushed s'.log = pushed s.log ++ pushed events := by
      rw [hlog, pushed, List.filterMap_append]
      rfl
    have hpopped : popped s'.log = popped s.log ++ popped events := by
      rw [hlog, popped, List.filterMap_append]
      rfl
    rw [hpushed, hpopped, h.fifo, List.append_assoc, hfifo, List.append_assoc]
  pending j := by
    have hpushed : pushedBy j s'.log = pushedBy j s.log ++ pushedBy j events := by
      rw [hlog, pushedBy, List.filterMap_append]
      rfl
    have hgenerated : generatedBy j s'.log = generatedBy j s.log ++ generatedBy j events := by
      rw [hlog, generatedBy, List.filterMap_append]
      rfl
    rw [hpushed, hgenerated, hworker, Function.update_apply]
    split_ifs with hwj
    · rw [List.append_assoc]
      have hpending := h.pending j
      rw [hwj] at hpending
      refine ((List.append_sublist_append_left _).mpr (hown j hwj.symm)).trans ?_
      rw [← List.append_assoc]
      exact (List.append_sublist_append_right _).mpr hpending
    · rw [hothers j fun hwj' ↦ hwj hwj'.symm, List.append_nil]
      exact (h.pending j).trans (List.sublist_append_left ..)

theorem inOrder_steps (h : s.InOrder) (hsteps : s.Steps s') : s'.InOrder := by
  cases hsteps with
  | setAttached w attached hw => exact ⟨h.fifo, h.pending⟩
  | generated i limit count hw hlimit =>
    refine h.go rfl rfl (List.append_nil _) (fun j hj ↦ ?_) fun _ _ ↦ rfl
    cases hj
    rw [hw]
    simp [pushedBy, generatedBy, Event.pushedBy, Event.generatedBy, Position.pending]
  | preparedBeforeDispatch i limit count t hw =>
    refine h.go rfl rfl (List.append_nil _) (fun j hj ↦ ?_) fun _ _ ↦ rfl
    rw [hw]
    exact List.Sublist.refl [t]
  | pushed i limit count t hw hattached =>
    refine h.go rfl rfl rfl (fun j hj ↦ ?_) fun j hj ↦ ?_
    · cases hj
      rw [hw]
      simp [pushedBy, generatedBy, Event.pushedBy, Event.generatedBy, Position.pending]
    · have hij : i ≠ j := fun hij ↦ hj (congrArg _ hij)
      simp [pushedBy, Event.pushedBy, hij]
  | fetched k limit count t rest hw hlimit hattached hitems =>
    refine h.go rfl rfl ?_ nofun fun _ _ ↦ rfl
    rw [hitems, pushed, popped]
    simp [Event.pushed, Event.popped]
  | executed k limit count t rc hw =>
    refine h.go rfl rfl ?_ nofun fun j _ ↦ ?_
    · cases rc <;> exact List.append_nil _
    · cases rc <;> rfl
  | _ => exact h.go rfl rfl (List.append_nil _) (fun _ _ ↦ List.nil_sublist _) fun _ _ ↦ rfl

theorem inOrder_run (attached : Worker ι κ → Bool) {actions : List (Action ι κ)}
    (hrun : System.run next (start attached) actions = some s) : s.InOrder := by
  have hstart : (start attached : Pool ι κ).InOrder := ⟨rfl, fun _ ↦ List.nil_sublist _⟩
  exact System.run_invariant (fun _ _ _ h hnext ↦ inOrder_steps h (steps_next hnext)) hstart hrun

end Pool

/-! ### Fates -/

/-- What can become of a tasklet. -/
inductive Fate (ι κ : Type*) where
  | executed (k : κ)
  | cleanedUp (i : ι)
  | cancelled

def Event.fate : Event ι κ → Option (Fate ι κ)
  | .executed k _ _ => some (.executed k)
  | .cleanupAfterDispatchFailure i _ => some (.cleanedUp i)
  | .cancelled _ => some .cancelled
  | _ => none

/-- What has become of a tasklet, according to a log. -/
def fates (log : List (Event ι κ)) (t : ℕ) : List (Fate ι κ) := (about log t).filterMap Event.fate

/-- What has to have happened to a tasklet of a producer before: it was pushed and popped by the
consumer that has executed it, its producer was not attached to a queue, or it was pushed and never
popped. -/
def Fate.Earned (log : List (Event ι κ)) (i : ι) (t : ℕ) : Fate ι κ → Prop
  | .executed k => .dispatched i t true ∈ log ∧ .fetched k (some t) ∈ log
  | .cleanedUp j => j = i ∧ .dispatched i t false ∈ log
  | .cancelled => .dispatched i t true ∈ log ∧ ∀ k, .fetched k (some t) ∉ log

/-- What should have become of all tasklets when the workers have finished and the queue has been
destroyed. -/
structure Conserved [DecidableEq κ] (log : List (Event ι κ)) : Prop where
  fifo : popped log <+: pushed log
  ordered : ∀ i, ((popped log).filter fun t ↦ decide (t ∈ generatedBy i log)).Sublist
    (generatedBy i log)
  fate : ∀ i t, .generated i (some t) ∈ log →
    log.count (.deleted t) = 1 ∧ ∃ fate, fates log t = [fate] ∧ fate.Earned log i t

namespace Stage

variable {st : Stage ι κ} {i j : ι} {t : ℕ}

omit [DecidableEq ι] in
/-- A tasklet is pushed by the producer that has generated it. -/
theorem generator {b : Bool} (h : .dispatched j t b ∈ st.history t) :
    .generated i (some t) ∈ st.history t ↔ j = i := by
  cases st with
  | executed i' k rc | finished i' k rc =>
    cases rc <;> simp_all [history, dispatch, execute, Result.stored, eq_comm]
  | _ => simp_all [history, dispatch, eq_comm]

/-- The stage of a tasklet when the queue has been destroyed. -/
def cancel : Stage ι κ → Stage ι κ
  | .queued i => .cancelled i
  | st => st

omit [DecidableEq ι] in
theorem place_cancel (h : ∀ w duty, st.place ≠ some (.worker w duty)) : st.cancel.place = none := by
  cases st <;> first | rfl | exact absurd rfl (h _ _)

/-- At the end of its life a tasklet has one fate, and has been deleted once. -/
theorem fate_of_place [DecidableEq κ] (hplace : st.place = none)
    (hgenerated : .generated i (some t) ∈ st.history t) :
    (st.history t).count (.deleted t) = 1 ∧
      ∃ fate, (st.history t).filterMap Event.fate = [fate] ∧ fate.Earned (st.history t) i t := by
  cases st with
  | discarded i' =>
    obtain rfl : i = i' := by simpa [history, dispatch] using hgenerated
    exact ⟨by simp [history, dispatch], .cleanedUp i, rfl, rfl, by simp [history, dispatch]⟩
  | finished i' k rc =>
    obtain rfl : i = i' := by
      cases rc <;> simpa [history, dispatch, execute, Result.stored] using hgenerated
    refine ⟨?_, .executed k, ?_, by simp [history, dispatch], by simp [history, execute]⟩
    · cases rc <;> simp [history, dispatch, execute, Result.stored]
    · cases rc <;> rfl
  | cancelled i' =>
    obtain rfl : i = i' := by simpa [history, dispatch] using hgenerated
    refine ⟨by simp [history, dispatch], .cancelled, rfl, by simp [history, dispatch], fun k ↦ ?_⟩
    simp [history, dispatch]
  | unborn => cases hgenerated
  | _ => cases hplace

end Stage

namespace Pool

variable {s : Pool ι κ} {stage : ℕ → Stage ι κ} {t : ℕ}

omit [DecidableEq ι] in
theorem about_flatMap_cancel {items : List ℕ} (hnodup : items.Nodup) :
    about (items.flatMap s.cancel) t = if t ∈ items then s.cancel t else [] := by
  induction items with
  | nil => rfl
  | cons u rest ih =>
    rw [List.nodup_cons] at hnodup
    rw [List.flatMap_cons, about_append, ih hnodup.2]
    by_cases hut : u = t
    · subst hut
      rw [if_neg hnodup.1, if_pos (List.mem_cons_self ..), List.append_nil]
      exact about_eq_self (by simp [cancel, Event.tasklet])
    · rw [about_eq_nil (by simp [cancel, Event.tasklet, hut]), List.nil_append]
      simp [Ne.symm hut]

omit [DecidableEq ι] in
/-- `~Queue` cancels what is in the queue. -/
theorem Lived.about_destroyQueue (h : s.Lived stage) (t : ℕ) :
    about s.destroyQueue.log t = (stage t).cancel.history t := by
  change about (s.log ++ s.items.flatMap s.cancel) t = _
  rw [about_append, h.history, about_flatMap_cancel h.nodup]
  by_cases hmem : t ∈ s.items
  · obtain ⟨i, hstage⟩ := Stage.of_queue ((h.holds t .queue).mp hmem)
    have hresult := h.result t (by rw [hstage]; trivial)
    rw [if_pos hmem, hstage, cancel, hresult]
    rfl
  · have hplace : (stage t).place ≠ some .queue := fun hplace ↦ hmem ((h.holds t .queue).mpr hplace)
    rw [if_neg hmem, List.append_nil]
    cases hstage : stage t with
    | queued i => exact absurd (by rw [hstage]; rfl) hplace
    | _ => rfl

omit [DecidableEq ι] in
/-- When the workers have left their loops and the queue has been destroyed, nobody has a tasklet in
hand. -/
theorem Lived.place_destroyQueue (h : s.Lived stage) (hfinished : ∀ w, s.worker w = .outside)
    (t : ℕ) : (stage t).cancel.place = none := by
  refine Stage.place_cancel fun w duty hplace ↦ ?_
  have hholds := (h.holds t (.worker w duty)).mpr hplace
  rw [Holds, hfinished] at hholds
  cases hholds

omit [DecidableEq ι] in
/-- A sequence that has nothing to do with cancelling. -/
theorem filterMap_destroyQueue {f : Event ι κ → Option ℕ}
    (hf : ∀ t, ∀ e ∈ s.cancel t, f e = none) :
    s.destroyQueue.log.filterMap f = s.log.filterMap f := by
  change (s.log ++ s.items.flatMap s.cancel).filterMap f = _
  rw [List.filterMap_append, List.append_right_eq_self, List.filterMap_eq_nil_iff]
  intro e he
  obtain ⟨t, -, ht⟩ := List.mem_flatMap.mp he
  exact hf t e ht

/-- The tasklets of one producer among those that were pushed. -/
theorem Lived.filter_pushed (h : s.Lived stage) (i : ι) :
    (pushed s.log).filter (fun t ↦ decide (t ∈ generatedBy i s.log)) = pushedBy i s.log := by
  rw [pushed, List.filter_filterMap, pushedBy]
  refine List.filterMap_congr fun e he ↦ ?_
  cases e with
  | dispatched j t ok =>
    cases ok with
    | true =>
      have hgenerator : t ∈ generatedBy i s.log ↔ j = i := by
        rw [mem_generatedBy, ← mem_about (t := t) rfl, h.history]
        refine Stage.generator (b := true) ?_
        rw [← h.history]
        exact (mem_about rfl).mpr he
      simp [Event.pushed, Event.pushedBy, hgenerator, Option.filter]
    | false => rfl
  | _ => rfl

/-- For any number of producers and consumers that share one queue, attached to it or not, with any
limits and in any interleaving: when all have left their loops and the queue has been destroyed, all
tasklets are accounted for. -/
theorem conserved_run [DecidableEq κ] (attached : Worker ι κ → Bool) (actions : List (Action ι κ))
    (s : Pool ι κ) (hrun : System.run next (start attached) actions = some s)
    (hfinished : ∀ w, s.worker w = .outside) : Conserved s.destroyQueue.log := by
  obtain ⟨stage, h⟩ := lived_run attached hrun
  obtain ⟨hfifo, hpending⟩ := inOrder_run attached hrun
  have hpushed : pushed s.destroyQueue.log = pushed s.log :=
    filterMap_destroyQueue (by simp [cancel, Event.pushed])
  have hpopped : popped s.destroyQueue.log = popped s.log :=
    filterMap_destroyQueue (by simp [cancel, Event.popped])
  have hgenerated : ∀ i, generatedBy i s.destroyQueue.log = generatedBy i s.log := fun i ↦
    filterMap_destroyQueue (by simp [cancel, Event.generatedBy])
  have hinit : popped s.log <+: pushed s.log := ⟨s.items, hfifo.symm⟩
  refine ⟨?_, fun i ↦ ?_, fun i t hmem ↦ ?_⟩
  · rw [hpushed, hpopped]
    exact hinit
  · rw [hpopped, hgenerated]
    refine (hinit.filter _).sublist.trans ?_
    rw [h.filter_pushed]
    exact (List.sublist_append_left ..).trans (hpending i)
  · -- nobody has the tasklet in hand any more, and it is not in the queue
    have hplace := h.place_destroyQueue hfinished t
    have habout := h.about_destroyQueue t
    rw [← mem_about (t := t) rfl, habout] at hmem
    obtain ⟨hcount, fate, hfate, hearned⟩ := Stage.fate_of_place hplace hmem
    rw [← habout] at hcount hfate hearned
    refine ⟨?_, fate, hfate, ?_⟩
    · rwa [count_about rfl] at hcount
    · cases fate with
      | executed k => exact hearned.imp (mem_about rfl).mp (mem_about rfl).mp
      | cleanedUp j => exact hearned.imp_right (mem_about rfl).mp
      | cancelled =>
        exact ⟨(mem_about rfl).mp hearned.1, fun k hk ↦ hearned.2 k ((mem_about rfl).mpr hk)⟩

/-- A producer generates two tasklets, another one that is not attached to the queue one, and a
consumer executes the first. -/
def threeTasklets : List (Action Bool Bool) :=
  .enter (.producer false) 2 :: List.replicate 7 (.generateTaskletAndDispatch false true) ++
    .enter (.producer true) 1 :: List.replicate 5 (.generateTaskletAndDispatch true true) ++
    .enter (.consumer false) 1 :: List.replicate 5 (.fetchTaskletAndExecute false .success)

def afterThreeTasklets : Pool Bool Bool :=
  (System.run next (start fun w ↦ decide (w ≠ .producer true)) threeTasklets).get
    (by decide +kernel)

theorem conserved_threeTasklets :
    afterThreeTasklets.items = [1] ∧ Conserved afterThreeTasklets.destroyQueue.log := by
  refine ⟨by decide +kernel, conserved_run _ threeTasklets _ (Option.some_get _).symm fun w ↦ ?_⟩
  rcases w with (_ | _) | (_ | _)
  all_goals decide +kernel

end Pool

end Nebula.ProducerAndConsumer
