import Nebula.ProducerAndConsumer.Conservation

/-!
What tasklets report. `execute` stores the value that `process` has returned and reports it; the
case of `NOT_AVAILABLE` falls through to the next one, which stores and reports `SUCCESS` as well.
`~Queue` reports `CANCELLED` for the tasklets it finds in the queue, and does not store it.

`reportsTruly_iff` says that the reports of a run are what they should be exactly if no call of
`process` in it returns `NOT_AVAILABLE`, and the queue is empty when it is destroyed.
-/

set_option autoImplicit false
set_option relaxedAutoImplicit false

namespace Nebula.ProducerAndConsumer

open Nebula.Library

variable {ι κ : Type*}

/-! ### Reports -/

/-- The argument of a call of `reportResult`. -/
def Event.report : Event ι κ → Option Result
  | .reported _ rc _ => some rc
  | _ => none

/-- The results that were reported for a tasklet, according to a log. -/
def reports (log : List (Event ι κ)) (t : ℕ) : List Result := (about log t).filterMap Event.report

/-- The worker is in front of `execute`. -/
def Position.executing : Position → Bool
  | .handling .execute _ _ _ => true
  | _ => false

namespace Stage

/-- At the end of its life, a tasklet that was pushed has reported what became of it, unless
`process` has returned `NOT_AVAILABLE`. -/
theorem reports_of_place {st : Stage ι κ} {i : ι} {t : ℕ} (hplace : st.place = none)
    (hpushed : .dispatched i t true ∈ st.history t)
    (havailable : ∀ k, .executed k t .notAvailable ∉ st.history t) :
    ∃ rc, (st.history t).filterMap Event.report = [rc] ∧
      (∀ k rc', .executed k t rc' ∈ st.history t → rc = rc') ∧
      (.cancelled t ∈ st.history t → rc = .cancelled) := by
  cases st with
  | discarded i' => simp [history, dispatch] at hpushed
  | finished i' k rc =>
    refine ⟨rc, ?_, fun k' rc' hmem ↦ ?_, fun hmem ↦ ?_⟩
    · cases rc with
      | notAvailable => exact absurd (by simp [history, execute]) (havailable k)
      | _ => rfl
    · obtain ⟨-, rfl⟩ : k' = k ∧ rc' = rc := by
        simpa [history, dispatch, execute] using hmem
      rfl
    · simp [history, dispatch, execute] at hmem
  | cancelled i' =>
    refine ⟨.cancelled, rfl, fun k rc hmem ↦ ?_, fun _ ↦ rfl⟩
    simp [history, dispatch] at hmem
  | unborn => cases hpushed
  | _ => cases hplace

end Stage

namespace Pool

/-- Whatever was reported for a tasklet was its result at that time, and still is. -/
def Truthful (s : Pool ι κ) : Prop :=
  ∀ t rc result, .reported t rc result ∈ s.log → result = rc ∧ s.result t = rc

/-- Each tasklet that was pushed has reported once: what `process` returned if it was executed, and
`CANCELLED` if `~Queue` has taken it. -/
def ReportsOnce (s : Pool ι κ) : Prop :=
  ∀ i t, .dispatched i t true ∈ s.log → ∃ rc, reports s.log t = [rc] ∧
    (∀ k rc', .executed k t rc' ∈ s.log → rc = rc') ∧ (.cancelled t ∈ s.log → rc = .cancelled)

variable {s s' : Pool ι κ} {stage : ℕ → Stage ι κ} {events : List (Event ι κ)} {t : ℕ}
  {rc : Result} {k : κ}

/-- A step that neither stores nor reports a result. -/
theorem Truthful.step (h : s.Truthful) (hlog : s'.log = s.log ++ events)
    (hresult : s'.result = s.result) (hevents : ∀ e ∈ events, e.report = none) : s'.Truthful := by
  intro t rc result hmem
  rw [hlog] at hmem
  rcases List.mem_append.mp hmem with hold | hnew
  · rw [hresult]
    exact h t rc result hold
  · exact absurd (hevents _ hnew) nofun

/-- A tasklet that is ready to be executed has not reported anything. -/
theorem Lived.not_reported (h : s.Lived stage) {i : ι} (hstage : stage t = .readied i k)
    {rc result : Result} : .reported t rc result ∉ s.log := by
  intro hmem
  have habout := (mem_about (t := t) rfl).mpr hmem
  rw [h.history, hstage] at habout
  simp [Stage.history, Stage.dispatch] at habout

/-- `execute`, when `process` returns anything but `NOT_AVAILABLE`. -/
theorem Truthful.execute (h : s.Truthful) (hrc : rc ≠ .notAvailable)
    (hnot : ∀ rc' result, .reported t rc' result ∉ s.log)
    (hlog : s'.log = s.log ++ (.executed k t rc :: rc.stored.map fun r ↦ .reported t r r))
    (hresult : s'.result = Function.update s.result t (rc.stored.getLastD (s.result t))) :
    s'.Truthful := by
  have hstored : rc.stored = [rc] := by
    cases rc with
    | notAvailable => exact absurd rfl hrc
    | _ => rfl
  rw [hstored] at hlog hresult
  intro u rc' result hmem
  rw [hlog] at hmem
  rw [hresult, Function.update_apply]
  rcases List.mem_append.mp hmem with hold | hnew
  · have hut : u ≠ t := fun hut ↦ hnot rc' result (hut ▸ hold)
    rw [if_neg hut]
    exact h u rc' result hold
  · obtain ⟨rfl, rfl, rfl⟩ : u = t ∧ rc' = rc ∧ result = rc := by simpa using hnew
    exact ⟨rfl, if_pos rfl⟩

/-! ### Runs -/

variable [DecidableEq ι] [DecidableEq κ]

/-- What should be true of the reports of a run that ends in the given state, and of the
destruction of the queue behind it. -/
structure ReportsTruly (attached : Worker ι κ → Bool) (actions : List (Action ι κ))
    (s : Pool ι κ) : Prop where
  once : s.destroyQueue.ReportsOnce
  truthful : System.Always next Truthful (start attached) actions
  destroyed : s.destroyQueue.Truthful

/-- If the action is a call of `process`, then it does not return `NOT_AVAILABLE`. -/
def ProcessReturns (s : Pool ι κ) : Action ι κ → Prop
  | .fetchTaskletAndExecute k rc => (s.worker (.consumer k)).executing → rc ≠ .notAvailable
  | _ => True

instance (s : Pool ι κ) : (a : Action ι κ) → Decidable (s.ProcessReturns a)
  | .fetchTaskletAndExecute _ _ => inferInstanceAs (Decidable (_ → _))
  | .attachToQueue _ | .detachFromQueue _ | .enter _ _ | .generateTaskletAndDispatch _ _ =>
      isTrue trivial

/-- A value that `process` returns is the one of the action. -/
theorem executed_next {action : Action ι κ} (hnext : next s action = some s')
    (hmem : .executed k t rc ∈ s'.log) :
    .executed k t rc ∈ s.log ∨
      action = .fetchTaskletAndExecute k rc ∧ (s.worker (.consumer k)).executing := by
  cases action with
  | fetchTaskletAndExecute k' rc' =>
    change s.consumerStep k' rc' = some s' at hnext
    unfold consumerStep at hnext
    split at hnext
    case h_1 =>
      split_ifs at hnext
      · split at hnext <;> cases hnext <;> exact Or.inl (by simpa [go] using hmem)
      · cases hnext
        exact Or.inl (by simpa [go] using hmem)
    case h_3 limit count t' hw =>
      cases hnext
      rcases List.mem_append.mp hmem with hold | hnew
      · exact Or.inl hold
      · obtain ⟨rfl, rfl, rfl⟩ : k = k' ∧ t = t' ∧ rc = rc' := by simpa using hnew
        exact Or.inr ⟨rfl, by rw [hw]; rfl⟩
    case h_5 => cases hnext
    all_goals
      cases hnext
      exact Or.inl (by simpa [go] using hmem)
  | generateTaskletAndDispatch i available =>
    change s.producerStep i available = some s' at hnext
    unfold producerStep at hnext
    split at hnext
    case h_1 =>
      split_ifs at hnext <;> cases hnext <;> exact Or.inl (by simpa [go] using hmem)
    case h_3 =>
      split_ifs at hnext <;> cases hnext <;> exact Or.inl (by simpa [go, pushTasklet] using hmem)
    case h_5 => cases hnext
    all_goals
      cases hnext
      exact Or.inl (by simpa [go] using hmem)
  | _ =>
    simp only [next] at hnext
    split_ifs at hnext
    cases hnext
    exact Or.inl (by simpa [go] using hmem)

/-- A step that does not execute a tasklet whose `process` returns `NOT_AVAILABLE`. -/
theorem truthful_steps (h : s.Truthful) (hlived : s.Lived stage) (hsteps : s.Steps s')
    (hreturns : ∀ k t, .executed k t .notAvailable ∉ s'.log) : s'.Truthful := by
  cases hsteps with
  | setAttached w attached hw => exact h
  | executed k limit count t rc hw =>
    obtain ⟨i, hstage⟩ : ∃ i, stage t = .readied i k := by simpa using hlived.stage_consumer hw
    refine h.execute ?_ (fun _ _ ↦ hlived.not_reported hstage) rfl rfl
    rintro rfl
    exact hreturns k t (by simp [go])
  | _ => exact h.step rfl rfl (by simp [Event.report])

/-- A tasklet whose `process` returns `NOT_AVAILABLE` reports `SUCCESS` as well. -/
theorem exists_not_truthful {action : Action ι κ} (hnot : ¬ s.ProcessReturns action) :
    ∃ s', next s action = some s' ∧ ¬ s'.Truthful := by
  cases action with
  | fetchTaskletAndExecute k rc =>
    obtain ⟨hexecuting, hrc⟩ := Classical.not_imp.mp hnot
    obtain rfl := not_not.mp hrc
    have hposition : ∃ limit count t,
        s.worker (.consumer k) = .handling .execute limit count t := by
      unfold Position.executing at hexecuting
      split at hexecuting
      · exact ⟨_, _, _, ‹_›⟩
      · cases hexecuting
    obtain ⟨limit, count, t, hw⟩ := hposition
    refine ⟨_, by rw [next, consumerStep, hw], fun htruthful ↦ ?_⟩
    have hfirst := (htruthful t .notAvailable .notAvailable (by simp [go, Result.stored])).2
    have hsecond := (htruthful t .success .success (by simp [go, Result.stored])).2
    rw [hfirst] at hsecond
    cases hsecond
  | _ => exact absurd trivial hnot

/-- The tasklets have lived their lives, their reports are true, and no `process` has returned
`NOT_AVAILABLE`. -/
structure Reported (s : Pool ι κ) : Prop where
  lived : ∃ stage, s.Lived stage
  truthful : s.Truthful
  available : ∀ k t, .executed k t .notAvailable ∉ s.log

omit [DecidableEq ι] [DecidableEq κ] in
theorem reported_start (attached : Worker ι κ → Bool) : (start attached).Reported where
  lived := ⟨_, lived_start attached⟩
  truthful := nofun
  available _ _ := List.not_mem_nil

theorem Reported.next (h : s.Reported) {action : Action ι κ} (hreturns : s.ProcessReturns action)
    (hnext : next s action = some s') : s'.Reported := by
  obtain ⟨stage, hlived⟩ := h.lived
  have hsteps := steps_next hnext
  have havailable : ∀ k t, .executed k t .notAvailable ∉ s'.log := by
    intro k t hmem
    rcases executed_next hnext hmem with hold | ⟨rfl, hexecuting⟩
    · exact h.available k t hold
    · exact hreturns hexecuting rfl
  exact ⟨lived_steps hlived hsteps, truthful_steps h.truthful hlived hsteps havailable, havailable⟩

/-- The reports are true all along exactly in the runs in which no `process` returns
`NOT_AVAILABLE`. -/
theorem always_truthful_iff (attached : Worker ι κ → Bool) (actions : List (Action ι κ)) :
    System.Always next Truthful (start attached) actions ↔
      System.Meets next ProcessReturns (start attached) actions :=
  System.always_iff_meets (I := fun _ ↦ True) (J := Reported) (fun _ _ _ _ _ ↦ trivial)
    (fun _ _ _ h hreturns hnext ↦ h.next hreturns hnext) (fun _ h ↦ h.truthful)
    (fun _ _ _ hnot ↦ exists_not_truthful hnot) trivial (reported_start attached)

omit [DecidableEq ι] [DecidableEq κ] in
/-- `~Queue` executes nothing. -/
theorem executed_destroyQueue (h : .executed k t rc ∈ s.destroyQueue.log) :
    .executed k t rc ∈ s.log := by
  rcases List.mem_append.mp h with hold | hnew
  · exact hold
  · obtain ⟨u, -, hmem⟩ := List.mem_flatMap.mp hnew
    simp [cancel] at hmem

omit [DecidableEq ι] [DecidableEq κ] in
/-- In the end, a tasklet that was pushed has reported what became of it. -/
theorem Reported.once (h : s.Reported) (hfinished : ∀ w, s.worker w = .outside) :
    s.destroyQueue.ReportsOnce := by
  intro i t hpushed
  obtain ⟨stage, hlived⟩ := h.lived
  have hplace := hlived.place_destroyQueue hfinished t
  have habout := hlived.about_destroyQueue t
  have hmem : ∀ e : Event ι κ, e.tasklet = some t →
      (e ∈ (stage t).cancel.history t ↔ e ∈ s.destroyQueue.log) := fun e he ↦ by
    rw [← habout, mem_about he]
  obtain ⟨rc, hreports, hexecuted, hcancelled⟩ := Stage.reports_of_place hplace
    ((hmem _ rfl).mpr hpushed) fun k hk ↦
      h.available k t (executed_destroyQueue ((hmem _ rfl).mp hk))
  exact ⟨rc, by rw [reports, habout, hreports],
    fun k rc' hk ↦ hexecuted k rc' ((hmem _ rfl).mpr hk),
    fun hmem' ↦ hcancelled ((hmem _ rfl).mpr hmem')⟩

omit [DecidableEq ι] [DecidableEq κ] in
/-- `~Queue` reports `CANCELLED` for a tasklet whose result is still `NOT_AVAILABLE`. -/
theorem Lived.items_eq_nil (h : s.Lived stage) (htruthful : s.destroyQueue.Truthful) :
    s.items = [] := by
  refine List.eq_nil_iff_forall_not_mem.mpr fun t hmem ↦ ?_
  have hreported : .reported t .cancelled (s.result t) ∈ s.destroyQueue.log :=
    List.mem_append_right _ (List.mem_flatMap.mpr ⟨t, hmem, by simp [cancel]⟩)
  obtain ⟨i, hstage⟩ := Stage.of_queue ((h.holds t .queue).mp hmem)
  have hresult := (htruthful t _ _ hreported).1
  rw [h.result t (by rw [hstage]; trivial)] at hresult
  cases hresult

/-- For any number of producers and consumers that share one queue, with any limits and in any
interleaving, in the end of which all have left their loops and the queue is destroyed: the reports
are what they should be exactly if no call of `process` returns `NOT_AVAILABLE` and the queue is
empty when it is destroyed. -/
theorem reportsTruly_iff (attached : Worker ι κ → Bool) (actions : List (Action ι κ))
    (s : Pool ι κ) (hrun : System.run next (start attached) actions = some s)
    (hfinished : ∀ w, s.worker w = .outside) :
    ReportsTruly attached actions s ↔
      System.Meets next ProcessReturns (start attached) actions ∧ s.items = [] := by
  obtain ⟨stage, hlived⟩ := lived_run attached hrun
  constructor
  · intro h
    exact ⟨(always_truthful_iff attached actions).mp h.truthful, hlived.items_eq_nil h.destroyed⟩
  · rintro ⟨hmeets, hempty⟩
    have hreported := System.run_meets (fun _ _ _ h hC hnext ↦ h.next hC hnext)
      (reported_start attached) hmeets hrun
    have hlog : s.destroyQueue.log = s.log := by simp [destroyQueue, hempty]
    refine ⟨hreported.once hfinished, (always_truthful_iff attached actions).mpr hmeets, ?_⟩
    intro t rc result hmem
    rw [hlog] at hmem
    exact hreported.truthful t rc result hmem

/-- A producer pushes a tasklet. -/
def pushOne : List (Action Unit Unit) :=
  .enter (.producer ()) 1 :: List.replicate 4 (.generateTaskletAndDispatch () true)

/-- Then a consumer executes it, when `process` returns the given value. -/
def executeOne (rc : Result) : List (Action Unit Unit) :=
  pushOne ++ .enter (.consumer ()) 1 :: List.replicate 5 (.fetchTaskletAndExecute () rc)

def after (actions : List (Action Unit Unit)) : Pool Unit Unit :=
  (System.run next (start fun _ ↦ true) actions).getD (start fun _ ↦ true)

theorem reportsTruly_executeOne :
    ReportsTruly (fun _ ↦ true) (executeOne .failed) (after (executeOne .failed)) := by
  refine (reportsTruly_iff _ (executeOne .failed) _ rfl fun w ↦ ?_).mpr ⟨by decide, by decide⟩
  rcases w with _ | _ <;> rfl

/-- A `process` that returns `NOT_AVAILABLE` is reported twice, and a tasklet that is left in the
queue is reported as `CANCELLED` although its result is `NOT_AVAILABLE`. -/
theorem not_reportsTruly_executeOne :
    (System.run next (start fun _ ↦ true) (executeOne .notAvailable) =
        some (after (executeOne .notAvailable)) ∧
      reports (after (executeOne .notAvailable)).destroyQueue.log 0 = [.notAvailable, .success] ∧
      ¬ ReportsTruly (fun _ ↦ true) (executeOne .notAvailable)
        (after (executeOne .notAvailable))) ∧
    System.run next (start fun _ ↦ true) pushOne = some (after pushOne) ∧
      .reported 0 .cancelled .notAvailable ∈ (after pushOne).destroyQueue.log ∧
      ¬ ReportsTruly (fun _ ↦ true) pushOne (after pushOne) := by
  have htwice : reports (after (executeOne .notAvailable)).destroyQueue.log 0 =
      [.notAvailable, .success] := rfl
  have hcancelled : .reported 0 .cancelled .notAvailable ∈ (after pushOne).destroyQueue.log := by
    decide
  refine ⟨⟨rfl, htwice, fun h ↦ ?_⟩, rfl, hcancelled, fun h ↦ ?_⟩
  · obtain ⟨rc, hreports, -⟩ := h.once () 0 (by decide)
    rw [htwice] at hreports
    cases hreports
  · cases (h.destroyed 0 _ _ hcancelled).1

end Pool

end Nebula.ProducerAndConsumer
