import Nebula.Async.Drained
import Nebula.Async.EventLoop
import Nebula.Async.TimeRound

/-!
The I/O callbacks of one round of the event loop, when callbacks leave the registrations alone.

`processReadyFds` drops descriptors from the list it walks over, and moves others into their places.
It calls the callback of every descriptor that was listed, once, for the events that were still to
be handled (`processReadyFds_exact`): what has been called so far, together with what is still ahead
of the cursor, are the listed descriptors in some order.

`processFdEvents` goes by the rows as it finds them, and finds those the batch was made for: it
calls one callback for each entry, in the order of the batch (`processFdEvents_exact`).
-/

set_option autoImplicit false
set_option relaxedAutoImplicit false

namespace Nebula.Async

open Nebula.Library FdTable

namespace FdTable

/-- The listed descriptors. -/
def readyFds (t : FdTable) : List ℤ := t.listOfReadyFds.slice 0 t.numReadyFds

/-- The callback of a descriptor, for its events that are still to be handled. -/
def pendingCall (t : FdTable) (fd : ℤ) : Invocation :=
  .proc fd (t.fdEventList fd).alreadyFired (t.fdEventList fd)

/-- The callback that a batch entry is for, if it is for one. -/
def entryCall (t : FdTable) (ee : EpollEvent) : Option Invocation :=
  let info := t.fdEventList ee.fd
  if ee.otherEvents &&& (epollHup ||| epollErr) ≠ 0 ∧ info.procExp ≠ null then
    some (.procExp ee.fd info)
  else if ee.aeEvents ≠ Mask.none then some (.proc ee.fd ee.aeEvents info)
  else none

end FdTable

section Rounds

variable {κ : Type*} [EpollKernel κ] {env : Env κ}

/-! ### The ready list -/

namespace ReadyLoop

/-- The descriptors at the cursor and behind it. -/
def ahead (x : ReadyLoop κ) : List ℤ :=
  x.world.ae.fds.listOfReadyFds.slice x.idx x.world.ae.fds.numReadyFds

/-- The loop over the list of `w` has called the callbacks of the given descriptors, in their order,
and the others are still ahead, with the rows they had. -/
structure Visits (w : World κ) (visited : List ℤ) (x : ReadyLoop κ) : Prop extends x.AtCursor where
  perm : (visited ++ x.ahead).Perm w.ae.fds.readyFds
  rows : ∀ fd ∈ x.ahead, x.world.ae.fds.fdEventList fd = w.ae.fds.fdEventList fd
  same : SameRegistrations w.ae.fds x.world.ae.fds
  processed : x.processed = visited.length
  invocations : x.world.invocations = w.invocations ++ visited.map w.ae.fds.pendingCall

variable {w : World κ} {visited : List ℤ} {x : ReadyLoop κ}

omit [EpollKernel κ] in
theorem ahead_eq_cons (hguard : readyGuard x = true) :
    x.ahead = x.fd :: x.world.ae.fds.listOfReadyFds.slice (x.idx + 1)
      x.world.ae.fds.numReadyFds :=
  Buffer.slice_eq_cons (by simpa [readyGuard] using hguard)

omit [EpollKernel κ] in
theorem ahead_eq_nil (hguard : readyGuard x = false) : x.ahead = [] :=
  Buffer.slice_eq_nil (by simpa [readyGuard] using hguard)

omit [EpollKernel κ] in
/-- At the start nothing has been visited. -/
theorem visits_start (h : w.ae.fds.WellFormed) : Visits w [] ⟨0, 0, w⟩ where
  idx_nonneg := le_rfl
  wellFormed := h
  perm := .refl _
  rows _ _ := rfl
  same := ⟨rfl, fun _ ↦ ⟨_, rfl⟩⟩
  processed := rfl
  invocations := (List.append_nil _).symm

end ReadyLoop

theorem FdTable.SameRegistrations.trans {t t' t'' : FdTable} (h : SameRegistrations t t')
    (h' : SameRegistrations t' t'') : SameRegistrations t t'' where
  fdTableSize := h'.fdTableSize.trans h.fdTableSize
  row fd := by
    obtain ⟨fired, hrow⟩ := h.row fd
    obtain ⟨fired', hrow'⟩ := h'.row fd
    exact ⟨fired', by rw [hrow', hrow]⟩

/-- Whatever becomes of the descriptor at the cursor, the others are ahead of the cursor then. -/
theorem ahead_settleReady {t : FdTable} {idx : ℤ} (hbounds : t.listOfReadyFds.InBounds idx)
    (hlt : idx < t.numReadyFds) (result : Mask) :
    let fd := t.listOfReadyFds.cell idx
    let t' := t.settleReady idx fd result
    (t'.listOfReadyFds.slice (if guess (t.fdEventList fd) result ≠ 0 then idx + 1 else idx)
      t'.numReadyFds).Perm (t.listOfReadyFds.slice (idx + 1) t.numReadyFds) := by
  intro fd t'
  rw [show t' = t.settleReady idx fd result from rfl, settleReady_eq hbounds]
  split_ifs with hguess hcell
  · exact .refl _
  · exact Buffer.slice_moveInto_perm hlt
  · exact absurd rfl hcell

namespace ReadyLoop

variable {w : World κ} {visited : List ℤ} {x : ReadyLoop κ}

/-- One iteration visits the descriptor at the cursor. -/
theorem Visits.visit (h : Visits w visited x) (henv : env.KeepsRegistrations)
    (hprocs : w.ae.fds.ProcsSet) (hguard : readyGuard x = true) :
    ∃ y, readyBody env x = .done y ∧ Visits w (visited ++ [x.fd]) y ∧
      y.ahead.length + 1 = x.ahead.length := by
  have hlt : x.idx < x.world.ae.fds.numReadyFds := by simpa [readyGuard] using hguard
  have hbounds := h.inBounds hguard
  have hahead := ahead_eq_cons hguard
  have hfds := h.fds_returned hguard henv
  have hrow : x.world.ae.fds.fdEventList x.fd = w.ae.fds.fdEventList x.fd :=
    h.rows x.fd (by rw [hahead]; exact List.mem_cons_self)
  have hinvocation : x.invocation = w.ae.fds.pendingCall x.fd := by
    rw [invocation, info, h.fds_reading hguard, hrow]
    rfl
  have hlisted : x.world.ae.fds.Listed x.fd := ⟨x.idx, h.idx_nonneg, hlt, rfl⟩
  -- a listed descriptor is registered, and has a callback
  have hentry : x.invocation.entry ≠ null := by
    have hvalid := h.wellFormed.valid x.fd hlisted
    have hmonitored := h.wellFormed.monitored x.fd hvalid (h.wellFormed.fired x.fd hlisted)
    rw [hrow] at hmonitored
    rw [hinvocation]
    exact hprocs x.fd hmonitored
  have hstep : readyBody env x = .done (x.resumed env) := readyBody_of_ne_null hentry
  have hnext := h.toAtCursor.next hguard henv
  rw [hstep] at hnext
  have hsettled : (x.resumed env).world.ae.fds =
      x.world.ae.fds.settleReady x.idx x.fd (x.returned env).2 :=
    congrArg (fun t : FdTable ↦ t.settleReady x.idx x.fd (x.returned env).2) hfds
  have hidx : (x.resumed env).idx =
      if guess (x.world.ae.fds.fdEventList x.fd) (x.returned env).2 ≠ 0 then x.idx + 1
      else x.idx := by
    unfold resumed
    simp only [hfds]
  have hperm : (x.resumed env).ahead.Perm (x.world.ae.fds.listOfReadyFds.slice (x.idx + 1)
      x.world.ae.fds.numReadyFds) := by
    unfold ahead
    rw [hsettled, hidx]
    exact ahead_settleReady hbounds hlt _
  have hnodup : x.ahead.Nodup := by
    have := h.wellFormed.keyed.nodup_slice
    rw [List.map_id] at this
    exact (Buffer.slice_sublist h.idx_nonneg).nodup this
  refine ⟨_, hstep, ?_, ?_⟩
  · refine ⟨hnext, ?_, ?_, ?_, ?_, ?_⟩
    · refine List.Perm.trans ?_ h.perm
      rw [hahead, List.append_assoc]
      refine List.Perm.append_left visited (List.Perm.cons x.fd ?_)
      exact hperm
    · intro fd hfd
      have hmem := hperm.mem_iff.mp hfd
      have hne : fd ≠ x.fd := by
        rintro rfl
        rw [hahead] at hnodup
        exact (List.nodup_cons.mp hnodup).1 hmem
      rw [hsettled, fdEventList_settleReady hbounds, if_neg hne]
      exact h.rows fd (by rw [hahead]; exact List.mem_cons_of_mem _ hmem)
    · refine h.same.trans ?_
      rw [hsettled]
      exact sameRegistrations_settleReady hbounds
    · change x.processed + 1 = _
      rw [h.processed, List.length_append, List.length_singleton]
      rfl
    · have hcallback := World.invocations_callback env (.ready x.idx) x.reading x.invocation
      refine hcallback.trans ?_
      have hreading : x.reading.invocations = x.world.invocations := rfl
      rw [hreading, h.invocations, hinvocation, List.map_append, List.append_assoc]
      rfl
  · rw [hahead, List.length_cons]
    exact congrArg (· + 1) hperm.length_eq

/-- The loop visits everything that is ahead. -/
theorem Visits.finish (henv : env.KeepsRegistrations) (hprocs : w.ae.fds.ProcsSet) :
    ∀ {left fuel : ℕ} {visited : List ℤ} {x : ReadyLoop κ}, Visits w visited x →
      x.ahead.length = left → left ≤ fuel → ∃ y visited',
        whileLoop readyGuard (readyBody env) fuel x = .done y ∧ Visits w visited' y ∧
          y.ahead = [] := by
  intro left
  induction left with
  | zero =>
    intro fuel visited x h hleft _
    have hnil := List.length_eq_zero_iff.mp hleft
    have hguard : readyGuard x = false := by
      cases hguard : readyGuard x with
      | false => rfl
      | true =>
        rw [ahead_eq_cons hguard] at hnil
        cases hnil
    exact ⟨x, visited, whileLoop_of_not_guard hguard fuel, h, hnil⟩
  | succ left ih =>
    intro fuel visited x h hleft hfuel
    obtain ⟨fuel, rfl⟩ := Nat.exists_eq_succ_of_ne_zero (show fuel ≠ 0 by omega)
    have hguard : readyGuard x = true := by
      cases hguard : readyGuard x with
      | true => rfl
      | false =>
        rw [ahead_eq_nil hguard] at hleft
        cases hleft
    obtain ⟨y, hbody, hy, hlength⟩ := h.visit henv hprocs hguard
    obtain ⟨z, visited', hz⟩ := ih hy (by omega) (show left ≤ fuel by omega)
    exact ⟨z, visited', by rw [whileLoop_succ hguard, hbody, Outcome.andThen_done]; exact hz.1,
      hz.2⟩

end ReadyLoop

/-- For every well-formed table whose registered descriptors have callbacks, when callbacks leave
the registrations alone: `processReadyFds` returns the number of listed descriptors, and has called
the callback of each of them once, for the events that were still to be handled for it, and no other
callback. The list is well formed afterwards. -/
theorem processReadyFds_exact (env : Env κ) (henv : env.KeepsRegistrations) (w : World κ)
    (h : w.ae.fds.WellFormed) (hprocs : w.ae.fds.ProcsSet) (fuel : ℕ)
    (hfuel : w.ae.fds.numReadyFds ≤ fuel) :
    ∃ (x : ReadyLoop κ) (visited : List ℤ), processReadyFds env fuel w = .done x ∧
      visited.Perm w.ae.fds.readyFds ∧
      x.processed = w.ae.fds.numReadyFds ∧
      x.world.invocations = w.invocations ++ visited.map w.ae.fds.pendingCall ∧
      x.world.ae.fds.WellFormed := by
  have hlength : w.ae.fds.readyFds.length = w.ae.fds.numReadyFds.toNat := by
    rw [readyFds, Buffer.length_slice, sub_zero]
  have hfuel' : w.ae.fds.readyFds.length ≤ fuel := by omega
  obtain ⟨x, visited, hdone, hx, hnil⟩ :=
    (ReadyLoop.visits_start h).finish henv hprocs rfl hfuel'
  have hperm := hx.perm
  rw [hnil, List.append_nil] at hperm
  refine ⟨x, visited, hdone, hperm, ?_, hx.invocations, hx.wellFormed⟩
  have := h.keyed.nonneg
  rw [hx.processed, hperm.length_eq, hlength]
  omega

/-- The first of two descriptors is done, and the second one moves into its slot: both are called,
each once. -/
theorem processReadyFds_exact_twoPendingWorld :
    ∃ (x : ReadyLoop InterestSet) (visited : List ℤ),
      processReadyFds (constantEnv [] Mask.none) 2 twoPendingWorld = .done x ∧
        visited.Perm [3, 4] ∧ x.processed = 2 ∧
        x.world.invocations = visited.map twoPendingWorld.ae.fds.pendingCall ∧
        x.world.ae.fds.WellFormed := by
  have hprocs : twoPendingWorld.ae.fds.ProcsSet := by
    intro fd hmonitored
    obtain rfl | rfl := registered_twoPendingWorld fd fun heq ↦
      hmonitored (by rw [heq]; rfl)
    all_goals decide
  exact processReadyFds_exact (constantEnv [] Mask.none) (fun _ _ _ ↦ rfl) twoPendingWorld
    wellFormed_twoPendingWorld hprocs 2 (by decide)

/-! ### The batch -/

/-- A row that is not the one of the entry stays as it is. -/
theorem entryCall_congr {t t' : FdTable} {ee : EpollEvent}
    (h : t'.fdEventList ee.fd = t.fdEventList ee.fd) : t'.entryCall ee = t.entryCall ee := by
  unfold entryCall
  rw [h]

/-- One entry calls its callback, and changes no row of another descriptor. -/
theorem dispatchEntry_exact (henv : env.KeepsRegistrations) (w : World κ) (later : List EpollEvent)
    (ee : EpollEvent) (hentry : ∀ invocation ∈ w.ae.fds.entryCall ee, invocation.entry ≠ null) :
    ∃ w', w.dispatchEntry env later ee = .done w' ∧
      w'.invocations = w.invocations ++ (w.ae.fds.entryCall ee).toList ∧
      ∀ fd ≠ ee.fd, w'.ae.fds.fdEventList fd = w.ae.fds.fdEventList fd := by
  unfold World.dispatchEntry
  unfold entryCall at hentry ⊢
  simp only at hentry ⊢
  split_ifs at hentry ⊢ with hexp hio
  · refine ⟨_, World.invoke_of_ne_null (hentry _ rfl), World.invocations_callback .., ?_⟩
    intro fd _
    rw [henv]
  · refine ⟨_, World.invoke_of_ne_null (hentry _ rfl), World.invocations_callback .., ?_⟩
    · intro fd hne
      refine (fdEventList_settleFired fd).trans ?_
      rw [if_neg hne, henv]
  · exact ⟨w, rfl, (List.append_nil _).symm, fun _ _ ↦ rfl⟩

theorem dispatchBatch_exact (henv : env.KeepsRegistrations) : ∀ (batch : List EpollEvent)
    (w : World κ), (batch.map EpollEvent.fd).Nodup →
    (∀ ee ∈ batch, ∀ invocation ∈ w.ae.fds.entryCall ee, invocation.entry ≠ null) →
    ∃ w', w.dispatchBatch env batch = .done w' ∧
      w'.invocations = w.invocations ++ batch.filterMap w.ae.fds.entryCall := by
  intro batch
  induction batch with
  | nil => exact fun w _ _ ↦ ⟨w, rfl, (List.append_nil _).symm⟩
  | cons ee later ih =>
    intro w hnodup hentries
    rw [List.map_cons, List.nodup_cons] at hnodup
    obtain ⟨hentry, hlater⟩ := List.forall_mem_cons.mp hentries
    obtain ⟨w₁, hdone₁, hcalled₁, hrows₁⟩ := dispatchEntry_exact henv w later ee hentry
    -- what is called for the later entries is still what it was before this one
    have hsame : ∀ ee' ∈ later, w₁.ae.fds.entryCall ee' = w.ae.fds.entryCall ee' := by
      intro ee' hmem
      refine entryCall_congr (hrows₁ ee'.fd fun heq ↦ hnodup.1 ?_)
      exact heq ▸ List.mem_map_of_mem hmem
    obtain ⟨w₂, hdone₂, hcalled₂⟩ := ih w₁ hnodup.2 fun ee' hmem ↦ by
      rw [hsame ee' hmem]
      exact hlater ee' hmem
    refine ⟨w₂, by rw [World.dispatchBatch, hdone₁, Outcome.andThen_done]; exact hdone₂, ?_⟩
    rw [hcalled₂, hcalled₁, List.append_assoc, List.filterMap_congr hsame]
    cases hcall : w.ae.fds.entryCall ee with
    | none => rw [List.filterMap_cons_none hcall]; rfl
    | some invocation => rw [List.filterMap_cons_some hcall]; rfl

end Rounds

/-- The kernel reports descriptors that are registered, so that every entry has a callback. -/
theorem entry_ne_null {env : Env InterestSet} (hreports : EpollWaitReports env)
    {w : World InterestSet} {timeoutMs : ℤ} {batch : List EpollEvent}
    (hbatch : env.epollWait w timeoutMs = some batch) (hmirrors : Mirrors w.ae.fds w.kernel.watched)
    (hprocs : w.ae.fds.ProcsSet) :
    ∀ ee ∈ batch, ∀ invocation ∈ w.ae.fds.entryCall ee, invocation.entry ≠ null := by
  intro ee hee invocation hinvocation
  obtain ⟨events, hwatched, -⟩ := (hreports w timeoutMs batch hbatch).2 ee hee
  have hmem := (hmirrors.watched_iff ee.fd).mp (by rw [hwatched]; exact Option.some_ne_none _)
  unfold entryCall at hinvocation
  simp only at hinvocation
  split_ifs at hinvocation with hexp hio
  · cases hinvocation
    exact hexp.2
  · cases hinvocation
    exact hprocs ee.fd (mem_monitoredFds.mp hmem).2
  · cases hinvocation

/-- For every table that mirrors the kernel and whose registered descriptors have callbacks, when
callbacks leave the registrations alone: `processFdEvents` goes through the whole batch and calls
for each entry, in order, the callback for exceptions if there is one and the entry reports a hangup
or an error, and otherwise the one for I/O with the directions that are reported, if there are
any. -/
theorem processFdEvents_exact (env : Env InterestSet) (hreports : EpollWaitReports env)
    (henv : env.KeepsRegistrations) (w : World InterestSet)
    (hmirrors : Mirrors w.ae.fds w.kernel.watched) (hprocs : w.ae.fds.ProcsSet) (timeoutMs : ℤ)
    (batch : List EpollEvent) (hbatch : env.epollWait w timeoutMs = some batch) :
    ∃ w', w.processFdEvents env timeoutMs = .done (batch.length, w') ∧
      w'.invocations = w.invocations ++ batch.filterMap w.ae.fds.entryCall := by
  have hentries := entry_ne_null hreports hbatch hmirrors hprocs
  obtain ⟨w', hdone, hcalled⟩ := dispatchBatch_exact henv batch
    (w.record (.waited timeoutMs (some batch))) (hreports w timeoutMs batch hbatch).1 hentries
  refine ⟨w', ?_, hcalled.trans ?_⟩
  · unfold World.processFdEvents
    simp only [hbatch, hdone]
    rfl
  · rw [World.invocations_record]
    exact congrArg (· ++ _) (List.append_nil _)

/-- Input for both ends of a connection: the callbacks are called in the order of the batch. -/
theorem processFdEvents_exact_twoFdsWorld :
    ∃ w', twoFdsWorld.processFdEvents (bothReadableEnv fun _ _ ↦ ⟨[], 0⟩) 5 = .done (2, w') ∧
      w'.invocations = [.proc 3 .readable (twoFdsWorld.ae.fds.fdEventList 3),
        .proc 4 .readable (twoFdsWorld.ae.fds.fdEventList 4)] := by
  have hstart : Mirrors newWorld.ae.fds newWorld.kernel.watched := mirrors_initialized _ _ _ _
  have hmirrors : Mirrors twoFdsWorld.ae.fds twoFdsWorld.kernel.watched :=
    hstart.runCalls _ (by simp [Call.RegistersNone])
  have hfirst : FdTable.Calm
      (newWorld.call (constantEnv [] 0) (.addFdEvent 3 .readable 1 0 0 0)).2.ae.fds :=
    calm_addFdEvent calm_newWorld (by decide)
  have hcalm : twoFdsWorld.ae.fds.Calm := calm_addFdEvent hfirst (by decide)
  exact processFdEvents_exact _ (epollWaitReports_bothReadableEnv _) (fun _ _ _ ↦ rfl) twoFdsWorld
    hmirrors hcalm.procsSet 5 _ rfl

end Nebula.Async
