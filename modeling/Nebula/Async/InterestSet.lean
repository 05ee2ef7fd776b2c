import Nebula.Async.ReadyList
import Mathlib.Data.Int.Range

/-!
# The registration table and the kernel's interest set

`epoll_ctl` follows the kernel's rules: `ADD` fails for a descriptor of the set, `MOD` and `DEL` for
one outside of it, and any call may fail for another reason, which leaves the set as it was. What a
call of the event loop does to the table and to the set together is one `Exchange`.

`Mirrors` is the refinement relation: the set holds exactly the descriptors whose row monitors
something, each with the events of its row, and the counter counts them. It holds after every
sequence of calls on a fresh table (`fdTable_mirrors_interestSet`).
-/

set_option autoImplicit false
set_option relaxedAutoImplicit false

namespace Nebula.Async

open Nebula.Library EpollKernel

/-- The kernel's interest set, and which of the coming `epoll_ctl` calls fail although the rules
allow them. -/
structure InterestSet where
  watched : ℤ → Option Mask
  spurious : ℕ → Bool

namespace InterestSet

/-- The set after an `epoll_ctl` call that the rules allow. -/
def ctl (watched : ℤ → Option Mask) (operation : CtlOp) (fd : ℤ) (events : Mask) :
    Option (ℤ → Option Mask) :=
  match operation, watched fd with
  | .add, none => some (Function.update watched fd (some events))
  | .mod, some _ => some (Function.update watched fd (some events))
  | .del, some _ => some (Function.update watched fd none)
  | _, _ => none

instance : EpollKernel InterestSet where
  epollCtl kernel operation fd events :=
    let spurious := fun n ↦ kernel.spurious (n + 1)
    match kernel.spurious 0, ctl kernel.watched operation fd events with
    | false, some watched => (true, ⟨watched, spurious⟩)
    | _, _ => (false, ⟨kernel.watched, spurious⟩)
  close kernel fd := { kernel with watched := Function.update kernel.watched fd none }

@[simp] theorem watched_close (kernel : InterestSet) (fd : ℤ) :
    (close kernel fd).watched = Function.update kernel.watched fd none := rfl

theorem ctl_of_epollCtl {kernel kernel' : InterestSet} {operation : CtlOp} {fd : ℤ} {events : Mask}
    (h : epollCtl kernel operation fd events = (true, kernel')) :
    ctl kernel.watched operation fd events = some kernel'.watched := by
  simp only [epollCtl] at h
  split at h
  · rename_i watched _ hctl
    cases h
    exact hctl
  · cases h

theorem watched_of_refused {kernel kernel' : InterestSet} (h : FdTable.Refused kernel kernel') :
    kernel'.watched = kernel.watched := by
  rcases h with rfl | ⟨operation, fd, events, h⟩
  · rfl
  · simp only [epollCtl] at h
    split at h
    · cases h
    · cases h
      rfl

end InterestSet

/-! ### Exchanges -/

open FdTable in
/-- What one call can do to the table and to the interest set. -/
inductive Exchange (t : FdTable) (watched : ℤ → Option Mask) :
    Call → FdTable → (ℤ → Option Mask) → Prop where
  | unchanged (c : Call) : Exchange t watched c t watched
  | closed (c : Call) (fd : ℤ) (hnone : (t.fdEventList fd).monitored = 0) :
      Exchange t watched c t (Function.update watched fd none)
  | registered (fd : ℤ) (mask : Mask) (proc data procExp dataExp : Pointer)
      (hvalid : t.ValidFd fd) (hwatched : watched fd = none ↔ (t.fdEventList fd).monitored = 0) :
      Exchange t watched (.addFdEvent fd mask proc data procExp dataExp)
        (t.register fd mask proc data procExp dataExp)
        (Function.update watched fd
          (some (epollEvents ((t.fdEventList fd).monitored ||| mask))))
  | unmasked (c : Call) (fd : ℤ) (mask : Mask) (hvalid : t.ValidFd fd)
      (hrest : (t.fdEventList fd).monitored &&& ~~~mask ≠ 0) :
      Exchange t watched c (t.unmask fd mask)
        (Function.update watched fd
          (some (epollEvents ((t.fdEventList fd).monitored &&& ~~~mask))))
  | cleared (c : Call) (fd : ℤ) (hvalid : t.ValidFd fd) (hwatched : watched fd ≠ none) :
      Exchange t watched c (t.clearFd fd) (Function.update watched fd none)

namespace InterestSet

theorem ctl_add {watched watched' : ℤ → Option Mask} {fd : ℤ} {events : Mask}
    (h : ctl watched .add fd events = some watched') :
    watched fd = none ∧ watched' = Function.update watched fd (some events) := by
  unfold ctl at h
  split at h <;> simp_all

theorem ctl_mod {watched watched' : ℤ → Option Mask} {fd : ℤ} {events : Mask}
    (h : ctl watched .mod fd events = some watched') :
    watched fd ≠ none ∧ watched' = Function.update watched fd (some events) := by
  unfold ctl at h
  split at h <;> simp_all

theorem ctl_del {watched watched' : ℤ → Option Mask} {fd : ℤ} {events : Mask}
    (h : ctl watched .del fd events = some watched') :
    watched fd ≠ none ∧ watched' = Function.update watched fd none := by
  unfold ctl at h
  split at h <;> simp_all

end InterestSet

open InterestSet FdTable

theorem exchange_call (env : Env InterestSet) (w : World InterestSet) (c : Call) :
    Exchange w.ae.fds w.kernel.watched c (w.call env c).2.ae.fds
      (w.call env c).2.kernel.watched := by
  cases c with
  | addFdEvent fd mask proc data procExp dataExp =>
    rcases addFdEvent_cases w.ae.fds w.kernel fd mask proc data procExp dataExp with
      ⟨kernel', h, hrefused⟩ | ⟨hvalid, kernel', hctl, h⟩
    · simpa [World.call, h, watched_of_refused hrefused] using Exchange.unchanged _
    · have hctl' := ctl_of_epollCtl hctl
      by_cases hnone : (w.ae.fds.fdEventList fd).monitored = 0
      · obtain ⟨hwatched, heq⟩ := ctl_add (by simpa only [if_pos hnone] using hctl')
        simpa [World.call, h, heq] using
          Exchange.registered fd mask proc data procExp dataExp hvalid
            (iff_of_true hwatched hnone)
      · obtain ⟨hwatched, heq⟩ := ctl_mod (by simpa only [if_neg hnone] using hctl')
        simpa [World.call, h, heq] using
          Exchange.registered fd mask proc data procExp dataExp hvalid
            (iff_of_false hwatched hnone)
  | delFdEvent fd mask =>
    rcases delFdEvent_cases w.ae.fds w.kernel fd mask with ⟨kernel', h, hrefused⟩ | ⟨-, h⟩ |
      ⟨hvalid, hrest, kernel', hctl, h⟩ | ⟨hvalid, -, events, kernel', hctl, h⟩
    · simpa [World.call, h, watched_of_refused hrefused] using Exchange.unchanged _
    · simpa [World.call, h] using Exchange.unchanged _
    · obtain ⟨-, heq⟩ := ctl_mod (ctl_of_epollCtl hctl)
      simpa [World.call, h, heq] using Exchange.unmasked _ fd mask hvalid hrest
    · obtain ⟨hwatched, heq⟩ := ctl_del (ctl_of_epollCtl hctl)
      simpa [World.call, h, heq] using Exchange.cleared _ fd hvalid hwatched
  | removeFd fd closeIt =>
    rcases removeFd_cases w.ae.fds w.kernel fd closeIt with
      ⟨kernel', h, hrefused⟩ | ⟨-, hnone, h⟩ | ⟨hvalid, -, kernel', hctl, h⟩
    · simpa [World.call, h, watched_of_refused hrefused] using Exchange.unchanged _
    · cases closeIt with
      | false => simpa [World.call, h] using Exchange.unchanged _
      | true => simpa [World.call, h] using Exchange.closed _ fd hnone
    · obtain ⟨hwatched, heq⟩ := ctl_del (ctl_of_epollCtl hctl)
      cases closeIt with
      | false => simpa [World.call, h, heq] using Exchange.cleared _ fd hvalid hwatched
      | true => simpa [World.call, h, heq] using Exchange.cleared _ fd hvalid hwatched
  | addTimeEvent msLater proc data =>
    simp only [World.call, World.addTimeEvent]
    split <;> exact Exchange.unchanged _
  | delTimeEvent timeEventId => exact Exchange.unchanged _
  | start => exact Exchange.unchanged _
  | stop => exact Exchange.unchanged _

/-! ### What the kernel watches -/

/-- What `epoll_wait` is asked for: edge-triggered reports, of input exactly if the row monitors
`READABLE`, of output exactly if it monitors `WRITABLE`, and of nothing else. -/
theorem epollEvents_eq (monitored : Mask) :
    epollEvents monitored = epollEt |||
      (if monitored &&& Mask.readable ≠ 0 then epollIn else 0) |||
      (if monitored &&& Mask.writable ≠ 0 then epollOut else 0) := by
  unfold epollEvents
  split_ifs <;> simp

/-- Everything the kernel watches is a descriptor of the table, with the events of its row. -/
def Agrees (t : FdTable) (watched : ℤ → Option Mask) : Prop :=
  ∀ fd events, watched fd = some events →
    t.ValidFd fd ∧ events = epollEvents (t.fdEventList fd).monitored

/-- The descriptors whose row monitors something. -/
def monitoredFds (t : FdTable) : Finset ℤ :=
  (Int.range 0 t.fdTableSize).toFinset.filter fun fd ↦ (t.fdEventList fd).monitored ≠ 0

/-- The kernel watches exactly the descriptors whose row monitors something, with the events of the
row, and the counter counts them. -/
structure Mirrors (t : FdTable) (watched : ℤ → Option Mask) : Prop where
  agrees : Agrees t watched
  watched_iff : ∀ fd, watched fd ≠ none ↔ fd ∈ monitoredFds t
  num_eq : t.numMonitoredFds = (monitoredFds t).card

theorem mem_monitoredFds {t : FdTable} {fd : ℤ} :
    fd ∈ monitoredFds t ↔ t.ValidFd fd ∧ (t.fdEventList fd).monitored ≠ 0 := by
  simp [monitoredFds, ValidFd, Int.mem_range_iff]

/-- The monitored descriptors after an update of one row. -/
theorem mem_monitoredFds_setInfo {t : FdTable} {fd fd' : ℤ} {info : FdEventInfo} :
    fd' ∈ monitoredFds (t.setInfo fd info) ↔
      t.ValidFd fd' ∧ (if fd' = fd then info.monitored else (t.fdEventList fd').monitored) ≠ 0 := by
  rw [mem_monitoredFds, validFd_setInfo, fdEventList_setInfo]
  split_ifs <;> rfl

theorem monitoredFds_setInfo_of_ne {t : FdTable} {fd : ℤ} {info : FdEventInfo}
    (hvalid : t.ValidFd fd) (hne : info.monitored ≠ 0) :
    monitoredFds (t.setInfo fd info) = insert fd (monitoredFds t) := by
  ext fd'
  rw [mem_monitoredFds_setInfo, Finset.mem_insert, mem_monitoredFds]
  by_cases heq : fd' = fd
  · simp only [heq, hvalid, if_true, hne, ne_eq, not_false_eq_true, and_self, true_or]
  · simp only [heq, if_false, false_or]

theorem monitoredFds_setInfo_of_eq {t : FdTable} {fd : ℤ} {info : FdEventInfo}
    (heq : info.monitored = 0) :
    monitoredFds (t.setInfo fd info) = (monitoredFds t).erase fd := by
  ext fd'
  rw [mem_monitoredFds_setInfo, Finset.mem_erase, mem_monitoredFds]
  by_cases hfd : fd' = fd
  · simp only [hfd, if_true, heq, ne_eq, not_true_eq_false, and_false, false_and]
  · simp only [hfd, if_false, ne_eq, not_false_eq_true, true_and]

/-- An update of one row, matched by the kernel, keeps the agreement. -/
theorem Agrees.update {t : FdTable} {watched : ℤ → Option Mask} (h : Agrees t watched) {fd : ℤ}
    {info : FdEventInfo} {entry : Option Mask}
    (hentry : ∀ events, entry = some events →
      t.ValidFd fd ∧ events = epollEvents info.monitored) :
    Agrees (t.setInfo fd info) (Function.update watched fd entry) := by
  intro fd' events hwatched
  rw [Function.update_apply] at hwatched
  rw [validFd_setInfo, fdEventList_setInfo]
  split_ifs at hwatched ⊢ with heq
  · exact heq ▸ hentry events hwatched
  · exact h fd' events hwatched

/-- Every exchange keeps the agreement. -/
theorem Agrees.exchange {t t' : FdTable} {watched watched' : ℤ → Option Mask} {c : Call}
    (h : Agrees t watched) (hexchange : Exchange t watched c t' watched') : Agrees t' watched' := by
  cases hexchange with
  | unchanged c => exact h
  | closed c fd hnone =>
    intro fd' events hwatched
    rw [Function.update_apply] at hwatched
    split_ifs at hwatched
    exact h fd' events hwatched
  | registered fd mask proc data procExp dataExp hvalid hwatched =>
    exact h.update fun events hevents ↦ ⟨hvalid, (Option.some.inj hevents).symm⟩
  | unmasked c fd mask hvalid hrest =>
    exact h.update fun events hevents ↦ ⟨hvalid, (Option.some.inj hevents).symm⟩
  | cleared c fd hvalid hwatched =>
    have hzero : Agrees (t.setInfo fd .zero) (Function.update watched fd none) :=
      h.update fun events hevents ↦ by cases hevents
    exact hzero

/-- A call that registers a descriptor for nothing at all. -/
def Call.RegistersNone : Call → Prop
  | .addFdEvent _ mask _ _ _ _ => mask = Mask.none
  | _ => False

/-- Registering a row for something adds its descriptor on both sides. -/
theorem Mirrors.add {t : FdTable} {watched : ℤ → Option Mask} (h : Mirrors t watched) {fd : ℤ}
    {info : FdEventInfo} (hvalid : t.ValidFd fd) (hne : info.monitored ≠ 0) {num : ℤ}
    (hnum : num = if (t.fdEventList fd).monitored = 0 then t.numMonitoredFds + 1
      else t.numMonitoredFds) :
    Mirrors { t.setInfo fd info with numMonitoredFds := num }
      (Function.update watched fd (some (epollEvents info.monitored))) where
  agrees := h.agrees.update fun events hevents ↦ ⟨hvalid, (Option.some.inj hevents).symm⟩
  watched_iff := by
    intro fd'
    change _ ↔ fd' ∈ monitoredFds (t.setInfo fd info)
    rw [monitoredFds_setInfo_of_ne hvalid hne, Finset.mem_insert, Function.update_apply,
      ← h.watched_iff]
    by_cases heq : fd' = fd <;> simp [heq]
  num_eq := by
    change num = (monitoredFds (t.setInfo fd info)).card
    rw [monitoredFds_setInfo_of_ne hvalid hne, hnum, h.num_eq]
    split_ifs with hzero
    · have hnew : fd ∉ monitoredFds t := fun hmem ↦ (mem_monitoredFds.mp hmem).2 hzero
      rw [Finset.card_insert_of_notMem hnew]
      push_cast
      rfl
    · rw [Finset.insert_eq_of_mem (mem_monitoredFds.mpr ⟨hvalid, hzero⟩)]

/-- Clearing the row of a watched descriptor removes it on both sides. -/
theorem Mirrors.clear {t : FdTable} {watched : ℤ → Option Mask} (h : Mirrors t watched) {fd : ℤ}
    (hwatched : watched fd ≠ none) :
    Mirrors (t.clearFd fd) (Function.update watched fd none) where
  agrees := by
    have hzero : Agrees (t.setInfo fd .zero) (Function.update watched fd none) :=
      h.agrees.update fun events hevents ↦ by cases hevents
    exact hzero
  watched_iff := by
    intro fd'
    change _ ↔ fd' ∈ monitoredFds (t.setInfo fd .zero)
    rw [monitoredFds_setInfo_of_eq rfl, Finset.mem_erase, Function.update_apply, ← h.watched_iff]
    by_cases heq : fd' = fd <;> simp [heq]
  num_eq := by
    have hmem : fd ∈ monitoredFds t := (h.watched_iff fd).mp hwatched
    have hpos : 0 < (monitoredFds t).card := Finset.card_pos.mpr ⟨fd, hmem⟩
    change t.numMonitoredFds - 1 = (monitoredFds (t.setInfo fd .zero)).card
    rw [monitoredFds_setInfo_of_eq rfl, h.num_eq, Finset.card_erase_of_mem hmem]
    omega

/-- Every exchange that does not register a descriptor for nothing keeps the mirror. -/
theorem Mirrors.exchange {t t' : FdTable} {watched watched' : ℤ → Option Mask} {c : Call}
    (h : Mirrors t watched) (hcall : ¬ c.RegistersNone)
    (hexchange : Exchange t watched c t' watched') : Mirrors t' watched' := by
  cases hexchange with
  | unchanged c => exact h
  | closed c fd hnone =>
    have hwatched : watched fd = none := by
      by_contra hwatched
      exact (mem_monitoredFds.mp ((h.watched_iff fd).mp hwatched)).2 hnone
    rwa [← hwatched, Function.update_eq_self]
  | registered fd mask proc data procExp dataExp hvalid hwatched =>
    exact h.add hvalid (fun hor ↦ hcall (BitVec.or_eq_zero_iff.mp hor).2) rfl
  | unmasked c fd mask hvalid hrest =>
    have hmonitored : (t.fdEventList fd).monitored ≠ 0 := by
      intro hzero
      rw [hzero] at hrest
      simp at hrest
    exact h.add hvalid hrest (if_neg hmonitored).symm
  | cleared c fd hvalid hwatched => exact h.clear hwatched

/-- A fresh table mirrors an empty interest set. -/
theorem mirrors_initialized (fdTableSize sizeTimeEvents : ℤ) (aroundFds : ℤ → ℤ)
    (aroundTimes : ℤ → TimeEventInfo) :
    Mirrors (AsyncEvent.initialized fdTableSize sizeTimeEvents aroundFds aroundTimes).fds
      fun _ ↦ none where
  agrees := by
    intro fd events h
    cases h
  watched_iff := by
    intro fd
    simp [mem_monitoredFds, AsyncEvent.initialized, FdEventInfo.zero]
  num_eq := by
    simp [monitoredFds, AsyncEvent.initialized, FdEventInfo.zero]

/-- Calls that do not register a descriptor for nothing keep the mirror. -/
theorem Mirrors.runCalls {env : Env InterestSet} : ∀ (calls : List Call) {w : World InterestSet},
    Mirrors w.ae.fds w.kernel.watched → (∀ c ∈ calls, ¬ c.RegistersNone) →
      Mirrors (w.runCalls env calls).ae.fds (w.runCalls env calls).kernel.watched := by
  intro calls
  induction calls with
  | nil => exact fun h _ ↦ h
  | cons c rest ih =>
    intro w h hcalls
    exact ih (h.exchange (hcalls c (List.mem_cons_self ..)) (exchange_call env w c))
      fun c' hc' ↦ hcalls c' (List.mem_cons_of_mem c hc')

/-- A call that returns an error leaves the descriptor table and the interest set as they were. -/
theorem call_error {env : Env InterestSet} {w : World InterestSet} {c : Call}
    (herror : (w.call env c).1 = .error) :
    (w.call env c).2.ae.fds = w.ae.fds ∧ (w.call env c).2.kernel.watched = w.kernel.watched := by
  cases c with
  | addFdEvent fd mask proc data procExp dataExp =>
    rcases addFdEvent_cases w.ae.fds w.kernel fd mask proc data procExp dataExp with
      ⟨kernel', h, hrefused⟩ | ⟨-, kernel', -, h⟩
    · simp [World.call, h, watched_of_refused hrefused]
    · simp [World.call, h] at herror
  | delFdEvent fd mask =>
    rcases delFdEvent_cases w.ae.fds w.kernel fd mask with ⟨kernel', h, hrefused⟩ | ⟨-, h⟩ |
      ⟨-, -, kernel', -, h⟩ | ⟨-, -, events, kernel', -, h⟩
    · simp [World.call, h, watched_of_refused hrefused]
    all_goals simp [World.call, h] at herror
  | removeFd fd closeIt =>
    rcases removeFd_cases w.ae.fds w.kernel fd closeIt with
      ⟨kernel', h, hrefused⟩ | ⟨-, -, h⟩ | ⟨-, -, kernel', -, h⟩
    · simp [World.call, h, watched_of_refused hrefused]
    all_goals simp [World.call, h] at herror
  | addTimeEvent msLater proc data =>
    simp only [World.call, World.addTimeEvent]
    split <;> exact ⟨rfl, rfl⟩
  | delTimeEvent timeEventId => exact ⟨rfl, rfl⟩
  | start => cases herror
  | stop => cases herror

/-- After any sequence of calls on a fresh event loop, whatever `epoll_ctl` calls fail for no reason
of the rules, none of them registering a descriptor for nothing: the kernel watches exactly the
descriptors whose row monitors something, each edge-triggered and for the monitored directions, the
counter counts them, and one more call that returns an error changes neither side. -/
theorem fdTable_mirrors_interestSet (fdTableSize sizeTimeEvents : ℤ) (aroundFds : ℤ → ℤ)
    (aroundTimes : ℤ → TimeEventInfo) (spurious : ℕ → Bool) (env : Env InterestSet)
    (log : List Record) (calls : List Call) (hcalls : ∀ c ∈ calls, ¬ c.RegistersNone) :
    let start : World InterestSet :=
      ⟨.initialized fdTableSize sizeTimeEvents aroundFds aroundTimes, ⟨fun _ ↦ none, spurious⟩, log⟩
    let w := start.runCalls env calls
    (∀ fd, w.kernel.watched fd =
      if w.ae.fds.ValidFd fd ∧ (w.ae.fds.fdEventList fd).monitored ≠ 0 then
        some (epollEt |||
          (if (w.ae.fds.fdEventList fd).monitored &&& Mask.readable ≠ 0 then epollIn else 0) |||
          (if (w.ae.fds.fdEventList fd).monitored &&& Mask.writable ≠ 0 then epollOut else 0))
      else none) ∧
    w.ae.fds.numMonitoredFds =
      ((Int.range 0 fdTableSize).toFinset.filter fun fd ↦
        (w.ae.fds.fdEventList fd).monitored ≠ 0).card ∧
    ∀ c, (w.call env c).1 = .error →
      (w.call env c).2.ae.fds = w.ae.fds ∧
        (w.call env c).2.kernel.watched = w.kernel.watched := by
  intro start w
  have hstart : Mirrors start.ae.fds start.kernel.watched := mirrors_initialized _ _ _ _
  have h : Mirrors w.ae.fds w.kernel.watched := hstart.runCalls calls hcalls
  have hsize : w.ae.fds.fdTableSize = fdTableSize :=
    changes_fdTableSize (World.changes_runCalls env start calls)
  refine ⟨fun fd ↦ ?_, ?_, fun c ↦ call_error⟩
  · rw [← epollEvents_eq]
    by_cases hmem : fd ∈ monitoredFds w.ae.fds
    · obtain ⟨events, hevents⟩ := Option.ne_none_iff_exists'.mp ((h.watched_iff fd).mpr hmem)
      rw [if_pos (mem_monitoredFds.mp hmem), hevents, (h.agrees fd events hevents).2]
    · have hnone : w.kernel.watched fd = none := by
        by_contra hwatched
        exact hmem ((h.watched_iff fd).mp hwatched)
      rw [if_neg (fun hmonitored ↦ hmem (mem_monitoredFds.mpr hmonitored)), hnone]
  · rw [h.num_eq, monitoredFds, hsize]

/-- A descriptor registered for input, whose registration for output then fails, and which is
dropped again. -/
theorem fdTable_mirrors_interestSet_example :
    let env : Env InterestSet := ⟨fun _ _ ↦ ⟨[], 0⟩, fun _ _ ↦ none, fun _ ↦ 0⟩
    let start : World InterestSet :=
      ⟨.initialized 8 4 (fun _ ↦ 0) fun _ ↦ ⟨0, 0, 0, 0⟩, ⟨fun _ ↦ none, fun n ↦ n == 1⟩, []⟩
    let calls : List Call := [.addFdEvent 3 .readable 1 0 0 0, .addFdEvent 3 .writable 1 0 0 0,
      .delFdEvent 3 .rdwr]
    (start.runCalls env calls).ae.fds.numMonitoredFds =
      ((Int.range 0 8).toFinset.filter fun fd ↦
        ((start.runCalls env calls).ae.fds.fdEventList fd).monitored ≠ 0).card :=
  (fdTable_mirrors_interestSet 8 4 (fun _ ↦ 0) (fun _ ↦ ⟨0, 0, 0, 0⟩) (fun n ↦ n == 1)
    ⟨fun _ _ ↦ ⟨[], 0⟩, fun _ _ ↦ none, fun _ ↦ 0⟩ []
    [.addFdEvent 3 .readable 1 0 0 0, .addFdEvent 3 .writable 1 0 0 0, .delFdEvent 3 .rdwr]
    (by simp [Call.RegistersNone])).2.1

end Nebula.Async
