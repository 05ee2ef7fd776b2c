import Nebula.Async.Effects
import Nebula.Library.KeyedMap

/-!
The table of time events as a finite map from event ids to entries (`TimeTable.asMap`). A table is
`WellFormed` if its slots in use lie in the array, hold different ids, and all of these have been
handed out. On such a table every operation is the operation on the map that its name says
(`asMap_dropSlot`, `asMap_reschedule`, `asMap_addTimeEvent`), and `Follows` is what a sequence of
calls can do: an event disappears only if it was deleted, none is changed, and none that was gone
comes back.

Ids are 64 bits wide and never reused as long as the counter does not wrap around; `IdsLeft` says
that it does not during a sequence of calls.
-/

set_option autoImplicit false
set_option relaxedAutoImplicit false

namespace Nebula.Async

open Nebula.Library

/-- What is known of a time event by its id. -/
structure TimeEntry where
  whenMs : ℤ
  proc : Pointer
  data : Pointer
  deriving DecidableEq

def TimeEventInfo.entry (event : TimeEventInfo) : TimeEntry :=
  ⟨event.whenMs, event.proc, event.data⟩

abbrev TimeMap := BitVec 64 → Option TimeEntry

namespace TimeTable

/-- The table as a finite map. -/
def asMap (t : TimeTable) : TimeMap := fun id ↦
  (t.timeEventList.find TimeEventInfo.timeEventId t.usedTimeEvents id).map TimeEventInfo.entry

/-- An access to a slot of the table. -/
def touchSlot (t : TimeTable) (i : ℤ) : TimeTable :=
  { t with timeEventList := t.timeEventList.touch i }

/-- `time_event_list_[i] = time_event_list_[--used_time_events_]`. -/
def dropSlot (t : TimeTable) (i : ℤ) : TimeTable :=
  { t with
    timeEventList := t.timeEventList.moveInto i (t.usedTimeEvents - 1)
    usedTimeEvents := t.usedTimeEvents - 1 }

/-- `time_event_list_[i].when_ms_ = whenMs`. -/
def reschedule (t : TimeTable) (i whenMs : ℤ) : TimeTable :=
  { t with
    timeEventList := t.timeEventList.write i { t.timeEventList.cell i with whenMs := whenMs } }

/-- The slots in use lie in the array and hold different ids, all of which have been handed out. -/
structure WellFormed (t : TimeTable) : Prop where
  size_eq : t.timeEventList.size = t.sizeTimeEvents
  keyed : t.timeEventList.Keyed TimeEventInfo.timeEventId t.usedTimeEvents
  le_last : ∀ i, 0 ≤ i → i < t.usedTimeEvents →
    (t.timeEventList.cell i).timeEventId ≤ t.lastTimeEventId

/-! ### The operations on the map -/

variable {t t' t'' : TimeTable} {i : ℤ}

theorem WellFormed.asMap_cell (h : t.WellFormed) (hi : 0 ≤ i) (hlt : i < t.usedTimeEvents) :
    t.asMap (t.timeEventList.cell i).timeEventId = some (t.timeEventList.cell i).entry := by
  rw [asMap, h.keyed.find_cell hi hlt, Option.map_some]

theorem WellFormed.asMap_eq_none_iff (h : t.WellFormed) {id : BitVec 64} :
    t.asMap id = none ↔
      ∀ i, 0 ≤ i → i < t.usedTimeEvents → (t.timeEventList.cell i).timeEventId ≠ id := by
  rw [asMap, Option.map_eq_none_iff, h.keyed.find_eq_none_iff]

/-- The ids of the map have been handed out. -/
theorem WellFormed.le_last_of_asMap (h : t.WellFormed) (id : BitVec 64)
    (hid : t.asMap id ≠ none) : id ≤ t.lastTimeEventId := by
  by_contra hlt
  refine hid (h.asMap_eq_none_iff.mpr fun i hi hused heq ↦ hlt ?_)
  exact heq ▸ h.le_last i hi hused

theorem map_update (m : BitVec 64 → Option TimeEventInfo) (id : BitVec 64)
    (event : Option TimeEventInfo) :
    (fun id' ↦ (Function.update m id event id').map TimeEventInfo.entry) =
      Function.update (fun id' ↦ (m id').map TimeEventInfo.entry) id
        (event.map TimeEventInfo.entry) := by
  funext id'
  rw [Function.update_apply, Function.update_apply]
  split_ifs <;> rfl

theorem WellFormed.dropSlot (h : t.WellFormed) (hi : 0 ≤ i) (hlt : i < t.usedTimeEvents) :
    (t.dropSlot i).WellFormed where
  size_eq := h.size_eq
  keyed := h.keyed.moveInto hi hlt
  le_last := by
    intro j hj hj'
    change ((t.timeEventList.moveInto i (t.usedTimeEvents - 1)).cell j).timeEventId ≤ _
    change j < t.usedTimeEvents - 1 at hj'
    rw [Buffer.cell_moveInto]
    split_ifs
    · exact h.le_last (t.usedTimeEvents - 1) (by omega) (by omega)
    · exact h.le_last j hj (by omega)

theorem WellFormed.asMap_dropSlot (h : t.WellFormed) (hi : 0 ≤ i) (hlt : i < t.usedTimeEvents) :
    (t.dropSlot i).asMap =
      Function.update t.asMap (t.timeEventList.cell i).timeEventId none := by
  change (fun id ↦ Option.map TimeEventInfo.entry
    ((t.timeEventList.moveInto i (t.usedTimeEvents - 1)).find TimeEventInfo.timeEventId
      (t.usedTimeEvents - 1) id)) = _
  rw [h.keyed.find_moveInto hi hlt, map_update]
  rfl

theorem WellFormed.strayed_dropSlot (h : t.WellFormed) (hbounds : t.timeEventList.InBounds i)
    (hpos : 0 < t.usedTimeEvents) :
    (t.dropSlot i).timeEventList.strayed = t.timeEventList.strayed :=
  Buffer.strayed_moveInto_of_inBounds hbounds (h.keyed.inBounds (by omega) (by omega))

/-- Dropping a slot behind those in use has the effect of dropping the last one. -/
theorem WellFormed.dropSlot_behind (h : t.WellFormed) (hpos : 0 < t.usedTimeEvents)
    (hle : t.usedTimeEvents ≤ i) : (t.dropSlot i).WellFormed where
  size_eq := h.size_eq
  keyed := by
    have hpop := (h.keyed.pop hpos).touch (t.usedTimeEvents - 1)
    exact hpop.write_of_le (i := i) (by omega) _
  le_last := by
    intro j hj hj'
    change ((t.timeEventList.moveInto i (t.usedTimeEvents - 1)).cell j).timeEventId ≤ _
    change j < t.usedTimeEvents - 1 at hj'
    rw [Buffer.cell_moveInto, if_neg (by omega)]
    exact h.le_last j hj (by omega)

theorem WellFormed.asMap_dropSlot_behind (h : t.WellFormed) (hpos : 0 < t.usedTimeEvents)
    (hle : t.usedTimeEvents ≤ i) :
    (t.dropSlot i).asMap =
      Function.update t.asMap (t.timeEventList.cell (t.usedTimeEvents - 1)).timeEventId none := by
  rw [← h.asMap_dropSlot (i := t.usedTimeEvents - 1) (by omega) (by omega)]
  have hlast := h.dropSlot (i := t.usedTimeEvents - 1) (by omega) (by omega)
  have hfind := hlast.keyed.find_congr (h.dropSlot_behind hpos hle).keyed fun event ↦
    exists_congr fun j ↦ and_congr_right fun _ ↦ and_congr_right fun hj ↦ ?_
  · exact congrArg (fun m id ↦ Option.map TimeEventInfo.entry (m id)) hfind
  · change j < t.usedTimeEvents - 1 at hj
    change (t.timeEventList.moveInto i (t.usedTimeEvents - 1)).cell j = event ↔
      (t.timeEventList.moveInto (t.usedTimeEvents - 1) (t.usedTimeEvents - 1)).cell j = event
    rw [Buffer.cell_moveInto, Buffer.cell_moveInto, if_neg (by omega), if_neg (by omega)]

theorem WellFormed.reschedule (h : t.WellFormed) (whenMs : ℤ) :
    (t.reschedule i whenMs).WellFormed where
  size_eq := h.size_eq
  keyed := h.keyed.write_of_key_eq rfl
  le_last := by
    intro j hj hj'
    change ((t.timeEventList.write i
      { t.timeEventList.cell i with whenMs := whenMs }).cell j).timeEventId ≤ _
    rw [Buffer.cell_write]
    split_ifs with hji
    · exact hji ▸ h.le_last j hj hj'
    · exact h.le_last j hj hj'

theorem WellFormed.asMap_reschedule (h : t.WellFormed) (hi : 0 ≤ i) (hlt : i < t.usedTimeEvents)
    (whenMs : ℤ) :
    (t.reschedule i whenMs).asMap =
      Function.update t.asMap (t.timeEventList.cell i).timeEventId
        (some { (t.timeEventList.cell i).entry with whenMs := whenMs }) := by
  change (fun id ↦ Option.map TimeEventInfo.entry ((t.timeEventList.write i
    { t.timeEventList.cell i with whenMs := whenMs }).find TimeEventInfo.timeEventId
      t.usedTimeEvents id)) = _
  have hfind := h.keyed.find_write hi hlt
    (a := { t.timeEventList.cell i with whenMs := whenMs }) rfl
  rw [hfind, map_update]
  rfl

/-- A new deadline behind the slots in use does not show. -/
theorem WellFormed.asMap_reschedule_behind (h : t.WellFormed) (hle : t.usedTimeEvents ≤ i)
    (whenMs : ℤ) : (t.reschedule i whenMs).asMap = t.asMap :=
  congrArg (fun m id ↦ Option.map TimeEventInfo.entry (m id)) (h.keyed.find_write_of_le hle _)

/-! ### Calls -/

/-- What calls that delete the given events can do to a table. -/
structure Follows (deleted : BitVec 64 → Prop) (t t' : TimeTable) : Prop where
  wellFormed : t'.WellFormed
  strayed : t'.timeEventList.strayed = t.timeEventList.strayed
  size_eq : t'.sizeTimeEvents = t.sizeTimeEvents
  last_le : t.lastTimeEventId ≤ t'.lastTimeEventId
  kept : ∀ id entry, t.asMap id = some entry →
    t'.asMap id = some entry ∨ t'.asMap id = none ∧ deleted id
  fresh : ∀ id, t.asMap id = none → t'.asMap id ≠ none → t.lastTimeEventId < id

variable {deleted deleted' : BitVec 64 → Prop}

theorem WellFormed.follows_refl (h : t.WellFormed) : Follows deleted t t :=
  ⟨h, rfl, rfl, BitVec.le_refl _, fun _ _ hid ↦ Or.inl hid, fun _ hid hid' ↦ absurd hid hid'⟩

theorem Follows.trans (h : t.WellFormed) (hfollows : Follows deleted t t')
    (hfollows' : Follows deleted' t' t'') :
    Follows (fun id ↦ deleted id ∨ deleted' id) t t'' where
  wellFormed := hfollows'.wellFormed
  strayed := hfollows'.strayed.trans hfollows.strayed
  size_eq := hfollows'.size_eq.trans hfollows.size_eq
  last_le := BitVec.le_trans hfollows.last_le hfollows'.last_le
  kept := by
    intro id entry hid
    rcases hfollows.kept id entry hid with hkept | ⟨hgone, hdeleted⟩
    · rcases hfollows'.kept id entry hkept with hkept' | ⟨hgone', hdeleted'⟩
      · exact Or.inl hkept'
      · exact Or.inr ⟨hgone', Or.inr hdeleted'⟩
    · -- ids that have been handed out do not come back
      refine Or.inr ⟨by_contra fun hback ↦ ?_, Or.inl hdeleted⟩
      have hle := h.le_last_of_asMap id (by simp [hid])
      exact absurd (hfollows'.fresh id hgone hback)
        (BitVec.not_lt.mpr (BitVec.le_trans hle hfollows.last_le))
  fresh := by
    intro id hid hid'
    by_cases hmid : t'.asMap id = none
    · exact Nat.lt_of_le_of_lt hfollows.last_le (hfollows'.fresh id hmid hid')
    · exact hfollows.fresh id hid hmid

theorem Follows.mono (hfollows : Follows deleted t t') (himp : ∀ id, deleted id → deleted' id) :
    Follows deleted' t t' :=
  { hfollows with
    kept := fun id entry hid ↦
      (hfollows.kept id entry hid).imp_right fun h ↦ ⟨h.1, himp id h.2⟩ }

theorem lt_lastTimeEventId_add_one (hids : t.lastTimeEventId ≠ BitVec.allOnes 64) :
    t.lastTimeEventId < t.lastTimeEventId + 1 := by
  rw [BitVec.lt_def]
  have hmax : t.lastTimeEventId.toNat ≠ 2 ^ 64 - 1 := fun heq ↦ hids (by
    apply BitVec.eq_of_toNat_eq
    rw [heq, BitVec.toNat_allOnes])
  have := t.lastTimeEventId.isLt
  rw [BitVec.toNat_add]
  change _ < (t.lastTimeEventId.toNat + 1) % 2 ^ 64
  rw [Nat.mod_eq_of_lt (by omega)]
  omega

/-- The next id is not in the table. -/
theorem WellFormed.next_fresh (h : t.WellFormed) (hids : t.lastTimeEventId ≠ BitVec.allOnes 64)
    (i : ℤ) (hi : 0 ≤ i) (hused : i < t.usedTimeEvents) :
    (t.timeEventList.cell i).timeEventId ≠ t.lastTimeEventId + 1 := by
  intro heq
  have hle := h.le_last i hi hused
  rw [heq] at hle
  exact absurd hle (BitVec.not_le.mpr (lt_lastTimeEventId_add_one hids))

theorem WellFormed.lt_size (h : t.WellFormed) (hroom : t.usedTimeEvents ≠ t.sizeTimeEvents) :
    t.usedTimeEvents < t.timeEventList.size := by
  have := h.keyed.le_size
  have := h.size_eq
  omega

theorem WellFormed.asMap_addTimeEvent (h : t.WellFormed)
    (hids : t.lastTimeEventId ≠ BitVec.allOnes 64) (hroom : t.usedTimeEvents ≠ t.sizeTimeEvents)
    (now : ℤ) (msLater : BitVec 32) (proc data : Pointer) :
    (t.addTimeEvent now msLater proc data).2.asMap =
      Function.update t.asMap (t.lastTimeEventId + 1)
        (some ⟨now + msLater.toNat, proc, data⟩) := by
  rw [addTimeEvent, if_neg hroom]
  change (fun id ↦ Option.map TimeEventInfo.entry ((t.timeEventList.write t.usedTimeEvents
    ⟨t.lastTimeEventId + 1, now + msLater.toNat, proc, data⟩).find TimeEventInfo.timeEventId
      (t.usedTimeEvents + 1) id)) = _
  rw [h.keyed.find_push (h.lt_size hroom) (h.next_fresh hids), map_update]
  rfl

/-- Adding an event to a table with room, as long as there are ids left. -/
theorem WellFormed.follows_addTimeEvent (h : t.WellFormed)
    (hids : t.lastTimeEventId ≠ BitVec.allOnes 64) (now : ℤ) (msLater : BitVec 32)
    (proc data : Pointer) : Follows deleted t (t.addTimeEvent now msLater proc data).2 := by
  by_cases hfull : t.usedTimeEvents = t.sizeTimeEvents
  · rw [addTimeEvent, if_pos hfull]
    exact h.follows_refl
  · have hlt := lt_lastTimeEventId_add_one hids
    have hroom := h.lt_size hfull
    have hmap := h.asMap_addTimeEvent hids hfull now msLater proc data
    rw [addTimeEvent, if_neg hfull] at hmap ⊢
    refine ⟨⟨h.size_eq, h.keyed.push hroom (h.next_fresh hids), ?_⟩, ?_, rfl, BitVec.le_of_lt hlt,
      ?_, ?_⟩
    · intro i hi hused
      change ((t.timeEventList.write t.usedTimeEvents _).cell i).timeEventId ≤ _
      change i < t.usedTimeEvents + 1 at hused
      rw [Buffer.cell_write]
      split_ifs
      · exact BitVec.le_refl _
      · exact BitVec.le_trans (h.le_last i hi (by omega)) (BitVec.le_of_lt hlt)
    · exact Buffer.strayed_write_of_inBounds ⟨h.keyed.nonneg, hroom⟩ _
    · intro id entry hid
      rw [hmap, Function.update_apply]
      split_ifs with heq
      · exact absurd (heq ▸ h.le_last_of_asMap id (by simp [hid])) (BitVec.not_le.mpr hlt)
      · exact Or.inl hid
    · intro id hid hid'
      rw [hmap, Function.update_apply] at hid'
      split_ifs at hid' with heq
      · exact heq ▸ hlt
      · exact absurd hid hid'

/-- Deleting an event erases its id. -/
theorem WellFormed.asMap_delTimeEvent (h : t.WellFormed) (id : BitVec 64) :
    (t.delTimeEvent id).2.asMap = Function.update t.asMap id none := by
  unfold delTimeEvent
  rcases h.keyed.removeFirst_cases id with ⟨hnone, heq⟩ | ⟨i, hi, hlt, hcell, heq⟩
  · rw [heq]
    have hid : t.asMap id = none := h.asMap_eq_none_iff.mpr hnone
    exact (Function.update_eq_self_iff.mpr hid.symm).symm
  · rw [heq, ← hcell]
    exact h.asMap_dropSlot hi hlt

/-- An event is found exactly if it is in the map. -/
theorem WellFormed.status_delTimeEvent (h : t.WellFormed) (id : BitVec 64) :
    (t.delTimeEvent id).1 = if (t.asMap id).isSome then .ok else .error := by
  unfold delTimeEvent
  rcases h.keyed.removeFirst_cases id with ⟨hnone, heq⟩ | ⟨i, hi, hlt, hcell, heq⟩
  · rw [heq, h.asMap_eq_none_iff.mpr hnone]
    rfl
  · rw [heq, ← hcell, h.asMap_cell hi hlt]
    rfl

/-- Deleting an event: nothing happens unless it is there. -/
theorem WellFormed.follows_delTimeEvent (h : t.WellFormed) (id : BitVec 64) :
    Follows (fun id' ↦ id' = id ∧ (t.delTimeEvent id).1 = .ok) t (t.delTimeEvent id).2 := by
  unfold delTimeEvent
  rcases h.keyed.removeFirst_cases id with ⟨hnone, heq⟩ | ⟨i, hi, hlt, hcell, heq⟩
  · rw [heq]
    exact h.follows_refl
  · rw [heq]
    have hdrop : { t with
        timeEventList := t.timeEventList.moveInto i (t.usedTimeEvents - 1)
        usedTimeEvents := t.usedTimeEvents - 1 } = t.dropSlot i := rfl
    simp only [hdrop, if_true, and_true]
    have hmap := h.asMap_dropSlot hi hlt
    rw [hcell] at hmap
    refine ⟨h.dropSlot hi hlt, h.strayed_dropSlot (h.keyed.inBounds hi hlt) (by omega), rfl,
      BitVec.le_refl _, ?_, ?_⟩
    · intro id' entry hid'
      rw [hmap, Function.update_apply]
      split_ifs with heq'
      · exact Or.inr ⟨rfl, heq'⟩
      · exact Or.inl hid'
    · intro id' hid' hne
      rw [hmap, Function.update_apply] at hne
      split_ifs at hne
      · exact absurd rfl hne
      · exact absurd hid' hne

end TimeTable

namespace World

variable {κ : Type*} [EpollKernel κ]

/-- The id counter does not wrap around during a sequence of calls. -/
def IdsLeft (env : Env κ) : World κ → List Call → Prop
  | _, [] => True
  | w, c :: rest =>
      ((∃ msLater proc data, c = .addTimeEvent msLater proc data) →
        w.ae.times.lastTimeEventId ≠ BitVec.allOnes 64) ∧ IdsLeft env (w.call env c).2 rest

/-- One of the calls deletes the event successfully. -/
def Deletes (env : Env κ) : World κ → List Call → BitVec 64 → Prop
  | _, [], _ => False
  | w, c :: rest, id =>
      (c = .delTimeEvent id ∧ (w.call env c).1 = .ok) ∨ Deletes env (w.call env c).2 rest id

theorem follows_call (env : Env κ) {w : World κ} (h : w.ae.times.WellFormed) {c : Call}
    (hids : (∃ msLater proc data, c = .addTimeEvent msLater proc data) →
      w.ae.times.lastTimeEventId ≠ BitVec.allOnes 64) :
    w.ae.times.Follows (fun id ↦ c = .delTimeEvent id ∧ (w.call env c).1 = .ok)
      (w.call env c).2.ae.times := by
  cases c with
  | addTimeEvent msLater proc data =>
    simp only [call, addTimeEvent]
    split_ifs with hfull
    · exact h.follows_refl
    · exact h.follows_addTimeEvent (hids ⟨_, _, _, rfl⟩) (env.clock w) msLater proc data
  | delTimeEvent id =>
    exact (h.follows_delTimeEvent id).mono fun id' hid' ↦ ⟨by rw [hid'.1], hid'.2⟩
  | _ => exact h.follows_refl

theorem follows_runCalls (env : Env κ) : ∀ {calls : List Call} {w : World κ},
    w.ae.times.WellFormed → w.IdsLeft env calls →
      w.ae.times.Follows (w.Deletes env calls) (w.runCalls env calls).ae.times := by
  intro calls
  induction calls with
  | nil => exact fun h _ ↦ h.follows_refl
  | cons c rest ih =>
    intro w h hids
    have hcall := follows_call env h hids.1
    exact (hcall.trans h (ih hcall.wellFormed hids.2)).mono fun _ hid ↦ hid

end World

end Nebula.Async
