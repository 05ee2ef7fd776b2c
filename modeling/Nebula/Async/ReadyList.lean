import Nebula.Async.Effects

/-!
The ready list as a set of descriptors. `Sound` says that the list is one: its slots in use lie in
the array and hold different descriptors of the table, each with events still to be handled.
`WellFormed` adds that no descriptor with such events is missing from it, and that those
descriptors are monitored.

Every operation keeps both, whatever the kernel answers, and none of them ever accesses a slot
outside the array (`Change.sound`, `Change.wellFormed`, `Change.strayed`).
-/

set_option autoImplicit false
set_option relaxedAutoImplicit false

namespace Nebula.Async.FdTable

open Nebula.Library

/-- The ready list holds different descriptors of the table, each with events still to be
handled. -/
structure Sound (t : FdTable) : Prop where
  size_eq : t.listOfReadyFds.size = t.fdTableSize
  keyed : t.listOfReadyFds.Keyed id t.numReadyFds
  valid : ∀ fd, t.Listed fd → t.ValidFd fd
  fired : ∀ fd, t.Listed fd → (t.fdEventList fd).alreadyFired ≠ 0

/-- The ready list holds exactly the descriptors with events still to be handled, and these are
monitored. -/
structure WellFormed (t : FdTable) : Prop extends Sound t where
  listed : ∀ fd, t.ValidFd fd → (t.fdEventList fd).alreadyFired ≠ 0 → t.Listed fd
  monitored : ∀ fd, t.ValidFd fd → (t.fdEventList fd).alreadyFired ≠ 0 →
    (t.fdEventList fd).monitored ≠ 0

/-! ### The row updates -/

@[simp] theorem fdEventList_setInfo (t : FdTable) (fd fd' : ℤ) (info : FdEventInfo) :
    (t.setInfo fd info).fdEventList fd' = if fd' = fd then info else t.fdEventList fd' := by
  simp [setInfo, Function.update_apply]

@[simp] theorem listed_setInfo (t : FdTable) (fd fd' : ℤ) (info : FdEventInfo) :
    (t.setInfo fd info).Listed fd' ↔ t.Listed fd' := Iff.rfl

@[simp] theorem validFd_setInfo (t : FdTable) (fd fd' : ℤ) (info : FdEventInfo) :
    (t.setInfo fd info).ValidFd fd' ↔ t.ValidFd fd' := Iff.rfl

/-- A row update that does not take the events still to be handled from a listed descriptor keeps
the ready list sound. -/
theorem Sound.setInfo {t : FdTable} (h : t.Sound) {fd : ℤ} {info : FdEventInfo}
    (hfired : t.Listed fd → info.alreadyFired ≠ 0) : (t.setInfo fd info).Sound where
  size_eq := h.size_eq
  keyed := h.keyed
  valid := h.valid
  fired := by
    intro fd' hlisted
    rw [fdEventList_setInfo]
    split_ifs with heq
    · exact hfired (heq ▸ hlisted)
    · exact h.fired fd' hlisted

/-- The same for a well-formed table: the new row has events still to be handled exactly if the
descriptor is listed, and is monitored then. -/
theorem WellFormed.setInfo {t : FdTable} (h : t.WellFormed) {fd : ℤ} {info : FdEventInfo}
    (hfired : t.Listed fd ↔ info.alreadyFired ≠ 0)
    (hmonitored : info.alreadyFired ≠ 0 → info.monitored ≠ 0) : (t.setInfo fd info).WellFormed where
  toSound := h.toSound.setInfo hfired.mp
  listed := by
    intro fd' hvalid hne
    rw [fdEventList_setInfo] at hne
    split_ifs at hne with heq
    · exact heq ▸ hfired.mpr hne
    · exact h.listed fd' hvalid hne
  monitored := by
    intro fd' hvalid hne
    rw [fdEventList_setInfo] at hne ⊢
    split_ifs at hne ⊢ with heq
    · exact hmonitored hne
    · exact h.monitored fd' hvalid hne

/-- A listed descriptor is listed exactly if its row has events still to be handled. -/
theorem WellFormed.listed_iff {t : FdTable} (h : t.WellFormed) {fd : ℤ} (hvalid : t.ValidFd fd) :
    t.Listed fd ↔ (t.fdEventList fd).alreadyFired ≠ 0 :=
  ⟨h.fired fd, h.listed fd hvalid⟩

/-! ### Dropping a descriptor from the list -/

/-- What the removal loop does: nothing to a list without the descriptor, and else it drops the
slot that holds it. -/
theorem dropReady_cases {t : FdTable} (h : t.listOfReadyFds.Keyed id t.numReadyFds) (fd : ℤ) :
    (¬ t.Listed fd ∧ t.dropReady fd = t) ∨
      ∃ i, 0 ≤ i ∧ i < t.numReadyFds ∧ t.listOfReadyFds.cell i = fd ∧
        t.dropReady fd = t.dropSlot i := by
  rcases h.removeFirst_cases fd with ⟨hnone, heq⟩ | ⟨i, hi, hlt, hcell, heq⟩
  · refine Or.inl ⟨fun ⟨i, hi, hlt, hcell⟩ ↦ hnone i hi hlt hcell, ?_⟩
    unfold dropReady
    simp only [id_eq] at heq
    rw [heq]
  · refine Or.inr ⟨i, hi, hlt, hcell, ?_⟩
    unfold dropReady
    simp only [id_eq] at heq
    rw [heq]
    rfl

theorem listed_dropSlot {t : FdTable} (h : t.listOfReadyFds.Keyed id t.numReadyFds) {i : ℤ}
    (hi : 0 ≤ i) (hlt : i < t.numReadyFds) {fd : ℤ} :
    (t.dropSlot i).Listed fd ↔ t.Listed fd ∧ fd ≠ t.listOfReadyFds.cell i :=
  h.holds_moveInto hi hlt

/-- Dropping the slot of one descriptor keeps the list sound. -/
theorem Sound.dropSlot {t : FdTable} (h : t.Sound) {i : ℤ} (hi : 0 ≤ i) (hlt : i < t.numReadyFds) :
    (t.dropSlot i).Sound where
  size_eq := h.size_eq
  keyed := h.keyed.moveInto hi hlt
  valid fd hfd := h.valid fd ((listed_dropSlot h.keyed hi hlt).mp hfd).1
  fired fd hfd := h.fired fd ((listed_dropSlot h.keyed hi hlt).mp hfd).1

theorem strayed_dropSlot {t : FdTable} (h : t.Sound) {i : ℤ} (hi : 0 ≤ i)
    (hlt : i < t.numReadyFds) :
    (t.dropSlot i).listOfReadyFds.strayed = t.listOfReadyFds.strayed :=
  Buffer.strayed_moveInto_of_inBounds (h.keyed.inBounds hi hlt)
    (h.keyed.inBounds (by omega) (by omega))

theorem listed_dropReady {t : FdTable} (h : t.listOfReadyFds.Keyed id t.numReadyFds) {fd fd' : ℤ} :
    (t.dropReady fd).Listed fd' ↔ t.Listed fd' ∧ fd' ≠ fd := by
  rcases dropReady_cases h fd with ⟨hnot, heq⟩ | ⟨i, hi, hlt, hcell, heq⟩
  · rw [heq]
    exact ⟨fun hfd ↦ ⟨hfd, fun h ↦ hnot (h ▸ hfd)⟩, fun hfd ↦ hfd.1⟩
  · rw [heq, listed_dropSlot h hi hlt, hcell]

@[simp] theorem fdEventList_dropReady (t : FdTable) (fd : ℤ) :
    (t.dropReady fd).fdEventList = t.fdEventList := rfl

@[simp] theorem validFd_dropReady (t : FdTable) (fd fd' : ℤ) :
    (t.dropReady fd).ValidFd fd' ↔ t.ValidFd fd' := Iff.rfl

theorem Sound.dropReady {t : FdTable} (h : t.Sound) (fd : ℤ) : (t.dropReady fd).Sound := by
  rcases dropReady_cases h.keyed fd with ⟨-, heq⟩ | ⟨i, hi, hlt, -, heq⟩
  · rwa [heq]
  · rw [heq]
    exact h.dropSlot hi hlt

theorem strayed_dropReady {t : FdTable} (h : t.Sound) (fd : ℤ) :
    (t.dropReady fd).listOfReadyFds.strayed = t.listOfReadyFds.strayed := by
  rcases dropReady_cases h.keyed fd with ⟨-, heq⟩ | ⟨i, hi, hlt, -, heq⟩
  · rw [heq]
  · rw [heq, strayed_dropSlot h hi hlt]

/-! ### Clearing a row -/

/-- The table of which `clearFd` drops the descriptor. -/
theorem clearFd_eq (t : FdTable) (fd : ℤ) :
    t.clearFd fd =
      { (t.dropReady fd).setInfo fd .zero with numMonitoredFds := t.numMonitoredFds - 1 } := rfl

theorem listed_clearFd {t : FdTable} (h : t.Sound) {fd fd' : ℤ} :
    (t.clearFd fd).Listed fd' ↔ t.Listed fd' ∧ fd' ≠ fd :=
  listed_dropReady (t := t) h.keyed

theorem fdEventList_clearFd (t : FdTable) (fd fd' : ℤ) :
    (t.clearFd fd).fdEventList fd' = if fd' = fd then .zero else t.fdEventList fd' :=
  fdEventList_setInfo _ _ _ _

theorem Sound.clearFd {t : FdTable} (h : t.Sound) (fd : ℤ) : (t.clearFd fd).Sound := by
  have hnot : ¬ (t.dropReady fd).Listed fd := fun hfd ↦ ((listed_dropReady h.keyed).mp hfd).2 rfl
  have hrow : ((t.dropReady fd).setInfo fd .zero).Sound :=
    (h.dropReady fd).setInfo fun hfd ↦ absurd hfd hnot
  exact ⟨hrow.size_eq, hrow.keyed, hrow.valid, hrow.fired⟩

/-! ### Every change -/

namespace Change

variable {t t' : FdTable}

theorem fdTableSize (hchange : Change t t') : t'.fdTableSize = t.fdTableSize := by
  cases hchange <;> rfl

theorem validFd_iff (hchange : Change t t') {fd : ℤ} : t'.ValidFd fd ↔ t.ValidFd fd := by
  rw [ValidFd, ValidFd, hchange.fdTableSize]

theorem sound (hchange : Change t t') (h : t.Sound) : t'.Sound := by
  cases hchange with
  | unchanged => exact h
  | registered fd mask proc data procExp dataExp hvalid =>
    have hrow : (t.setInfo fd { t.fdEventList fd with
        monitored := (t.fdEventList fd).monitored ||| mask
        proc := proc
        data := data
        procExp := procExp
        dataExp := dataExp }).Sound := h.setInfo fun hlisted ↦ h.fired fd hlisted
    exact ⟨hrow.size_eq, hrow.keyed, hrow.valid, hrow.fired⟩
  | unmasked fd mask hvalid hrest => exact h.setInfo fun hlisted ↦ h.fired fd hlisted
  | cleared fd hvalid => exact h.clearFd fd

/-- No operation on a sound list accesses a slot outside the array. -/
theorem strayed (hchange : Change t t') (h : t.Sound) :
    t'.listOfReadyFds.strayed = t.listOfReadyFds.strayed := by
  cases hchange with
  | cleared fd hvalid => exact strayed_dropReady (t := t) h fd
  | _ => rfl

/-- Events still to be handled stay with a descriptor until its row is cleared, and no operation
adds to them. -/
theorem fired (hchange : Change t t') (h : t.Sound) (fd : ℤ) :
    ((t'.fdEventList fd).alreadyFired = (t.fdEventList fd).alreadyFired ∧
        (t'.Listed fd ↔ t.Listed fd)) ∨
      ((t'.fdEventList fd).alreadyFired = 0 ∧ ¬ t'.Listed fd) := by
  cases hchange with
  | unchanged => exact Or.inl ⟨rfl, Iff.rfl⟩
  | registered fd' mask proc data procExp dataExp hvalid =>
    refine Or.inl ⟨?_, Iff.rfl⟩
    simp only [register, fdEventList_setInfo]
    split_ifs with heq
    · rw [heq]
    · rfl
  | unmasked fd' mask hvalid hrest =>
    refine Or.inl ⟨?_, Iff.rfl⟩
    simp only [unmask, fdEventList_setInfo]
    split_ifs with heq
    · rw [heq]
    · rfl
  | cleared fd' hvalid =>
    rw [fdEventList_clearFd, listed_clearFd h]
    by_cases heq : fd = fd'
    · exact Or.inr ⟨by rw [if_pos heq]; rfl, fun hfd ↦ hfd.2 heq⟩
    · exact Or.inl ⟨by rw [if_neg heq], by simp [heq]⟩

/-- A row that has events still to be handled after an operation is monitored if it was before. -/
theorem monitored (hchange : Change t t') {fd : ℤ}
    (hfired : (t'.fdEventList fd).alreadyFired ≠ 0)
    (h : (t.fdEventList fd).monitored ≠ 0) : (t'.fdEventList fd).monitored ≠ 0 := by
  cases hchange with
  | unchanged => exact h
  | registered fd' mask proc data procExp dataExp hvalid =>
    simp only [register, fdEventList_setInfo] at hfired ⊢
    split_ifs with heq
    · subst heq
      exact fun hor ↦ h (BitVec.or_eq_zero_iff.mp hor).1
    · exact h
  | unmasked fd' mask hvalid hrest =>
    simp only [unmask, fdEventList_setInfo] at hfired ⊢
    split_ifs with heq
    · exact hrest
    · exact h
  | cleared fd' hvalid =>
    rw [fdEventList_clearFd] at hfired ⊢
    split_ifs at hfired ⊢ with heq
    · exact absurd rfl hfired
    · exact h

theorem wellFormed (hchange : Change t t') (h : t.WellFormed) : t'.WellFormed where
  toSound := hchange.sound h.toSound
  listed := by
    intro fd hvalid hne
    rcases hchange.fired h.toSound fd with ⟨heq, hlisted⟩ | ⟨hzero, -⟩
    · exact hlisted.mpr (h.listed fd (hchange.validFd_iff.mp hvalid) (heq ▸ hne))
    · exact absurd hzero hne
  monitored := by
    intro fd hvalid hne
    rcases hchange.fired h.toSound fd with ⟨heq, -⟩ | ⟨hzero, -⟩
    · exact hchange.monitored hne (h.monitored fd (hchange.validFd_iff.mp hvalid) (heq ▸ hne))
    · exact absurd hzero hne

/-- A descriptor that stays listed stays in its slot, or is moved away from it and leaves its
number behind. -/
theorem trail (hchange : Change t t') (h : t.Sound) {fd i : ℤ}
    (htrail : t.Listed fd → t.listOfReadyFds.cell i = fd) (hlisted : t'.Listed fd) :
    t'.listOfReadyFds.cell i = fd := by
  cases hchange with
  | cleared fd' hvalid =>
    have hwas := (listed_clearFd h).mp hlisted
    have hcell := htrail hwas.1
    rcases dropReady_cases (t := t) h.keyed fd' with ⟨-, heq⟩ | ⟨j, hj, hlt, hdrop, heq⟩
    · rw [clearFd_eq, heq]
      exact hcell
    · rw [clearFd_eq, heq]
      change (t.listOfReadyFds.moveInto j (t.numReadyFds - 1)).cell i = fd
      rw [Buffer.cell_moveInto, if_neg, hcell]
      rintro rfl
      exact hwas.2 (hcell.symm.trans hdrop)
  | _ => exact htrail hlisted

/-- Whatever is in the list, an operation that takes no slot from it leaves all slots alone, and no
operation adds one. -/
theorem numReadyFds_cases (hchange : Change t t') :
    (t'.numReadyFds = t.numReadyFds ∧ t'.listOfReadyFds.cell = t.listOfReadyFds.cell) ∨
      t'.numReadyFds = t.numReadyFds - 1 := by
  cases hchange with
  | cleared fd hvalid =>
    exact Buffer.removeFirst_used (fun listed ↦ decide (listed = fd)) t.listOfReadyFds
      t.numReadyFds
  | _ => exact Or.inl ⟨rfl, rfl⟩

end Change

/-! ### Sequences of changes -/

section Sequences

open Relation

variable {t t' : FdTable}

theorem Sound.changes (h : t.Sound) (hchanges : ReflTransGen Change t t') : t'.Sound := by
  induction hchanges with
  | refl => exact h
  | tail _ hchange ih => exact hchange.sound ih

theorem WellFormed.changes (h : t.WellFormed) (hchanges : ReflTransGen Change t t') :
    t'.WellFormed := by
  induction hchanges with
  | refl => exact h
  | tail _ hchange ih => exact hchange.wellFormed ih

theorem Sound.strayed_changes (h : t.Sound) (hchanges : ReflTransGen Change t t') :
    t'.listOfReadyFds.strayed = t.listOfReadyFds.strayed := by
  induction hchanges with
  | refl => rfl
  | tail hprev hchange ih => rw [hchange.strayed (h.changes hprev), ih]

theorem changes_fdTableSize (hchanges : ReflTransGen Change t t') :
    t'.fdTableSize = t.fdTableSize := by
  induction hchanges with
  | refl => rfl
  | tail _ hchange ih => rw [hchange.fdTableSize, ih]

/-- A slot that held a descriptor still holds its number as long as the descriptor is listed. -/
theorem Sound.trail_changes (h : t.Sound) (hchanges : ReflTransGen Change t t') (fd i : ℤ)
    (hcell : t.listOfReadyFds.cell i = fd) (hlisted : t'.Listed fd) :
    t'.listOfReadyFds.cell i = fd := by
  induction hchanges with
  | refl => exact hcell
  | tail hprev hchange ih => exact hchange.trail (h.changes hprev) ih hlisted

/-- A sequence of operations that takes no slot from the list leaves all slots alone. -/
theorem changes_numReadyFds (hchanges : ReflTransGen Change t t') :
    (t'.numReadyFds = t.numReadyFds ∧ t'.listOfReadyFds.cell = t.listOfReadyFds.cell) ∨
      t'.numReadyFds < t.numReadyFds := by
  induction hchanges with
  | refl => exact Or.inl ⟨rfl, rfl⟩
  | tail _ hchange ih =>
    rcases hchange.numReadyFds_cases with ⟨hnum, hcell⟩ | hnum
    · rcases ih with ⟨hnum', hcell'⟩ | hlt
      · exact Or.inl ⟨hnum.trans hnum', hcell.trans hcell'⟩
      · exact Or.inr (hnum ▸ hlt)
    · rcases ih with ⟨hnum', -⟩ | hlt <;> exact Or.inr (by omega)

end Sequences

end Nebula.Async.FdTable
