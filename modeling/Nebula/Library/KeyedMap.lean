import Nebula.Library.Buffer

/-!
The cells in use of a buffer, told apart by a key, as a finite map from keys to entries. `find` is
the map; on a `Keyed` buffer an append is an update at a new key (`Keyed.find_push`), a store that
keeps the key is an update at that key (`Keyed.find_write`), and moving the last entry into the
place of another one erases the key of that one (`Keyed.find_moveInto`).
-/

set_option autoImplicit false
set_option relaxedAutoImplicit false

namespace Nebula.Library.Buffer

variable {α β : Type*} [DecidableEq β]

/-- The entry in use that has a given key. -/
def find (b : Buffer α) (key : α → β) (used : ℤ) (k : β) : Option α :=
  (scan (fun a ↦ decide (key a = k)) used.toNat 0 b).1.map b.cell

namespace Keyed

variable {b : Buffer α} {key : α → β} {used : ℤ}

theorem find_eq_some_iff (h : b.Keyed key used) {k : β} {a : α} :
    b.find key used k = some a ↔ b.Holds used a ∧ key a = k := by
  have hused := h.nonneg
  obtain ⟨-, hfound⟩ := scan_spec (fun a ↦ decide (key a = k)) b used.toNat 0 le_rfl
    (by have := h.le_size; omega)
  unfold find
  cases hscan : (scan (fun a ↦ decide (key a = k)) used.toNat 0 b).1 with
  | none =>
    rw [hscan] at hfound
    refine iff_of_false (by simp) ?_
    rintro ⟨⟨i, hi, hlt, rfl⟩, hkey⟩
    simpa [hkey] using hfound i hi (by omega)
  | some i =>
    rw [hscan] at hfound
    obtain ⟨hi, hlt, hhit⟩ := hfound
    simp only [Option.map_some, Option.some.injEq]
    constructor
    · rintro rfl
      exact ⟨⟨i, hi, by omega, rfl⟩, by simpa using hhit⟩
    · rintro ⟨⟨j, hj, hj', rfl⟩, hkey⟩
      rw [h.index_eq i j hi (by omega) hj hj' (by rw [hkey]; simpa using hhit)]

theorem find_cell (h : b.Keyed key used) {i : ℤ} (hi : 0 ≤ i) (hlt : i < used) :
    b.find key used (key (b.cell i)) = some (b.cell i) :=
  h.find_eq_some_iff.mpr ⟨⟨i, hi, hlt, rfl⟩, rfl⟩

theorem find_eq_none_iff (h : b.Keyed key used) {k : β} :
    b.find key used k = none ↔ ∀ i, 0 ≤ i → i < used → key (b.cell i) ≠ k := by
  constructor
  · rintro hnone i hi hlt rfl
    rw [h.find_cell hi hlt] at hnone
    cases hnone
  · intro hnone
    by_contra hfind
    obtain ⟨a, ha⟩ := Option.ne_none_iff_exists'.mp hfind
    obtain ⟨⟨i, hi, hlt, rfl⟩, hkey⟩ := h.find_eq_some_iff.mp ha
    exact hnone i hi hlt hkey

/-- Two buffers with the same entries in use are the same map. -/
theorem find_congr {b' : Buffer α} {used' : ℤ} (h : b.Keyed key used) (h' : b'.Keyed key used')
    (hholds : ∀ a, b'.Holds used' a ↔ b.Holds used a) : b'.find key used' = b.find key used := by
  funext k
  refine Option.ext fun a ↦ ?_
  rw [h'.find_eq_some_iff, h.find_eq_some_iff, hholds]

theorem find_push (h : b.Keyed key used) {a : α} (hroom : used < b.size)
    (hnew : ∀ i, 0 ≤ i → i < used → key (b.cell i) ≠ key a) :
    (b.write used a).find key (used + 1) = Function.update (b.find key used) (key a) (some a) := by
  funext k
  refine Option.ext fun c ↦ ?_
  rw [(h.push hroom hnew).find_eq_some_iff, holds_push h.nonneg, Function.update_apply]
  split_ifs with hk
  · rw [hk]
    constructor
    · rintro ⟨⟨i, hi, hlt, rfl⟩ | rfl, hkey⟩
      · exact absurd hkey (hnew i hi hlt)
      · rfl
    · rintro ⟨⟩
      exact ⟨Or.inr rfl, rfl⟩
  · rw [h.find_eq_some_iff]
    constructor
    · rintro ⟨hholds | rfl, hkey⟩
      · exact ⟨hholds, hkey⟩
      · exact absurd hkey.symm hk
    · exact fun ⟨hholds, hkey⟩ ↦ ⟨Or.inl hholds, hkey⟩

theorem find_moveInto (h : b.Keyed key used) {i : ℤ} (hi : 0 ≤ i) (hlt : i < used) :
    (b.moveInto i (used - 1)).find key (used - 1) =
      Function.update (b.find key used) (key (b.cell i)) none := by
  funext k
  refine Option.ext fun c ↦ ?_
  rw [(h.moveInto hi hlt).find_eq_some_iff, h.holds_moveInto hi hlt, Function.update_apply]
  split_ifs with hk
  · rw [hk]
    exact iff_of_false (fun hc ↦ hc.1.2 hc.2) (by simp)
  · rw [h.find_eq_some_iff]
    exact ⟨fun hc ↦ ⟨hc.1.1, hc.2⟩, fun hc ↦ ⟨⟨hc.1, fun heq ↦ hk (hc.2.symm.trans heq)⟩, hc.2⟩⟩

theorem find_write (h : b.Keyed key used) {i : ℤ} (hi : 0 ≤ i) (hlt : i < used) {a : α}
    (hkey : key a = key (b.cell i)) :
    (b.write i a).find key used = Function.update (b.find key used) (key a) (some a) := by
  have hwritten := h.write_of_key_eq hkey
  have hcell : (b.write i a).cell i = a := by rw [cell_write, if_pos rfl]
  funext k
  rw [Function.update_apply]
  split_ifs with hk
  · have hfind := hwritten.find_cell hi hlt
    rwa [hcell, ← hk] at hfind
  · refine Option.ext fun c ↦ ?_
    rw [hwritten.find_eq_some_iff, h.find_eq_some_iff]
    refine and_congr_left fun hc ↦ exists_congr fun j ↦ and_congr_right fun _ ↦
      and_congr_right fun _ ↦ ?_
    rw [cell_write]
    split_ifs with hji
    · refine iff_of_false (fun heq ↦ hk ?_) (fun heq ↦ hk ?_)
      · rw [← hc, ← heq]
      · rw [← hc, ← heq, hji, hkey]
    · rfl

/-- A store behind the entries in use does not show. -/
theorem find_write_of_le (h : b.Keyed key used) {i : ℤ} (hi : used ≤ i) (a : α) :
    (b.write i a).find key used = b.find key used := by
  refine h.find_congr (h.write_of_le hi a) fun c ↦ exists_congr fun j ↦ and_congr_right fun _ ↦
    and_congr_right fun hj ↦ ?_
  rw [cell_write, if_neg (by omega)]

end Keyed

end Nebula.Library.Buffer
