import Nebula.Histogram.Merge
import Mathlib.Algebra.BigOperators.Group.Finset.Piecewise
import Mathlib.Data.Fintype.BigOperators

/-!
The zone of a value: the threshold values are sorted, so that no value lies between two neighbouring
ones at two places, and the search of `add` finds the place. The greatest of all values is no less
than any threshold value, and is counted in the last zone.

`add_isZone` says what `add` counts, and that the buckets sum up to the number of values.
-/

set_option autoImplicit false
set_option relaxedAutoImplicit false

namespace Nebula.Histogram

/-- The value belongs to the zone of a bucket. -/
def IsZone (v : Uint64) (b : ℤ) : Prop :=
  v = ~~~0 ∧ b = 165 ∨
    ∃ low high, thresholdAt b = some low ∧ thresholdAt (b + 1) = some high ∧ low ≤ v ∧ v < high

variable {v : Uint64} {b b' i j left right mid : ℤ} {low high : Uint64}

/-! ### The table -/

theorem sorted_thresholdValues : thresholdValues.IsChain (· < ·) := by decide +kernel

theorem thresholdAt_eq_some_iff :
    thresholdAt i = some low ↔ 0 ≤ i ∧ thresholdValues[i.toNat]? = some low := by
  unfold thresholdAt
  split_ifs with hi
  · simp only [hi, true_and]
  · simp only [hi, false_and]

theorem thresholdAt_isSome_iff : (thresholdAt i).isSome ↔ 0 ≤ i ∧ i ≤ 166 := by
  constructor
  · intro hsome
    obtain ⟨low, hlow⟩ := Option.isSome_iff_exists.mp hsome
    obtain ⟨hi, hget⟩ := thresholdAt_eq_some_iff.mp hlow
    have hlt := (List.getElem?_eq_some_iff.mp hget).1
    rw [length_thresholdValues] at hlt
    omega
  · rintro ⟨hi, hle⟩
    obtain ⟨low, hlow⟩ := thresholdAt_isSome hi hle
    rw [hlow]
    rfl

/-- The threshold values are strictly increasing. -/
theorem thresholdAt_lt (hij : i < j) (hlow : thresholdAt i = some low)
    (hhigh : thresholdAt j = some high) : low < high := by
  obtain ⟨hi, hlow'⟩ := thresholdAt_eq_some_iff.mp hlow
  obtain ⟨hj, hhigh'⟩ := thresholdAt_eq_some_iff.mp hhigh
  obtain ⟨hilt, rfl⟩ := List.getElem?_eq_some_iff.mp hlow'
  obtain ⟨hjlt, rfl⟩ := List.getElem?_eq_some_iff.mp hhigh'
  have hpairwise := List.isChain_iff_pairwise.mp sorted_thresholdValues
  exact List.pairwise_iff_getElem.mp hpairwise _ _ hilt hjlt (by omega)

/-- A value belongs to one zone only. -/
theorem IsZone.unique (h : IsZone v b) (h' : IsZone v b') : b = b' := by
  have hmax : ∀ high : Uint64, ¬ ~~~0 < high := fun high ↦ not_gt_fresh high
  have hle : ∀ {b b' : ℤ} {high low' : Uint64}, thresholdAt (b + 1) = some high →
      thresholdAt b' = some low' → low' ≤ v → v < high → b' ≤ b := by
    intro b b' high low' hhigh hlow' hle hlt
    by_contra hgt
    rcases eq_or_lt_of_le (show b + 1 ≤ b' by omega) with heq | hlt'
    · rw [heq, hlow'] at hhigh
      cases hhigh
      bv_omega
    · have := thresholdAt_lt hlt' hhigh hlow'
      bv_omega
  rcases h with ⟨rfl, rfl⟩ | ⟨low, high, hlow, hhigh, hlowle, hlt⟩
  · rcases h' with ⟨-, rfl⟩ | ⟨low', high', -, -, -, hlt'⟩
    · rfl
    · exact absurd hlt' (hmax high')
  · rcases h' with ⟨rfl, rfl⟩ | ⟨low', high', hlow', hhigh', hlowle', hlt'⟩
    · exact absurd hlt (hmax high)
    · exact le_antisymm (hle hhigh' hlow hlowle hlt') (hle hhigh hlow' hlowle' hlt)

/-! ### The search -/

/-- What the search knows of its value: it is not less than the threshold value at `left`, and less
than the one behind `right`, unless nothing is. -/
structure Narrowed (v : Uint64) (left right mid : ℤ) : Prop where
  left_nonneg : 0 ≤ left
  right_le : right ≤ 165
  le_succ : left ≤ right + 1
  low_le : ∀ low, thresholdAt left = some low → low ≤ v
  lt_high : ∀ high, thresholdAt (right + 1) = some high → v < high ∨ v = ~~~0 ∧ right = 165
  last : left = 166 → mid = 165

theorem inZone_eq (hlow : thresholdAt mid = some low) (hhigh : thresholdAt (mid + 1) = some high) :
    inZone v mid = some (decide (low ≤ v ∧ v < high)) := by
  rw [inZone, hlow, Option.bind_some, hhigh]
  split_ifs with hle <;> simp [hle]

/-- When the search has nothing left to look at, the value is the greatest of all. -/
theorem Narrowed.isZone (h : Narrowed v left right mid) (hlt : right < left) : IsZone v mid := by
  have hleft : left = right + 1 := by have := h.le_succ; omega
  obtain ⟨low, hlow⟩ := thresholdAt_isSome h.left_nonneg (by have := h.right_le; omega)
  have hle := h.low_le low hlow
  rcases h.lt_high low (hleft ▸ hlow) with hlt' | ⟨hmax, hright⟩
  · bv_omega
  · exact Or.inl ⟨hmax, h.last (by omega)⟩

/-- The search ends at the zone of the value. -/
theorem Narrowed.search (h : Narrowed v left right mid) :
    ∃ b, search v left right mid = some b ∧ IsZone v b := by
  induction left, right, mid using search.induct with
  | case1 left right mid hle ihleft ihright =>
    have hbounds := le_tdiv_two hle
    have hleft := h.left_nonneg
    have hright := h.right_le
    obtain ⟨low, hlow⟩ := thresholdAt_isSome (show 0 ≤ (left + right).tdiv 2 by omega) (by omega)
    obtain ⟨high, hhigh⟩ :=
      thresholdAt_isSome (show 0 ≤ (left + right).tdiv 2 + 1 by omega) (by omega)
    rw [Histogram.search, dif_pos hle, inZone_eq hlow hhigh, Option.bind_some, hlow,
      Option.bind_some]
    by_cases hfound : low ≤ v ∧ v < high
    · rw [if_pos (decide_eq_true hfound)]
      exact ⟨_, rfl, Or.inr ⟨low, high, hlow, hhigh, hfound⟩⟩
    rw [if_neg (by simpa using hfound)]
    by_cases hless : v < low
    · rw [if_pos hless]
      refine ihleft ⟨hleft, by omega, by omega, h.low_le, fun low' hlow' ↦ Or.inl ?_, by omega⟩
      rw [sub_add_cancel, hlow] at hlow'
      cases hlow'
      exact hless
    · rw [if_neg hless]
      refine ihright ⟨by omega, hright, by omega, fun high' hhigh' ↦ ?_, h.lt_high, by omega⟩
      rw [hhigh] at hhigh'
      cases hhigh'
      bv_omega
  | case2 left right mid hlt =>
    rw [Histogram.search, dif_neg hlt]
    exact ⟨mid, rfl, h.isZone (not_le.mp hlt)⟩

theorem narrowed_add (v : Uint64) : Narrowed v 0 (totalThresholdValues - 2) 0 where
  left_nonneg := le_rfl
  right_le := by decide
  le_succ := by decide
  low_le low hlow := by
    have hfirst : thresholdAt 0 = some 0 := rfl
    rw [hfirst] at hlow
    cases hlow
    bv_omega
  lt_high high hhigh := by
    have hlast : thresholdAt 166 = some (~~~0) := by decide +kernel
    have hright : totalThresholdValues - 2 + 1 = 166 := rfl
    rw [hright, hlast] at hhigh
    cases hhigh
    rcases eq_or_ne v (~~~0) with hmax | hne
    · exact Or.inr ⟨hmax, rfl⟩
    · exact Or.inl (by bv_omega)
  last := by omega

theorem isZone_zone (v : Uint64) : IsZone v ((zone v : ℕ) : ℤ) := by
  obtain ⟨b, hb, hzone⟩ := (narrowed_add v).search
  rw [search_eq_zone] at hb
  rw [Option.some.inj hb]
  exact hzone

/-! ### The buckets -/

/-- The histograms that come about by adding, merging and clearing. -/
inductive Reached : Histogram → Prop where
  | fresh : Reached fresh
  | add {h h' : Histogram} (v : Uint64) (b : ℤ) (hh : Reached h) (hadd : h.add v = some (h', b)) :
      Reached h'
  | merge {h other : Histogram} (hh : Reached h) (hother : Reached other) : Reached (h.merge other)
  | clear {h : Histogram} (hh : Reached h) : Reached h.clear

theorem sum_buckets_add (h other : Histogram) :
    ∑ i, (h + other).buckets_ i = ∑ i, h.buckets_ i + ∑ i, other.buckets_ i :=
  Finset.sum_add_distrib

theorem sum_buckets_single (v : Uint64) : ∑ i, (single v).buckets_ i = 1 := by
  have hbuckets : (single v).buckets_ = Pi.single (zone v) 1 := rfl
  rw [hbuckets, Finset.sum_pi_single', if_pos (Finset.mem_univ _)]

/-- The buckets sum up to the number of values. -/
theorem Reached.sum_buckets {h : Histogram} (hh : Reached h) : ∑ i, h.buckets_ i = h.count_ := by
  induction hh with
  | fresh => exact Finset.sum_const_zero
  | @add h h' v b hh hadd ih =>
    rw [add_eq, record_eq_add] at hadd
    cases hadd
    rw [sum_buckets_add, sum_buckets_single, ih]
    show h.count_ + 1 = h.count_ + (0 + 1)
    rw [zero_add]
  | merge hh hother ih ihother =>
    refine (sum_buckets_add _ _).trans ?_
    rw [ih, ihother]
    rfl
  | clear hh ih => exact Finset.sum_const_zero

/-- `add` leaves none of its arrays and comes to an end; it counts the value in the bucket of its
zone, of which there is one, and returns that bucket. After any additions, mergers and clearings,
the buckets sum up to the number of values. -/
theorem add_isZone :
    (∀ (h : Histogram) (v : Uint64), ∃ (h' : Histogram) (b : Fin 166),
        h.add v = some (h', ((b : ℕ) : ℤ)) ∧ (∀ b' : ℤ, IsZone v b' ↔ b' = ((b : ℕ) : ℤ)) ∧
          h'.buckets_ = Function.update h.buckets_ b (h.buckets_ b + 1)) ∧
      (∀ i : ℤ, (thresholdAt i).isSome ↔ 0 ≤ i ∧ i ≤ 166) ∧
      ∀ h : Histogram, Reached h → ∑ i, h.buckets_ i = h.count_ := by
  refine ⟨fun h v ↦ ⟨h.record v, zone v, add_eq h v, fun b' ↦ ?_, rfl⟩,
    fun i ↦ thresholdAt_isSome_iff, fun h hh ↦ hh.sum_buckets⟩
  constructor
  · exact fun hzone ↦ hzone.unique (isZone_zone v)
  · rintro rfl
    exact isZone_zone v

end Nebula.Histogram
