import Nebula.Histogram.Merge
import Mathlib.Algebra.Order.BigOperators.Group.List
import Mathlib.Algebra.Group.Action.Defs
import Mathlib.Algebra.Order.Ring.Nat

/-!
The average that a histogram reports. It is the total divided by the number of values, and the total
is a 64-bit number: `trueAverage_iff` says that it is the average of the values exactly as long as
their sum is one as well.
-/

set_option autoImplicit false
set_option relaxedAutoImplicit false

namespace Nebula.Histogram

open Nebula.Library

/-- The sum of the values, which may have more than 64 bits. -/
def exactSum (vs : List Uint64) : ℕ := (vs.map BitVec.toNat).sum

/-- `average()` is the average of the values, rounded down, and lies between `min()` and `max()`. -/
structure TrueAverage (h : Histogram) (vs : List Uint64) : Prop where
  eq_floor : h.average.toNat = exactSum vs / vs.length
  min_le : h.min_ ≤ h.average
  le_max : h.average ≤ h.max_

/-! ### The histogram of a list of values -/

theorem total_sum_single (vs : List Uint64) :
    (vs.map single).sum.total_.toNat = exactSum vs % 2 ^ 64 := by
  induction vs with
  | nil => rfl
  | cons v vs ih =>
    have htotal : ((v :: vs).map single).sum.total_ = v + (vs.map single).sum.total_ := by
      show fresh.total_ + v + (vs.map single).sum.total_ = _
      rw [show fresh.total_ = 0 from rfl, zero_add]
    have hsum : exactSum (v :: vs) = v.toNat + exactSum vs := rfl
    rw [htotal, BitVec.toNat_add, ih, hsum, Nat.add_mod_mod]

theorem count_sum_single (vs : List Uint64) :
    (vs.map single).sum.count_.toNat = vs.length % 2 ^ 64 := by
  induction vs with
  | nil => rfl
  | cons v vs ih =>
    have hcount : ((v :: vs).map single).sum.count_ = 1 + (vs.map single).sum.count_ := rfl
    rw [hcount, BitVec.toNat_add, ih, List.length_cons, Nat.add_mod_mod, Nat.add_comm]
    rfl

theorem min_sum_single (vs : List Uint64) : ∀ v ∈ vs, (vs.map single).sum.min_ ≤ v := by
  induction vs with
  | nil => exact fun v hv ↦ absurd hv List.not_mem_nil
  | cons v vs ih =>
    have hmin : ((v :: vs).map single).sum.min_ =
        if (single v).min_ > (vs.map single).sum.min_ then (vs.map single).sum.min_
        else (single v).min_ := rfl
    rw [hmin, single_min_]
    intro u hu
    rcases List.mem_cons.mp hu with rfl | hu
    · split_ifs <;> bv_omega
    · have := ih u hu
      split_ifs <;> bv_omega

theorem max_sum_single (vs : List Uint64) : ∀ v ∈ vs, v ≤ (vs.map single).sum.max_ := by
  induction vs with
  | nil => exact fun v hv ↦ absurd hv List.not_mem_nil
  | cons v vs ih =>
    have hmax : ((v :: vs).map single).sum.max_ =
        if (single v).max_ < (vs.map single).sum.max_ then (vs.map single).sum.max_
        else (single v).max_ := rfl
    rw [hmax, single_max_]
    intro u hu
    rcases List.mem_cons.mp hu with rfl | hu
    · split_ifs <;> bv_omega
    · have := ih u hu
      split_ifs <;> bv_omega

/-! ### The average -/

/-- What `average()` returns when the number of values is one of 64 bits. -/
theorem average_sum_single {vs : List Uint64} (hne : vs ≠ []) (hcount : vs.length < 2 ^ 64) :
    (vs.map single).sum.average.toNat = exactSum vs % 2 ^ 64 / vs.length := by
  have hcount' : (vs.map single).sum.count_.toNat = vs.length :=
    (count_sum_single vs).trans (Nat.mod_eq_of_lt hcount)
  have hpos : (vs.map single).sum.count_ ≠ 0 := by
    intro hzero
    rw [hzero] at hcount'
    exact hne (List.length_eq_zero_iff.mp hcount'.symm)
  rw [average, if_pos hpos, BitVec.toNat_udiv, total_sum_single, hcount']

/-- Dropping what does not fit into 64 bits shows in the quotient. -/
theorem mod_div_eq_div_iff {sum count : ℕ} (hpos : 0 < count) (hcount : count < 2 ^ 64) :
    sum % 2 ^ 64 / count = sum / count ↔ sum < 2 ^ 64 := by
  refine ⟨fun heq ↦ ?_, fun hlt ↦ by rw [Nat.mod_eq_of_lt hlt]⟩
  by_contra hge
  have hstep : (sum % 2 ^ 64 + count) / count = sum % 2 ^ 64 / count + 1 :=
    Nat.add_div_right _ hpos
  have hle : sum % 2 ^ 64 + count ≤ sum := by
    have := Nat.div_add_mod sum (2 ^ 64)
    have : 1 ≤ sum / 2 ^ 64 := (Nat.one_le_div_iff (by decide)).mpr (by omega)
    omega
  have := Nat.div_le_div_right (c := count) hle
  omega

/-- An average lies between bounds of its values. -/
theorem le_exactSum_div {vs : List Uint64} (hne : vs ≠ []) {low high : Uint64}
    (hlow : ∀ v ∈ vs, low ≤ v) (hhigh : ∀ v ∈ vs, v ≤ high) :
    low.toNat ≤ exactSum vs / vs.length ∧ exactSum vs / vs.length ≤ high.toNat := by
  have hpos : 0 < vs.length := List.length_pos_iff.mpr hne
  constructor
  · rw [Nat.le_div_iff_mul_le hpos, Nat.mul_comm]
    have hsum := List.card_nsmul_le_sum (vs.map BitVec.toNat) low.toNat fun n hn ↦ by
      obtain ⟨v, hv, rfl⟩ := List.mem_map.mp hn
      exact hlow v hv
    rwa [List.length_map, smul_eq_mul] at hsum
  · have hsum := List.sum_le_card_nsmul (vs.map BitVec.toNat) high.toNat fun n hn ↦ by
      obtain ⟨v, hv, rfl⟩ := List.mem_map.mp hn
      exact hhigh v hv
    rw [List.length_map, smul_eq_mul] at hsum
    exact Nat.div_le_of_le_mul hsum

/-- The reported average is the average of the values that have been added exactly when their sum is
less than `2 ^ 64`. -/
theorem trueAverage_iff (vs : List Uint64) (hne : vs ≠ []) (hcount : vs.length < 2 ^ 64) :
    ∃ h, fresh.addAll vs = some h ∧ (h.TrueAverage vs ↔ exactSum vs < 2 ^ 64) := by
  have hall : fresh.addAll vs = some (0 + (vs.map single).sum) :=
    MergePlan.foldlM_eq_sum take_eq_add vs 0
  rw [zero_add] at hall
  have haverage := average_sum_single hne hcount
  have hpos : 0 < vs.length := List.length_pos_iff.mpr hne
  refine ⟨_, hall, fun h ↦ ?_, fun hlt ↦ ?_⟩
  · rw [← mod_div_eq_div_iff hpos hcount, ← haverage]
    exact h.eq_floor
  · have hfloor := haverage.trans ((mod_div_eq_div_iff hpos hcount).mpr hlt)
    obtain ⟨hlow, hhigh⟩ := le_exactSum_div hne (min_sum_single vs) (max_sum_single vs)
    rw [← hfloor] at hlow hhigh
    exact ⟨hfloor, hlow, hhigh⟩

/-- Four values whose sum is small. -/
theorem trueAverage_iff_four : ∃ h, fresh.addAll [5, 10, 11, 15] = some h ∧
    (h.TrueAverage [5, 10, 11, 15] ↔ exactSum [5, 10, 11, 15] < 2 ^ 64) :=
  trueAverage_iff [5, 10, 11, 15] (by decide) (by decide)

/-- The least value whose double does not fit into 64 bits. -/
abbrev halfway : Uint64 := 0x8000000000000000

/-- The average of this value, added twice, is reported as zero. -/
theorem not_trueAverage_halfway : ∃ h, fresh.addAll [halfway, halfway] = some h ∧ h.average = 0 ∧
    exactSum [halfway, halfway] / 2 = 9223372036854775808 ∧ ¬ h.TrueAverage [halfway, halfway] := by
  have hall : fresh.addAll [halfway, halfway] = some (0 + ([halfway, halfway].map single).sum) :=
    MergePlan.foldlM_eq_sum take_eq_add [halfway, halfway] 0
  have haverage : ([halfway, halfway].map single).sum.average = 0 := by decide
  have hfloor : exactSum [halfway, halfway] / 2 = 9223372036854775808 := by decide
  rw [zero_add] at hall
  refine ⟨_, hall, haverage, hfloor, fun h ↦ ?_⟩
  have heq := h.eq_floor
  rw [haverage] at heq
  exact absurd (heq.trans hfloor) (by decide)

end Nebula.Histogram
