import Mathlib.Algebra.Group.Int.Defs
import Mathlib.Logic.Function.Basic
import Mathlib.Data.Nat.Notation
import Mathlib.Tactic.SplitIfs

/-!
A `Histogram` of 64-bit values: the least and the greatest value, the total and the number of values
modulo `2 ^ 64`, and a bucket for each of the zones between two neighbouring threshold values. `add`
finds the zone of a value by a binary search. An access outside of an array has no result, and
neither has what it is part of.

`add_eq` says that `add` has one: the search ends at a bucket, and no array is left on the way.
-/

set_option autoImplicit false
set_option relaxedAutoImplicit false

namespace Nebula

abbrev Uint64 := BitVec 64

structure Histogram where
  min_ : Uint64
  max_ : Uint64
  total_ : Uint64
  count_ : Uint64
  buckets_ : Fin 166 → Uint64

namespace Histogram

def totalThresholdValues : ℤ := 6 + 16 * 10 + 1

def thresholdValues : List Uint64 :=
  [0,
    1, 2, 3, 4, 5,

    6, 7, 8, 9, 10,
    12, 14, 16, 18, 20,
    25, 30, 35, 40, 45, 50,

    60, 70, 80, 90, 100,
    120, 140, 160, 180, 200,
    250, 300, 350, 400, 450, 500,

    600, 700, 800, 900, 1000,
    1200, 1400, 1600, 1800, 2000,
    2500, 3000, 3500, 4000, 4500, 5000,

    6000, 7000, 8000, 9000, 10000,
    12000, 14000, 16000, 18000, 20000,
    25000, 30000, 35000, 40000, 45000, 50000,

    60000, 70000, 80000, 90000, 100000,
    120000, 140000, 160000, 180000, 200000,
    250000, 300000, 350000, 400000, 450000, 500000,

    600000, 700000, 800000, 900000, 1000000,
    1200000, 1400000, 1600000, 1800000, 2000000,
    2500000, 3000000, 3500000, 4000000, 4500000, 5000000,

    6000000, 7000000, 8000000, 9000000, 10000000,
    12000000, 14000000, 16000000, 18000000, 20000000,
    25000000, 30000000, 35000000, 40000000, 45000000, 50000000,

    60000000, 70000000, 80000000, 90000000, 100000000,
    120000000, 140000000, 160000000, 180000000, 200000000,
    250000000, 300000000, 350000000, 400000000, 450000000, 500000000,

    600000000, 700000000, 800000000, 900000000, 1000000000,
    1200000000, 1400000000, 1600000000, 1800000000, 2000000000,
    2500000000, 3000000000, 3500000000, 4000000000, 4500000000, 5000000000,

    6000000000, 7000000000, 8000000000, 9000000000, 10000000000,
    12000000000, 14000000000, 16000000000, 18000000000, 20000000000,
    25000000000, 30000000000, 35000000000, 40000000000, 45000000000, 50000000000,

    -- `~((uint64_t) 0)`
    ~~~0]

/-- `threshold_values_[i]`. -/
def thresholdAt (i : ℤ) : Option Uint64 :=
  if 0 ≤ i then thresholdValues[i.toNat]? else none

/-- `threshold_values_[mid] <= v && v < threshold_values_[mid + 1]`. -/
def inZone (v : Uint64) (mid : ℤ) : Option Bool :=
  (thresholdAt mid).bind fun low ↦
    if low ≤ v then (thresholdAt (mid + 1)).map fun high ↦ decide (v < high) else some false

/-- What lies in the middle of two numbers, for the division of C. -/
theorem le_tdiv_two {left right : ℤ} (h : left ≤ right) :
    left ≤ (left + right).tdiv 2 ∧ (left + right).tdiv 2 ≤ right := by
  rw [Int.tdiv_eq_ediv]
  split_ifs with hsign
  · omega
  · have hsign' : Int.sign 2 = 1 := rfl
    omega

/-- The loop of `add`: where it leaves `mid`. -/
def search (v : Uint64) (left right mid : ℤ) : Option ℤ :=
  if _h : left ≤ right then
    (inZone v ((left + right).tdiv 2)).bind fun found ↦
      if found then some ((left + right).tdiv 2)
      else (thresholdAt ((left + right).tdiv 2)).bind fun low ↦
        if v < low then search v left ((left + right).tdiv 2 - 1) ((left + right).tdiv 2)
        else search v ((left + right).tdiv 2 + 1) right ((left + right).tdiv 2)
  else some mid
termination_by (right + 1 - left).toNat
decreasing_by all_goals
  have hmid := le_tdiv_two _h
  omega

/-- `buckets_[mid] += 1`. -/
def incrementBucket (buckets : Fin 166 → Uint64) (mid : ℤ) : Option (Fin 166 → Uint64) :=
  if h : 0 ≤ mid ∧ mid < 166 then
    let b : Fin 166 := ⟨mid.toNat, by omega⟩
    some (Function.update buckets b (buckets b + 1))
  else none

/-- `Histogram()`. -/
def fresh : Histogram where
  min_ := ~~~0
  max_ := 0
  total_ := 0
  count_ := 0
  buckets_ := fun _ ↦ 0

/-- `add`: the histogram after it, and what it returns. -/
def add (h : Histogram) (v : Uint64) : Option (Histogram × ℤ) :=
  (search v 0 (totalThresholdValues - 2) 0).bind fun mid ↦
    (incrementBucket h.buckets_ mid).map fun buckets ↦
      ({ min_ := if v < h.min_ then v else h.min_
         max_ := if v > h.max_ then v else h.max_
         total_ := h.total_ + v
         count_ := h.count_ + 1
         buckets_ := buckets }, mid)

def merge (h other : Histogram) : Histogram where
  min_ := if h.min_ > other.min_ then other.min_ else h.min_
  max_ := if h.max_ < other.max_ then other.max_ else h.max_
  total_ := h.total_ + other.total_
  count_ := h.count_ + other.count_
  buckets_ := fun i ↦ h.buckets_ i + other.buckets_ i

def clear (_h : Histogram) : Histogram where
  min_ := 0
  max_ := 0
  total_ := 0
  count_ := 0
  buckets_ := fun _ ↦ 0

def average (h : Histogram) : Uint64 := if h.count_ ≠ 0 then h.total_ / h.count_ else 0

/-! ### The search -/

theorem length_thresholdValues : thresholdValues.length = 167 := by decide +kernel

/-- A threshold value is there for every bucket, and one more. -/
theorem thresholdAt_isSome {i : ℤ} (h0 : 0 ≤ i) (h : i ≤ 166) :
    ∃ low, thresholdAt i = some low := by
  have hi : i.toNat < thresholdValues.length := by
    rw [length_thresholdValues]
    omega
  exact ⟨thresholdValues[i.toNat], by rw [thresholdAt, if_pos h0, List.getElem?_eq_getElem hi]⟩

theorem inZone_isSome (v : Uint64) {mid : ℤ} (h0 : 0 ≤ mid) (h : mid ≤ 165) :
    ∃ found, inZone v mid = some found := by
  obtain ⟨low, hlow⟩ := thresholdAt_isSome h0 (by omega)
  obtain ⟨high, hhigh⟩ := thresholdAt_isSome (show 0 ≤ mid + 1 by omega) (by omega)
  rw [inZone, hlow, Option.bind_some, hhigh]
  split_ifs
  · exact ⟨_, rfl⟩
  · exact ⟨_, rfl⟩

/-- The search keeps to the buckets. -/
theorem search_mem (v : Uint64) {left right mid : ℤ} (hleft : 0 ≤ left) (hright : right ≤ 165)
    (hmid : 0 ≤ mid ∧ mid ≤ 165) : ∃ b, search v left right mid = some b ∧ 0 ≤ b ∧ b ≤ 165 := by
  induction left, right, mid using search.induct with
  | case1 left right mid hle ihleft ihright =>
    have hbounds := le_tdiv_two hle
    have hmid' : 0 ≤ (left + right).tdiv 2 ∧ (left + right).tdiv 2 ≤ 165 := by omega
    obtain ⟨found, hfound⟩ := inZone_isSome v hmid'.1 hmid'.2
    obtain ⟨low, hlow⟩ := thresholdAt_isSome hmid'.1 (by omega)
    rw [search, dif_pos hle, hfound, Option.bind_some]
    split_ifs with hin
    · exact ⟨_, rfl, hmid'⟩
    · rw [hlow, Option.bind_some]
      split_ifs
      · exact ihleft hleft (by omega) hmid'
      · exact ihright (by omega) hright hmid'
  | case2 left right mid hlt =>
    rw [search, dif_neg hlt]
    exact ⟨mid, rfl, hmid⟩

/-- The search of `add` ends at a bucket. -/
theorem search_add (v : Uint64) :
    ∃ b, search v 0 (totalThresholdValues - 2) 0 = some b ∧ 0 ≤ b ∧ b ≤ 165 :=
  search_mem v (by decide) (by decide) (by decide)

/-! ### What `add` does -/

/-- The bucket in which the search for a value ends. -/
def zone (v : Uint64) : Fin 166 :=
  ⟨((search v 0 (totalThresholdValues - 2) 0).getD 0).toNat, by
    obtain ⟨b, hb, hb'⟩ := search_add v
    rw [hb, Option.getD_some]
    omega⟩

theorem search_eq_zone (v : Uint64) :
    search v 0 (totalThresholdValues - 2) 0 = some ((zone v : ℕ) : ℤ) := by
  obtain ⟨b, hb, hb'⟩ := search_add v
  have hzone : ((zone v : ℕ) : ℤ) = b := by
    change (((search v 0 (totalThresholdValues - 2) 0).getD 0).toNat : ℤ) = b
    rw [hb, Option.getD_some]
    omega
  rw [hb, hzone]

theorem incrementBucket_eq (buckets : Fin 166 → Uint64) (b : Fin 166) :
    incrementBucket buckets ((b : ℕ) : ℤ) = some (Function.update buckets b (buckets b + 1)) := by
  have hb : 0 ≤ ((b : ℕ) : ℤ) ∧ ((b : ℕ) : ℤ) < 166 := by omega
  rw [incrementBucket, dif_pos hb]
  rfl

/-- What `add` does to a histogram. -/
def record (h : Histogram) (v : Uint64) : Histogram where
  min_ := if v < h.min_ then v else h.min_
  max_ := if v > h.max_ then v else h.max_
  total_ := h.total_ + v
  count_ := h.count_ + 1
  buckets_ := Function.update h.buckets_ (zone v) (h.buckets_ (zone v) + 1)

/-- `add` accesses its arrays at existing indices only, and comes to an end. -/
theorem add_eq (h : Histogram) (v : Uint64) : h.add v = some (h.record v, ((zone v : ℕ) : ℤ)) := by
  rw [add, search_eq_zone, Option.bind_some, incrementBucket_eq]
  rfl

end Histogram

end Nebula
