import Nebula.Histogram.Add
import Nebula.Library.Summary
import Mathlib.Algebra.Group.Pi.Basic
import Mathlib.Data.BitVec

/-!
Histograms are a commutative monoid: merging is its sum, a new histogram its zero, and `add` merges
the histogram of one value (`record_eq_add`). A histogram therefore depends only on the values that
went into it, and not on how they were added and merged (`eval_eq_addAll`).
-/

set_option autoImplicit false
set_option relaxedAutoImplicit false

namespace Nebula.Histogram

open Nebula.Library

@[ext] theorem ext {h h' : Histogram} (hmin : h.min_ = h'.min_) (hmax : h.max_ = h'.max_)
    (htotal : h.total_ = h'.total_) (hcount : h.count_ = h'.count_)
    (hbuckets : h.buckets_ = h'.buckets_) : h = h' := by
  cases h
  cases h'
  cases hmin
  cases hmax
  cases htotal
  cases hcount
  cases hbuckets
  rfl

theorem merge_comm (h other : Histogram) : h.merge other = other.merge h := by
  ext1
  · simp only [merge]
    split_ifs <;> bv_omega
  · simp only [merge]
    split_ifs <;> bv_omega
  · exact add_comm ..
  · exact add_comm ..
  · exact funext fun i ↦ add_comm ..

theorem merge_assoc (h other third : Histogram) :
    (h.merge other).merge third = h.merge (other.merge third) := by
  ext1
  · simp only [merge]
    split_ifs <;> bv_omega
  · simp only [merge]
    split_ifs <;> bv_omega
  · exact add_assoc ..
  · exact add_assoc ..
  · exact funext fun i ↦ add_assoc ..

theorem not_gt_fresh (v : Uint64) : ¬ v > fresh.min_ := by
  change ¬ v > ~~~0
  bv_omega

theorem not_lt_fresh (v : Uint64) : ¬ v < fresh.max_ := by
  change ¬ v < 0
  bv_omega

/-- No value is greater than the `min_` of a new histogram, and none is less than its `max_`. -/
theorem merge_fresh (h : Histogram) : h.merge fresh = h := by
  ext1
  · change (if h.min_ > fresh.min_ then fresh.min_ else h.min_) = h.min_
    rw [if_neg (not_gt_fresh h.min_)]
  · change (if h.max_ < fresh.max_ then fresh.max_ else h.max_) = h.max_
    rw [if_neg (not_lt_fresh h.max_)]
  · exact add_zero ..
  · exact add_zero ..
  · exact funext fun i ↦ add_zero ..

theorem fresh_merge (h : Histogram) : fresh.merge h = h :=
  (merge_comm fresh h).trans (merge_fresh h)

instance : Add Histogram := ⟨merge⟩

instance : Zero Histogram := ⟨fresh⟩

instance : AddCommMonoid Histogram where
  add_assoc := merge_assoc
  zero_add := fresh_merge
  add_zero := merge_fresh
  add_comm := merge_comm
  nsmul := nsmulRec

/-- The histogram of one value. -/
def single (v : Uint64) : Histogram := fresh.record v

@[simp] theorem single_min_ (v : Uint64) : (single v).min_ = v := by
  change (if v < ~~~0 then v else ~~~0) = v
  split
  · rfl
  · bv_omega

@[simp] theorem single_max_ (v : Uint64) : (single v).max_ = v := by
  change (if 0 < v then v else 0) = v
  split
  · rfl
  · bv_omega

/-- `add` merges the histogram of the value. -/
theorem record_eq_add (h : Histogram) (v : Uint64) : h.record v = h + single v := by
  change h.record v = h.merge (single v)
  ext1
  · simp only [record, merge, single_min_, gt_iff_lt]
  · simp only [record, merge, single_max_, gt_iff_lt]
  · simp only [record, merge, single, fresh, zero_add]
  · simp only [record, merge, single, fresh, zero_add]
  · funext i
    simp only [record, merge, single, fresh]
    rcases eq_or_ne i (zone v) with rfl | hi
    · simp only [Function.update_self, zero_add]
    · simp only [Function.update_of_ne hi, add_zero]

/-- `add`, without what it returns. -/
def take (h : Histogram) (v : Uint64) : Option Histogram := (h.add v).map Prod.fst

theorem take_eq_add (h : Histogram) (v : Uint64) : h.take v = some (h + single v) := by
  rw [take, add_eq, Option.map_some, record_eq_add]

/-- `add` for all values, one after the other. -/
def addAll (h : Histogram) (vs : List Uint64) : Option Histogram := vs.foldlM take h

/-- The histogram that comes about when values are added to histograms, and these are merged. -/
def eval (plan : MergePlan Uint64) : Option Histogram := plan.eval fresh take merge

/-- Histograms that are added to and merged in any way come to the histogram to which all of the
values have been added, in any order; and merging is commutative and associative, and does nothing
with a new histogram. -/
theorem eval_eq_addAll (plan : MergePlan Uint64) (vs : List Uint64) (hvs : vs.Perm plan.values) :
    (∃ h, eval plan = some h ∧ fresh.addAll vs = some h) ∧
      (∀ h other : Histogram, h.merge other = other.merge h) ∧
      (∀ h other third : Histogram,
        (h.merge other).merge third = h.merge (other.merge third)) ∧
      ∀ h : Histogram, h.merge fresh = h ∧ fresh.merge h = h := by
  refine ⟨⟨(vs.map single).sum, ?_, ?_⟩, merge_comm, merge_assoc,
    fun h ↦ ⟨merge_fresh h, fresh_merge h⟩⟩
  · have heval : eval plan = vs.foldlM take 0 := MergePlan.eval_eq_foldlM take_eq_add hvs
    rw [heval, MergePlan.foldlM_eq_sum take_eq_add, zero_add]
  · have hall : fresh.addAll vs = some (0 + (vs.map single).sum) :=
      MergePlan.foldlM_eq_sum take_eq_add vs 0
    rw [hall, zero_add]

/-- Two values are added to one histogram, and it is merged with one that has got a value before. -/
theorem eval_eq_addAll_merge :
    (∃ h, eval (.merge (.add (.add .fresh 5) 7) (.add .fresh 3)) = some h ∧
        fresh.addAll [3, 7, 5] = some h) ∧
      (∀ h other : Histogram, h.merge other = other.merge h) ∧
      (∀ h other third : Histogram,
        (h.merge other).merge third = h.merge (other.merge third)) ∧
      ∀ h : Histogram, h.merge fresh = h ∧ fresh.merge h = h :=
  eval_eq_addAll (.merge (.add (.add .fresh 5) 7) (.add .fresh 3)) [3, 7, 5] (by decide)

end Nebula.Histogram
